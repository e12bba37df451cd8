import CloudLedger.Proofs.StateFile.Decimals
import Mathlib.Data.Nat.Digits.Defs

/-!
# Numerals and words of 32 bits

Digits are read one by one into a word that must never overflow.  Nothing is lost by that: a numeral
is read exactly if its number fits in the word, however many zeros it begins with, and what is read
is that number.  A numeral with a minus sign is never read as a number above zero, and one that is
written with zeros in front denotes the number that it was written for.
-/

namespace CloudLedger.Text

open StateFile

variable {cs ds : List Char} {n m limit : Nat}

/-- Whether digits denote a number by the places that they stand at. -/
structure Denotes (ds : List Char) (n : Nat) : Prop where
  ne_nil : ds ≠ []
  areDigits : ∀ d ∈ ds, isDigit d
  ofDigits_eq : Nat.ofDigits 10 (ds.map digitValue).reverse = n

/-- Whether a text consists of digits that denote a number, and possibly a plus sign before them. -/
def IsNumeral (cs : List Char) (n : Nat) : Prop :=
  Denotes cs n ∨ ∃ ds, cs = '+' :: ds ∧ Denotes ds n

theorem ofDigits_reverse (ds : List Char) :
    Nat.ofDigits 10 (ds.map digitValue).reverse = valueAfter 0 ds := by
  calc Nat.ofDigits 10 (ds.map digitValue).reverse
      = ds.foldl (fun n d ↦ digitValue d + 10 * n) 0 := by
        rw [Nat.ofDigits_eq_foldr, List.foldr_reverse, List.foldl_map]
        rfl
    _ = valueAfter 0 ds := by
        simp only [valueAfter, Nat.add_comm]

theorem Denotes.exists_cons (h : Denotes ds n) : ∃ d more, ds = d :: more ∧ isDigit d := by
  cases ds with
  | nil => exact absurd rfl h.ne_nil
  | cons d more => exact ⟨d, more, rfl, h.areDigits d List.mem_cons_self⟩

theorem isNumeral_plus : IsNumeral ('+' :: ds) n ↔ Denotes ds n := by
  constructor
  · rintro (h | ⟨ds, heq, h⟩)
    · exact absurd (h.areDigits '+' List.mem_cons_self) (by decide)
    · rwa [(List.cons.inj heq).2]
  · intro h
    exact .inr ⟨ds, rfl, h⟩

theorem isNumeral_of_not_plus (hplus : ∀ ds, cs ≠ '+' :: ds) : IsNumeral cs n ↔ Denotes cs n := by
  constructor
  · rintro (h | ⟨ds, heq, -⟩)
    · exact h
    · exact absurd heq (hplus ds)
  · exact .inl

theorem not_isNumeral_minus : ¬ IsNumeral ('-' :: ds) n := by
  rw [isNumeral_of_not_plus (by simp)]
  intro h
  exact absurd (h.areDigits '-' List.mem_cons_self) (by decide)

/-! ## Reading -/

theorem readOn?_eq_some (hn : n ≤ limit) :
    readOn? limit n ds = some m ↔ (∀ d ∈ ds, isDigit d) ∧ valueAfter n ds = m ∧ m ≤ limit := by
  induction ds generalizing n with
  | nil =>
    rw [readOn?, Option.some.injEq]
    constructor
    · rintro rfl
      exact ⟨by simp, rfl, hn⟩
    · rintro ⟨-, h, -⟩
      exact h
  | cons d rest ih =>
    have hvalue : valueAfter n (d :: rest) = valueAfter (10 * n + digitValue d) rest := rfl
    rw [readOn?, List.forall_mem_cons, hvalue]
    by_cases hnext : isDigit d ∧ 10 * n + digitValue d ≤ limit
    · rw [if_pos hnext, ih hnext.2, and_iff_right hnext.1]
    · rw [if_neg hnext]
      -- a number that is too large already does not become smaller by further digits
      have hgrows := le_valueAfter (10 * n + digitValue d) rest
      constructor
      · nofun
      · rintro ⟨⟨hdigit, -⟩, rfl, hlimit⟩
        exact absurd ⟨hdigit, hgrows.trans hlimit⟩ hnext

theorem readWithin?_eq_some : readWithin? limit cs = some n ↔ Denotes cs n ∧ n ≤ limit := by
  unfold readWithin?
  split
  · rename_i hnil
    constructor
    · nofun
    · rintro ⟨h, -⟩
      exact absurd hnil h.ne_nil
  · rename_i hne
    rw [readOn?_eq_some (Nat.zero_le limit)]
    constructor
    · rintro ⟨hdigits, hvalue, hlimit⟩
      exact ⟨⟨hne, hdigits, (ofDigits_reverse cs).trans hvalue⟩, hlimit⟩
    · rintro ⟨h, hlimit⟩
      exact ⟨h.areDigits, (ofDigits_reverse cs).symm.trans h.ofDigits_eq, hlimit⟩

theorem readUnsigned?_eq_some :
    readUnsigned? cs = some n ↔ IsNumeral cs n ∧ n ≤ greatestUnsigned := by
  unfold readUnsigned?
  split
  · rw [readWithin?_eq_some, isNumeral_plus]
  · rename_i hplus
    rw [readWithin?_eq_some, isNumeral_of_not_plus hplus]

theorem map_natCast_eq_some {number : Option Nat} :
    number.map (fun n : Nat ↦ (n : Int)) = some (n : Int) ↔ number = some n := by
  cases number <;> simp

/-- Above zero a signed numeral is read just like an unsigned one, but in a word with fewer such
numbers. -/
theorem readSigned?_eq_some (hn : 0 < n) :
    readSigned? cs = some (n : Int) ↔ IsNumeral cs n ∧ n ≤ greatestSigned := by
  unfold readSigned?
  split
  · constructor
    · intro h
      obtain ⟨k, -, hk⟩ := Option.map_eq_some_iff.mp h
      omega
    · rintro ⟨h, -⟩
      exact absurd h not_isNumeral_minus
  · rw [map_natCast_eq_some, readWithin?_eq_some, isNumeral_plus]
  · rename_i hplus
    rw [map_natCast_eq_some, readWithin?_eq_some, isNumeral_of_not_plus hplus]

/-! ## Writing with zeros in front -/

theorem Denotes.digitsValue_eq (h : Denotes ds n) : digitsValue ds = n :=
  (ofDigits_reverse ds).symm.trans h.ofDigits_eq

theorem toList_zeroPadded (width n : Nat) : (zeroPadded width n).toList =
    List.replicate (width - (Nat.toDigits 10 n).length) '0' ++ Nat.toDigits 10 n := by
  have hsign : ¬ (n : Int) < 0 := by omega
  simp only [zeroPadded, if_neg hsign, Int.natAbs_natCast, natNumeral, String.toList_append,
    String.toList_ofList, String.length_ofList]
  rfl

theorem length_zeroPadded {width : Nat} (hwidth : 0 < width) (hn : n < 10 ^ width) :
    (zeroPadded width n).toList.length = width := by
  have hlength := (Nat.length_toDigits_le_iff (by decide) hwidth).mpr hn
  rw [toList_zeroPadded, List.length_append, List.length_replicate]
  omega

/-- Zeros in front of a numeral do not change its number. -/
theorem denotes_zeroPadded (width n : Nat) : Denotes (zeroPadded width n).toList n where
  ne_nil := by
    rw [toList_zeroPadded]
    exact List.append_ne_nil_of_right_ne_nil _ Nat.toDigits_ne_nil
  areDigits d hd := by
    rw [toList_zeroPadded, List.mem_append] at hd
    rcases hd with hd | hd
    · rw [List.eq_of_mem_replicate hd]
      decide
    · exact isDigit_of_mem_toDigits hd
  ofDigits_eq := by
    rw [ofDigits_reverse, toList_zeroPadded, valueAfter_append, valueAfter_zeros, Nat.mul_zero,
      valueAfter_toDigits]

end CloudLedger.Text
