import CloudLedger.StateFile.Number
import CloudLedger.Text.Numeral
import Mathlib.Data.List.Basic

/-!
# Numbers of a state file are read digit by digit

The digits of a number are gathered to the number that they denote as long as it has 64 bits.
Digits after the point lower the exponent that the gathered number is scaled by, and an exponent of
the number's own is added to that.
-/

namespace CloudLedger.StateFile

open Text

variable {ds whole fraction : List Char} {c : Char} {significand : Nat} {start : Int}
  {rest more : List UInt8}

/-! ## Digits -/

theorem isDigit_iff : isDigit c ↔ 0x30 ≤ c.toNat ∧ c.toNat ≤ 0x39 := by
  rw [isDigit, Bool.and_eq_true, decide_eq_true_iff, decide_eq_true_iff]
  exact Iff.rfl

theorem toNat_byteOf (h : c.toNat < 0x80) : (byteOf c).toNat = c.toNat := by
  have hbyte : (byteOf c).toNat = c.toNat % 256 := by
    rw [byteOf]
    exact UInt8.toNat_ofNat'
  omega

theorem isDigitByte_iff {b : UInt8} : isDigitByte b ↔ 0x30 ≤ b.toNat ∧ b.toNat ≤ 0x39 := by
  rw [isDigitByte, Bool.and_eq_true, decide_eq_true_iff, decide_eq_true_iff, UInt8.le_iff_toNat_le,
    UInt8.le_iff_toNat_le]
  exact Iff.rfl

theorem isDigitByte_byteOf (h : isDigit c) : isDigitByte (byteOf c) := by
  rw [isDigit_iff] at h
  rw [isDigitByte_iff, toNat_byteOf (by omega)]
  exact h

theorem digitOf_byteOf (h : isDigit c) : digitOf (byteOf c) = digitValue c := by
  rw [isDigit_iff] at h
  rw [digitOf, toNat_byteOf (by omega), digitValue]
  rfl

/-- The number that digits denote after some others. -/
def valueAfter (n : Nat) (ds : List Char) : Nat := ds.foldl (fun n d ↦ 10 * n + digitValue d) n

theorem le_valueAfter (n : Nat) (ds : List Char) : n ≤ valueAfter n ds := by
  induction ds generalizing n with
  | nil => exact Nat.le_refl n
  | cons d rest ih => exact Nat.le_trans (by omega) (ih (10 * n + digitValue d))

theorem foldl_digitOf (hdigits : ∀ c ∈ ds, isDigit c) (n : Nat) :
    (ds.map byteOf).foldl (fun n b ↦ 10 * n + digitOf b) n = valueAfter n ds := by
  induction ds generalizing n with
  | nil => rfl
  | cons d rest ih =>
    rw [List.map_cons, List.foldl_cons, digitOf_byteOf (hdigits d List.mem_cons_self),
      ih fun c hc ↦ hdigits c (List.mem_cons_of_mem d hc)]
    rfl

/-- Digits that fit are gathered all. -/
theorem gather_map (hdigits : ∀ c ∈ ds, isDigit c) {n : Nat}
    (hfits : valueAfter n ds ≤ greatestSignificand) :
    gather n (ds.map byteOf) = (valueAfter n ds, []) := by
  induction ds generalizing n with
  | nil => rfl
  | cons d rest ih =>
    have hnext : 10 * n + digitValue d ≤ greatestSignificand :=
      Nat.le_trans (le_valueAfter _ rest) hfits
    rw [List.map_cons, gather, digitOf_byteOf (hdigits d List.mem_cons_self), if_pos hnext]
    exact ih (fun c hc ↦ hdigits c (List.mem_cons_of_mem d hc)) hfits

/-- Whether no digit stands in front. -/
def NoDigit (bs : List UInt8) : Prop := ∀ b ∈ bs.head?, ¬ isDigitByte b

theorem takeWhile_digits (hdigits : ∀ c ∈ ds, isDigit c) (hmore : NoDigit more) :
    (ds.map byteOf ++ more).takeWhile isDigitByte = ds.map byteOf := by
  have hall : ∀ b ∈ ds.map byteOf, isDigitByte b := by
    intro b hb
    obtain ⟨c, hc, rfl⟩ := List.mem_map.mp hb
    exact isDigitByte_byteOf (hdigits c hc)
  have hnone : more.takeWhile isDigitByte = [] := by
    cases more with
    | nil => rfl
    | cons b bs => exact List.takeWhile_cons_of_neg (hmore b rfl)
  rw [List.takeWhile_append_of_pos hall, hnone, List.append_nil]

theorem dropWhile_digits (hdigits : ∀ c ∈ ds, isDigit c) (hmore : NoDigit more) :
    (ds.map byteOf ++ more).dropWhile isDigitByte = more := by
  have hall : ∀ b ∈ ds.map byteOf, isDigitByte b := by
    intro b hb
    obtain ⟨c, hc, rfl⟩ := List.mem_map.mp hb
    exact isDigitByte_byteOf (hdigits c hc)
  have hnone : more.dropWhile isDigitByte = more := by
    cases more with
    | nil => rfl
    | cons b bs => exact List.dropWhile_cons_of_neg (hmore b rfl)
  rw [List.dropWhile_append_of_pos hall, hnone]

/-! ## Numbers with a point or an exponent -/

/-- Whether a number ends before some bytes. -/
def EndsNumber (bs : List UInt8) : Prop :=
  ∀ b ∈ bs.head?, ¬ isDigitByte b ∧ ¬ isExponentLetter b ∧ b ≠ byteOf '.'

theorem tail_of_ends (hrest : EndsNumber rest) :
    tail significand start rest = (·, rest) <$> assemble significand start := by
  cases rest with
  | nil => rfl
  | cons b bs =>
    rw [tail, if_neg (hrest b rfl).2.1]
    rfl

theorem tail_exponent (significand : Nat) (start : Int) (negative : Bool)
    (hdigits : ∀ c ∈ ds, isDigit c) (hne : ds ≠ []) (hfits : valueAfter 0 ds ≤ greatestExponent)
    (hrest : NoDigit rest) :
    tail significand start
        (byteOf 'e' :: byteOf (if negative then '-' else '+') :: (ds.map byteOf ++ rest)) =
      (·, rest) <$>
        assemble significand
          (if negative then start - valueAfter 0 ds else start + valueAfter 0 ds) := by
  have hmap : ds.map byteOf ≠ [] := by simpa using hne
  rw [tail, if_pos (by decide), exponent]
  cases negative with
  | false =>
    have hplus : ¬ byteOf '+' = byteOf '-' := by decide
    simp only [Bool.false_eq_true, if_false, if_neg hplus, if_true]
    rw [takeWhile_digits hdigits hrest, dropWhile_digits hdigits hrest, foldl_digitOf hdigits,
      if_neg hmap, if_pos hfits]
    rfl
  | true =>
    simp only [if_true]
    rw [takeWhile_digits hdigits hrest, dropWhile_digits hdigits hrest, foldl_digitOf hdigits,
      if_neg hmap, if_pos hfits]
    rfl

/-- What a number read after its sign is. -/
def signedReal (negative : Bool) (scanned : Scanned Float) : Scanned Number :=
  (.real (if negative then -scanned.1 else scanned.1), scanned.2)

/-- Whether digits may stand before a point: there are some, and no zero leads. -/
def Leads (whole : List Char) : Prop :=
  (∀ c ∈ whole, isDigit c) ∧ whole ≠ [] ∧ (whole.head? = some '0' → whole.length ≤ 1)

theorem head?_map_byteOf (hdigits : ∀ c ∈ ds, isDigit c) :
    (ds.map byteOf).head? = some 0x30 ↔ ds.head? = some '0' := by
  cases ds with
  | nil => simp
  | cons d rest =>
    have hd := hdigits d List.mem_cons_self
    rw [isDigit_iff] at hd
    simp only [List.map_cons, List.head?_cons, Option.some.injEq]
    constructor
    · intro h
      apply Char.ext
      rw [← UInt32.toNat_inj]
      change d.toNat = 0x30
      rw [← toNat_byteOf (by omega), h]
      rfl
    · rintro rfl
      rfl

theorem not_leadingZero (hleads : Leads whole) :
    ¬ ((whole.map byteOf).head? = some 0x30 ∧ 1 < (whole.map byteOf).length) := by
  rintro ⟨hzero, hlength⟩
  have := hleads.2.2 ((head?_map_byteOf hleads.1).mp hzero)
  rw [List.length_map] at hlength
  omega

/-- A number with a point is its digits, of which those after the point lower the exponent. -/
theorem unsignedNumber_point (negative : Bool) (hleads : Leads whole)
    (hfraction : ∀ c ∈ fraction, isDigit c) (hne : fraction ≠ []) (hmore : NoDigit more)
    (hfits : valueAfter 0 (whole ++ fraction) ≤ greatestSignificand) :
    unsignedNumber negative
        (whole.map byteOf ++ byteOf '.' :: (fraction.map byteOf ++ more)) =
      signedReal negative <$>
        tail (valueAfter 0 (whole ++ fraction)) (-fraction.length) more := by
  have happend : valueAfter 0 (whole ++ fraction) = valueAfter (valueAfter 0 whole) fraction :=
    List.foldl_append
  rw [happend] at hfits ⊢
  have hpoint : NoDigit (byteOf '.' :: (fraction.map byteOf ++ more)) := by
    intro b hb
    obtain rfl : byteOf '.' = b := by simpa using hb
    decide
  have hwhole : whole.map byteOf ≠ [] := by simpa using hleads.2.1
  have hfractionBytes : fraction.map byteOf ≠ [] := by simpa using hne
  rw [unsignedNumber]
  simp only [takeWhile_digits hleads.1 hpoint, dropWhile_digits hleads.1 hpoint,
    gather_map hleads.1 (Nat.le_trans (le_valueAfter _ fraction) hfits), if_neg hwhole,
    if_neg (not_leadingZero hleads), if_true]
  rw [StateFile.fraction]
  simp only [takeWhile_digits hfraction hmore, dropWhile_digits hfraction hmore,
    gather_map hfraction hfits, if_neg hfractionBytes, List.length_map, List.length_nil,
    Int.natCast_zero, Int.zero_sub, Nat.sub_zero]
  cases tail (valueAfter (valueAfter 0 whole) fraction) (-fraction.length) more <;> rfl

theorem unsignedNumber_exponent (negative : Bool) (hleads : Leads whole)
    (hfits : valueAfter 0 whole ≤ greatestSignificand) :
    unsignedNumber negative (whole.map byteOf ++ byteOf 'e' :: more) =
      signedReal negative <$> tail (valueAfter 0 whole) 0 (byteOf 'e' :: more) := by
  have hletter : NoDigit (byteOf 'e' :: more) := by
    intro b hb
    obtain rfl : byteOf 'e' = b := by simpa using hb
    decide
  have hwhole : whole.map byteOf ≠ [] := by simpa using hleads.2.1
  have hpoint : ¬ byteOf 'e' = byteOf '.' := by decide
  have hexponent : isExponentLetter (byteOf 'e') = true := by decide
  rw [unsignedNumber]
  simp only [takeWhile_digits hleads.1 hletter, dropWhile_digits hleads.1 hletter,
    gather_map hleads.1 hfits, if_neg hwhole, if_neg (not_leadingZero hleads), if_neg hpoint,
    hexponent, or_true, if_true, List.length_nil, Int.natCast_zero]
  cases tail (valueAfter 0 whole) 0 (byteOf 'e' :: more) <;> rfl

end CloudLedger.StateFile
