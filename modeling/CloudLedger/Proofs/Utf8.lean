import CloudLedger.Text.Utf8
import Mathlib.Tactic.SplitIfs

/-!
# UTF-8 is read back

The lead byte of a character sets up what is due after it, each byte that follows adds six bits, and
the last one finishes the character.  A text is therefore read back from its bytes.
-/

namespace CloudLedger.Text.Utf8

variable {bs : List UInt8}

theorem pieces_cons (under : Option Pending) (b : UInt8) (bs : List UInt8) :
    pieces under (b :: bs) = (step under b).1 ++ pieces (step under b).2 bs := by
  rw [pieces]

theorem toNat_ofNat {n : Nat} (h : n < 256) : (UInt8.ofNat n).toNat = n := by
  rw [UInt8.toNat_ofNat']
  omega

theorem pieces_lead_one {n : Nat} (h : n < 0x80) :
    pieces none (.ofNat n :: bs) = some (Char.ofNat n) :: pieces none bs := by
  rw [pieces_cons, step, lead, toNat_ofNat (by omega), if_pos h]
  rfl

theorem pieces_lead_two {n : Nat} (hlow : 2 ≤ n) (hhigh : n < 32) :
    pieces none (.ofNat (n + 0xC0) :: bs) = pieces (some ⟨n, 0, 0x80, 0xBF⟩) bs := by
  rw [pieces_cons, step, lead, toNat_ofNat (by omega), if_neg (by omega), if_neg (by omega),
    if_pos (by omega), Nat.add_sub_cancel]
  rfl

theorem pieces_lead_three {n : Nat} (h : n < 16) :
    pieces none (.ofNat (n + 0xE0) :: bs) =
      pieces (some ⟨n, 1, if n = 0 then 0xA0 else 0x80, if n = 13 then 0x9F else 0xBF⟩) bs := by
  have hfirst : n + 0xE0 = 0xE0 ↔ n = 0 := by omega
  have hlast : n + 0xE0 = 0xED ↔ n = 13 := by omega
  rw [pieces_cons, step, lead, toNat_ofNat (by omega), if_neg (by omega), if_neg (by omega),
    if_neg (by omega), if_pos (by omega), Nat.add_sub_cancel]
  simp only [hfirst, hlast, List.nil_append]

theorem pieces_lead_four {n : Nat} (h : n < 5) :
    pieces none (.ofNat (n + 0xF0) :: bs) =
      pieces (some ⟨n, 2, if n = 0 then 0x90 else 0x80, if n = 4 then 0x8F else 0xBF⟩) bs := by
  have hfirst : n + 0xF0 = 0xF0 ↔ n = 0 := by omega
  have hlast : n + 0xF0 = 0xF4 ↔ n = 4 := by omega
  rw [pieces_cons, step, lead, toNat_ofNat (by omega), if_neg (by omega), if_neg (by omega),
    if_neg (by omega), if_neg (by omega), if_pos (by omega), Nat.add_sub_cancel]
  simp only [hfirst, hlast, List.nil_append]

theorem pieces_last {p : Pending} {n : Nat} (hdue : p.due = 0) (h : n < 64)
    (hlow : p.low ≤ n + 0x80) (hhigh : n + 0x80 ≤ p.high) :
    pieces (some p) (.ofNat (n + 0x80) :: bs) =
      some (Char.ofNat (p.value * 64 + n)) :: pieces none bs := by
  rw [pieces_cons, step, toNat_ofNat (by omega), if_pos ⟨hlow, hhigh⟩, Nat.add_sub_cancel, hdue]
  rfl

theorem pieces_next {p : Pending} {due n : Nat} (hdue : p.due = due + 1) (h : n < 64)
    (hlow : p.low ≤ n + 0x80) (hhigh : n + 0x80 ≤ p.high) :
    pieces (some p) (.ofNat (n + 0x80) :: bs) =
      pieces (some ⟨p.value * 64 + n, due, 0x80, 0xBF⟩) bs := by
  rw [pieces_cons, step, toNat_ofNat (by omega), if_pos ⟨hlow, hhigh⟩, Nat.add_sub_cancel, hdue]
  rfl

/-- The bytes of a character are read as that character. -/
theorem pieces_utf8EncodeChar (c : Char) (bs : List UInt8) :
    pieces none (String.utf8EncodeChar c ++ bs) = some c :: pieces none bs := by
  have hc : ∀ k, k = c.val.toNat →
      some (Char.ofNat k) :: pieces none bs = some c :: pieces none bs := by
    have hchar : Char.ofNat c.val.toNat = c := Char.ofNat_toNat c
    rintro k rfl
    rw [hchar]
  have hvalid : c.val.toNat < 0xD800 ∨ 0xDFFF < c.val.toNat ∧ c.val.toNat < 0x110000 := c.valid
  unfold String.utf8EncodeChar
  dsimp only
  generalize c.val.toNat = n at *
  split_ifs with h1 h2 h3
  · rw [List.singleton_append, pieces_lead_one (by omega)]
    exact hc n rfl
  · rw [List.cons_append, List.singleton_append, Nat.mod_eq_of_lt (by omega),
      pieces_lead_two (by omega) (by omega),
      pieces_last rfl (by omega) (by dsimp only; omega) (by dsimp only; omega)]
    exact hc _ (Nat.div_add_mod' n 64)
  · simp only [List.cons_append, List.nil_append]
    rw [Nat.mod_eq_of_lt (by omega), pieces_lead_three (by omega),
      pieces_next rfl (by omega) (by dsimp only; split_ifs <;> omega)
        (by dsimp only; split_ifs <;> omega),
      pieces_last rfl (by omega) (by dsimp only; omega) (by dsimp only; omega)]
    have hvalue : (n / 2 ^ 12 * 64 + n / 2 ^ 6 % 2 ^ 6) * 64 + n % 2 ^ 6 = n := by omega
    exact hc _ hvalue
  · simp only [List.cons_append, List.nil_append]
    rw [Nat.mod_eq_of_lt (by omega), pieces_lead_four (by omega),
      pieces_next rfl (by omega) (by dsimp only; split_ifs <;> omega)
        (by dsimp only; split_ifs <;> omega),
      pieces_next rfl (by omega) (by dsimp only; omega) (by dsimp only; omega),
      pieces_last rfl (by omega) (by dsimp only; omega) (by dsimp only; omega)]
    have hvalue : ((n / 2 ^ 18 * 64 + n / 2 ^ 12 % 2 ^ 6) * 64 + n / 2 ^ 6 % 2 ^ 6) * 64 +
        n % 2 ^ 6 = n := by
      omega
    exact hc _ hvalue

/-- What is written is read back. -/
theorem pieces_encode (cs : List Char) :
    pieces none (cs.flatMap String.utf8EncodeChar) = cs.map some := by
  induction cs with
  | nil => rfl
  | cons c rest ih => rw [List.flatMap_cons, pieces_utf8EncodeChar, ih, List.map_cons]

theorem decode?_encode (s : String) : decode? (encode s) = some s := by
  have hall : (s.toList.map some).mapM id = some s.toList := by
    induction s.toList with
    | nil => rfl
    | cons c rest ih => simp [ih]
  rw [decode?, encode, pieces_encode, hall, Option.map_some, String.ofList_toList]

theorem decodeLossy_encode (s : String) : decodeLossy (encode s) = s := by
  have hwhole : (s.toList.map some).map (fun piece ↦ piece.getD '\uFFFD') = s.toList := by
    rw [List.map_map]
    exact List.map_id'' (fun _ ↦ rfl) s.toList
  rw [decodeLossy, encode, pieces_encode, hwhole, String.ofList_toList]

end CloudLedger.Text.Utf8
