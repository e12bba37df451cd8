import CloudLedger.Proofs.Amount.Shortest
import CloudLedger.Proofs.StateFile.Decimals
import CloudLedger.StateFile.Document
import CloudLedger.StateFile.Render

/-!
# What becomes of a measure that is written and read again

A measure is written as its shortest decimal.  Reading gathers the digits of this decimal in one
number, rounds it and scales it by a power of ten, which rounds again.  The outcome depends on the
measure alone; that it is the same measure is not said here.
-/

namespace CloudLedger.StateFile

open Text Amount

variable {b : Binary} {d : Decimal} {x : Float} {rest : List UInt8}

/-- The decimal that is written for a number. -/
def decimalOf (b : Binary) : Decimal := if b.significand = 0 then ⟨0, 0⟩ else b.shortest

/-- What becomes of a number without its sign. -/
def rereadMagnitude (b : Binary) : Except DocumentFault Float :=
  assemble (spelled (decimalOf b)).digits (spelled (decimalOf b)).exponent

/-- What becomes of a measure that is written and read again. -/
def reread (x : Float) : Except DocumentFault Float :=
  match view x with
  | .finite b => (fun y ↦ if b.negative then -y else y) <$> rereadMagnitude b
  | _ => .error .unexpected

theorem reread_of_finite (h : view x = .finite b) :
    reread x = (fun y ↦ if b.negative then -y else y) <$> rereadMagnitude b := by
  rw [reread, h]

theorem reread_of_not_finite (h : ∀ b, view x ≠ .finite b) : reread x = .error .unexpected := by
  rw [reread]
  split
  · rename_i b hview
    exact absurd hview (h b)
  · rfl

/-! ## The text of a number -/

theorem text_of_finite (h : view x = .finite b) :
    Layout.state.text x =
      if b.negative then "-" ++ Layout.state.decimal (decimalOf b)
      else Layout.state.decimal (decimalOf b) := by
  have hdecimal : (if b.significand = 0 then "0.0" else Layout.state.decimal b.shortest) =
      Layout.state.decimal (decimalOf b) := by
    rw [decimalOf]
    split_ifs
    · decide
    · rfl
  rw [Layout.text, h]
  dsimp only
  rw [hdecimal]

theorem text_of_not_finite (h : ∀ b, view x ≠ .finite b) : Layout.state.text x = "null" := by
  rw [Layout.text]
  cases hview : view x with
  | undefined => rfl
  | infinite negative => cases negative <;> rfl
  | finite b => exact absurd hview (h b)

/-- Whether all characters are ASCII. -/
def Ascii (cs : List Char) : Prop := ∀ c ∈ cs, c.toNat < 0x80

theorem Ascii.append {cs ds : List Char} (hcs : Ascii cs) (hds : Ascii ds) : Ascii (cs ++ ds) :=
  List.forall_mem_append.mpr ⟨hcs, hds⟩

theorem Ascii.cons {c : Char} {cs : List Char} (hc : c.toNat < 0x80) (hcs : Ascii cs) :
    Ascii (c :: cs) :=
  List.forall_mem_cons.mpr ⟨hc, hcs⟩

theorem Ascii.pointed {whole fraction : List Char} (hwhole : Ascii whole)
    (hfraction : Ascii fraction) : Ascii (pointed whole fraction) :=
  hwhole.append (hfraction.cons (by decide))

theorem ascii_zeros (n : Nat) : Ascii (List.replicate n '0') := by
  intro c hc
  rw [List.eq_of_mem_replicate hc]
  decide

theorem ascii_toDigits (n : Nat) : Ascii (Nat.toDigits 10 n) := by
  intro c hc
  have hdigit : 0x30 ≤ c.toNat ∧ c.toNat ≤ 0x39 := isDigit_iff.mp (isDigit_of_mem_toDigits hc)
  omega

theorem ascii_exponentChars (n : Int) : Ascii (exponentChars n) := by
  have hsign : (if n < 0 then '-' else '+').toNat < 0x80 := by split_ifs <;> decide
  exact ((ascii_toDigits n.natAbs).cons hsign).cons (by decide)

theorem ascii_decimal (d : Decimal) : Ascii (Layout.state.decimal d).toList := by
  have hdigits : Ascii (digitsOf d) := ascii_toDigits d.digits
  have htake : ∀ n, Ascii ((digitsOf d).take n) := fun n c hc ↦ hdigits c (List.mem_of_mem_take hc)
  have hdrop : ∀ n, Ascii ((digitsOf d).drop n) := fun n c hc ↦ hdigits c (List.mem_of_mem_drop hc)
  have hzero : Ascii ['0'] := ascii_zeros 1
  rw [toList_decimal]
  split_ifs
  · exact (hdigits.append (ascii_zeros _)).pointed hzero
  · exact (htake _).pointed (hdrop _)
  · exact hzero.pointed ((ascii_zeros _).append hdigits)
  · exact (htake 1).append (ascii_exponentChars _)
  · exact ((htake 1).pointed (hdrop 1)).append (ascii_exponentChars _)

/-- A decimal begins with a digit. -/
theorem decimal_eq_cons (d : Decimal) :
    ∃ c cs, (Layout.state.decimal d).toList = c :: cs ∧ isDigit c := by
  have hleads : Leads (digitsOf d) := leads_digitsOf d
  cases hds : digitsOf d with
  | nil => exact absurd hds hleads.2.1
  | cons c cs =>
    have hc : isDigit c := hleads.1 c (hds ▸ List.mem_cons_self)
    rw [toList_decimal, hds]
    split_ifs with hplain
    · exact ⟨c, _, rfl, hc⟩
    · have hplace : (pointOf d).toNat = (pointOf d).toNat - 1 + 1 := by omega
      rw [hplace]
      exact ⟨c, _, rfl, hc⟩
    · exact ⟨'0', _, rfl, by decide⟩
    · exact ⟨c, _, rfl, hc⟩
    · exact ⟨c, _, rfl, hc⟩

theorem encode_decimal (d : Decimal) :
    Utf8.encode (Layout.state.decimal d) = (Layout.state.decimal d).toList.map byteOf := by
  rw [← encode_ofList (ascii_decimal d), String.ofList_toList]

/-! ## Reading the text of a number -/

theorem digits_decimalOf (hfits : b.Fits) :
    ((decimalOf b).digits = 0 → (decimalOf b).exponent = 0) ∧ (decimalOf b).digits < 2 ^ 57 ∧
      -400 ≤ (decimalOf b).exponent ∧ (decimalOf b).exponent ≤ 400 := by
  rw [decimalOf]
  by_cases hb : b.significand = 0
  · rw [if_pos hb]
    decide
  · rw [if_neg hb]
    have hyields := yields_shortest hb hfits
    exact ⟨fun hzero ↦ absurd hzero (hyields.digits_pos hb).ne', hyields.digits_lt,
      hyields.least_le, hyields.le_greatest⟩

theorem length_digitsOf_le (h : d.digits < 2 ^ 57) : (digitsOf d).length ≤ 18 := by
  have hlt : d.digits < 10 ^ 18 := h.trans (by decide)
  exact (Nat.length_toDigits_le_iff (by decide) (by decide)).mpr hlt

/-- The text of a number without its sign is read to what becomes of it. -/
theorem unsignedNumber_decimalOf (negative : Bool) (hfits : b.Fits) (hrest : EndsNumber rest) :
    unsignedNumber negative (Utf8.encode (Layout.state.decimal (decimalOf b)) ++ rest) =
      signedValue negative rest <$> rereadMagnitude b := by
  obtain ⟨hzero, hdigits, hleast, hgreatest⟩ := digits_decimalOf hfits
  have hlength : (digitsOf (decimalOf b)).length ≤ 18 := length_digitsOf_le hdigits
  have hexponent : (pointOf (decimalOf b) - 1).natAbs ≤ StateFile.greatestExponent := by
    rw [pointOf, StateFile.greatestExponent]
    omega
  rw [encode_decimal]
  exact unsignedNumber_decimal negative hzero (hdigits.le.trans (by decide)) hexponent hrest

theorem skipGap_cons {c : UInt8} {bs : List UInt8} (h : ¬ isGap c) : skipGap (c :: bs) = c :: bs :=
  List.dropWhile_cons_of_neg h

theorem not_isGap_of_startsNumber {c : UInt8} (h : startsNumber c) : ¬ isGap c := by
  intro hgap
  have hcases : c = 0x20 ∨ c = 0x09 ∨ c = 0x0A ∨ c = 0x0D := by
    simpa [isGap, or_assoc] using hgap
  rcases hcases with rfl | rfl | rfl | rfl <;> exact absurd h (by decide)

theorem readNumber_cons {c : UInt8} {bs : List UInt8} (h : startsNumber c) :
    readNumber (c :: bs) = number (c :: bs) := by
  rw [readNumber, skipGap_cons (not_isGap_of_startsNumber h)]
  exact if_pos h

/-- What is read of a measure that was written. -/
theorem readNumber_text (x : Float) (hrest : EndsNumber rest) :
    readNumber (Utf8.encode (Layout.state.text x) ++ rest) =
      (fun y ↦ (.real y, rest)) <$> reread x := by
  by_cases hfinite : ∃ b, view x = .finite b
  · obtain ⟨b, hview⟩ := hfinite
    have hnumber := fun negative ↦ unsignedNumber_decimalOf negative (fits_of_view hview) hrest
    have hsigned : signedValue b.negative rest <$> rereadMagnitude b =
        (fun y ↦ (.real y, rest)) <$> reread x := by
      rw [reread_of_finite hview, Functor.map_map]
      rfl
    rw [text_of_finite hview, ← hsigned]
    cases b.negative with
    | true =>
      have hminus : Utf8.encode ("-" ++ Layout.state.decimal (decimalOf b)) ++ rest =
          byteOf '-' :: (Utf8.encode (Layout.state.decimal (decimalOf b)) ++ rest) := by
        rw [Utf8.encode, String.toList_append, List.flatMap_append]
        rfl
      rw [if_pos rfl, hminus, readNumber_cons (by decide), number, if_pos rfl, hnumber]
    | false =>
      obtain ⟨c, cs, hcons, hc⟩ := decimal_eq_cons (decimalOf b)
      have hbytes : Utf8.encode (Layout.state.decimal (decimalOf b)) ++ rest =
          byteOf c :: (cs.map byteOf ++ rest) := by
        rw [encode_decimal, hcons, List.map_cons, List.cons_append]
      have hdigit : isDigitByte (byteOf c) := isDigitByte_byteOf hc
      have hminus : byteOf c ≠ byteOf '-' := fun h ↦ absurd (h ▸ hdigit) (by decide)
      have hstarts : startsNumber (byteOf c) := by rw [startsNumber, hdigit, Bool.or_true]
      rw [if_neg Bool.false_ne_true, hbytes, readNumber_cons hstarts, number, if_neg hminus,
        ← hbytes, hnumber]
  · rw [not_exists] at hfinite
    rw [text_of_not_finite hfinite, reread_of_not_finite hfinite]
    rfl

end CloudLedger.StateFile
