import CloudLedger.Proofs.StateFile.Measures
import CloudLedger.Proofs.StateFile.Strings

/-!
# The contents of fields are read as they are written

Each field of a report is written after a blank and read as what its name calls for.  Texts,
providers and whole numbers come back as they were, and a measure comes back as what becomes of it.
-/

namespace CloudLedger.StateFile

open Text Amount

variable {rest : List UInt8}

/-! ## Contents of fields -/

theorem skipGap_blank (bs : List UInt8) : skipGap (byteOf ' ' :: bs) = skipGap bs :=
  List.dropWhile_cons_of_pos (by decide)

theorem renderString_append (s : String) (rest : List UInt8) :
    renderString s ++ rest = quote :: (s.toList.flatMap escaped ++ quote :: rest) := by
  simp [renderString]

theorem skipGap_quote (bs : List UInt8) : skipGap (quote :: bs) = quote :: bs :=
  skipGap_cons (by decide)

theorem readText_renderString (s : String) (rest : List UInt8) :
    readText (byteOf ' ' :: (renderString s ++ rest)) = .ok (s, rest) := by
  rw [readText, skipGap_blank, renderString_append, skipGap_quote]
  exact string_renderString s rest

theorem providerOf_tag (p : Provider) : providerOf p.tag = .ok p := by
  cases p <;> rfl

theorem readProvider_tag (p : Provider) (rest : List UInt8) :
    readProvider (byteOf ' ' :: (renderString p.tag ++ rest)) = .ok (p, rest) := by
  rw [readProvider, skipGap_blank, renderString_append, skipGap_quote]
  dsimp only
  rw [if_pos rfl, string_renderString]
  change (do return (← providerOf p.tag, rest)) = _
  rw [providerOf_tag]
  rfl

/-- The digits of a whole number that fits are read to that number. -/
theorem unsignedNumber_toDigits (negative : Bool) {n : Nat} (hfits : n ≤ greatestSignificand)
    (hrest : EndsNumber rest) :
    unsignedNumber negative ((Nat.toDigits 10 n).map byteOf ++ rest) =
      .ok (signed negative n, rest) := by
  have hleads : Leads (Nat.toDigits 10 n) := leads_toDigits n
  have hnodigit : NoDigit rest := noDigit_of_ends hrest
  have hne : (Nat.toDigits 10 n).map byteOf ≠ [] := by
    simp [hleads.2.1]
  have hgather : gather 0 ((Nat.toDigits 10 n).map byteOf) = (n, []) := by
    rw [gather_map hleads.1 (by rwa [valueAfter_toDigits]), valueAfter_toDigits]
  rw [unsignedNumber]
  simp only [takeWhile_digits hleads.1 hnodigit, dropWhile_digits hleads.1 hnodigit, hgather,
    if_neg hne, if_neg (not_leadingZero hleads)]
  cases rest with
  | nil => rfl
  | cons b bs =>
    obtain ⟨-, hletter, hpoint⟩ := hrest b rfl
    simp only [if_neg hpoint, ne_eq, not_true_eq_false, hletter, false_or]
    rfl

theorem encode_natNumeral (n : Nat) :
    Utf8.encode (natNumeral n) = (Nat.toDigits 10 n).map byteOf :=
  encode_ofList (ascii_toDigits n)

/-- Whole numbers that fit are read back. -/
theorem readNumber_intNumeral {n : Int} (hlow : -(greatestNegated : Int) ≤ n)
    (hhigh : n ≤ greatestSignificand) (hrest : EndsNumber rest) :
    readNumber (Utf8.encode (intNumeral n) ++ rest) = .ok (.whole n, rest) := by
  rw [greatestNegated] at hlow
  rw [greatestSignificand] at hhigh
  have hfits : n.natAbs ≤ greatestSignificand := by
    rw [greatestSignificand]
    omega
  have hnumber := fun negative ↦ unsignedNumber_toDigits negative hfits hrest
  rw [intNumeral]
  by_cases hnegative : n < 0
  · have hminus : Utf8.encode ("-" ++ natNumeral n.natAbs) ++ rest =
        byteOf '-' :: ((Nat.toDigits 10 n.natAbs).map byteOf ++ rest) := by
      rw [← encode_natNumeral, Utf8.encode, String.toList_append, List.flatMap_append]
      rfl
    have hsigned : signed true n.natAbs = .whole n := by
      have hrange : 0 < n.natAbs ∧ n.natAbs ≤ greatestNegated := by
        rw [greatestNegated]
        omega
      have hnatAbs : -(n.natAbs : Int) = n := by omega
      rw [signed, if_pos rfl, if_pos hrange, hnatAbs]
    rw [if_pos hnegative, hminus, readNumber_cons (by decide), number, if_pos rfl, hnumber,
      hsigned]
  · have hsigned : signed false n.natAbs = .whole n := by
      have hnatAbs : (n.natAbs : Int) = n := by omega
      rw [signed, if_neg Bool.false_ne_true, hnatAbs]
    rw [if_neg hnegative, encode_natNumeral]
    cases hds : Nat.toDigits 10 n.natAbs with
    | nil => exact absurd hds Nat.toDigits_ne_nil
    | cons c cs =>
      have hdigit : isDigitByte (byteOf c) :=
        isDigitByte_byteOf (isDigit_of_mem_toDigits (hds ▸ List.mem_cons_self))
      have hminus : byteOf c ≠ byteOf '-' := fun h ↦ absurd (h ▸ hdigit) (by decide)
      have hstarts : startsNumber (byteOf c) := by rw [startsNumber, hdigit, Bool.or_true]
      have h := hnumber false
      rw [hds, List.map_cons, List.cons_append] at h
      rw [List.map_cons, List.cons_append, readNumber_cons hstarts, number, if_neg hminus, h,
        hsigned]

theorem readNumber_blank (bs : List UInt8) : readNumber (byteOf ' ' :: bs) = readNumber bs := by
  rw [readNumber, skipGap_blank, readNumber]

theorem readBounded_intNumeral {bounds : Int × Int} {n : Int} (hlow : bounds.1 ≤ n)
    (hhigh : n ≤ bounds.2) (hleast : -(greatestNegated : Int) ≤ bounds.1)
    (hgreatest : bounds.2 ≤ greatestSignificand) (hrest : EndsNumber rest) :
    readBounded bounds (byteOf ' ' :: (Utf8.encode (intNumeral n) ++ rest)) =
      .ok (.whole n, rest) := by
  have hwhole : readWhole bounds.1 bounds.2 (byteOf ' ' :: (Utf8.encode (intNumeral n) ++ rest)) =
      .ok (n, rest) := by
    rw [readWhole, readNumber_blank,
      readNumber_intNumeral (hleast.trans hlow) (hhigh.trans hgreatest) hrest]
    exact if_pos ⟨hlow, hhigh⟩
  rw [readBounded, hwhole]
  rfl

/-- What becomes of the content of a field that is written and read again. -/
def rereadContent : Content → Except DocumentFault Content
  | .amount x => .amount <$> reread x
  | c => .ok c

/-- What is read of a field's content that was written. -/
theorem readContent_renderContent (r : Report Float) (f : Field) (hrest : EndsNumber rest) :
    readContent f (byteOf ' ' :: (renderContent (r.content f) ++ rest)) =
      (·, rest) <$> rereadContent (r.content f) := by
  have htext : ∀ s, (readText (byteOf ' ' :: (renderString s ++ rest)) >>=
      fun scanned ↦ .ok (Content.text scanned.1, scanned.2)) = .ok (.text s, rest) := by
    intro s
    rw [readText_renderString]
    rfl
  have hamount : ∀ x,
      (readNumber (byteOf ' ' :: (Utf8.encode (Amount.Layout.state.text x) ++ rest)) >>=
        fun scanned ↦ .ok (Content.amount scanned.1.toFloat, scanned.2)) =
          (·, rest) <$> (Content.amount <$> reread x) := by
    intro x
    rw [readNumber_blank, readNumber_text x hrest]
    cases reread x <;> rfl
  have hday : ∀ n : UInt32, readBounded dayBounds
      (byteOf ' ' :: (Utf8.encode (intNumeral n.toNat) ++ rest)) = .ok (.whole n.toNat, rest) := by
    intro n
    have hlt : n.toNat < 2 ^ 32 := n.toNat_lt
    exact readBounded_intNumeral (by simp [dayBounds]) (by simp [dayBounds]; omega) (by decide)
      (by decide) hrest
  cases f with
  | id | accountNumber | accountName | service | region | unit => exact htext _
  | day | month => exact hday _
  | year =>
    have hleast : -2147483648 ≤ r.period.year.toInt := r.period.year.le_toInt
    have hgreatest : r.period.year.toInt < 2147483648 := r.period.year.toInt_lt
    exact readBounded_intNumeral (by simpa [yearBounds]) (by simp [yearBounds]; omega) (by decide)
      (by decide) hrest
  | provider =>
    change (readProvider (byteOf ' ' :: (renderString r.line.provider.tag ++ rest)) >>=
      fun scanned ↦ .ok (Content.provider scanned.1, scanned.2)) = _
    rw [readProvider_tag]
    rfl
  | usage | cost => exact hamount _

end CloudLedger.StateFile
