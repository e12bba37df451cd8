import CloudLedger.Amount.Layout
import CloudLedger.Proofs.StateFile.Numbers
import CloudLedger.Proofs.Utf8
import Mathlib.Tactic.Ring

/-!
# Decimals of a state file are read as they are spelled

A decimal is written in one of four ways, depending on where its point stands.  Each of them is read
as the digits of the decimal, scaled by its exponent; only a whole number that is written without an
exponent is read with the zero after its point as a further digit.
-/

namespace CloudLedger.StateFile
open Text Amount

variable {cs ds : List Char} {n : Nat} {d : Decimal} {rest : List UInt8}

/-! ## Numerals -/

theorem isDigit_of_mem_toDigits {c : Char} (hc : c ∈ Nat.toDigits 10 n) : isDigit c := by
  have h := Nat.isDigit_of_mem_toDigits (by decide) (by decide) hc
  rw [Char.isDigit, Bool.and_eq_true, decide_eq_true_iff, decide_eq_true_iff] at h
  rw [isDigit, Bool.and_eq_true, decide_eq_true_iff, decide_eq_true_iff]
  exact h

theorem valueAfter_toDigits (n : Nat) : valueAfter 0 (Nat.toDigits 10 n) = n :=
  Nat.ofDigitChars_ten_toDigits

theorem valueAfter_append (n : Nat) (cs ds : List Char) :
    valueAfter n (cs ++ ds) = valueAfter (valueAfter n cs) ds := List.foldl_append

theorem valueAfter_zeros (n k : Nat) : valueAfter n (List.replicate k '0') = 10 ^ k * n :=
  Nat.ofDigitChars_replicate_zero

theorem valueAfter_lt (hdigits : ∀ c ∈ ds, isDigit c) (n : Nat) :
    valueAfter n ds < 10 ^ ds.length * (n + 1) := by
  induction ds generalizing n with
  | nil => simp [valueAfter]
  | cons d rest ih =>
    have hd := isDigit_iff.mp (hdigits d List.mem_cons_self)
    have hvalue : digitValue d ≤ 9 := by
      rw [digitValue]
      have : '0'.toNat = 0x30 := rfl
      omega
    have hrest := ih (fun c hc ↦ hdigits c (List.mem_cons_of_mem d hc)) (10 * n + digitValue d)
    calc valueAfter n (d :: rest) < 10 ^ rest.length * (10 * n + digitValue d + 1) := hrest
      _ ≤ 10 ^ rest.length * (10 * (n + 1)) := Nat.mul_le_mul_left _ (by omega)
      _ = 10 ^ (d :: rest).length * (n + 1) := by rw [List.length_cons, Nat.pow_succ, Nat.mul_assoc]

/-- A numeral does not begin with a zero, unless it is the one of zero. -/
theorem leads_toDigits (n : Nat) : Leads (Nat.toDigits 10 n) := by
  refine ⟨fun c hc ↦ isDigit_of_mem_toDigits hc, Nat.toDigits_ne_nil, fun hzero ↦ ?_⟩
  cases hds : Nat.toDigits 10 n with
  | nil => exact absurd hds Nat.toDigits_ne_nil
  | cons first rest =>
    rw [hds, List.head?_cons, Option.some.injEq] at hzero
    by_contra hlong
    have hpos : 0 < rest.length := by
      rw [List.length_cons] at hlong
      omega
    have hvalue : valueAfter 0 rest = n := by
      have h := valueAfter_toDigits n
      rwa [hds, hzero] at h
    have hdigits : ∀ c ∈ rest, isDigit c := fun c hc ↦
      isDigit_of_mem_toDigits (hds ▸ List.mem_cons_of_mem first hc)
    have hlt : n < 10 ^ rest.length := by
      have h := valueAfter_lt hdigits 0
      rwa [hvalue, Nat.zero_add, Nat.mul_one] at h
    have hlength := (Nat.length_toDigits_le_iff (by decide) hpos).mpr hlt
    rw [hds, List.length_cons] at hlength
    omega

theorem Leads.take (h : Leads ds) {k : Nat} (hk : 0 < k) : Leads (ds.take k) := by
  obtain ⟨hdigits, hne, hzero⟩ := h
  refine ⟨fun c hc ↦ hdigits c (List.mem_of_mem_take hc), ?_, fun hhead ↦ ?_⟩
  · rw [Ne, List.take_eq_nil_iff]
    rintro (h | h)
    · omega
    · exact hne h
  · have hhead' : ds.head? = some '0' := by rw [← hhead, List.head?_take, if_neg (by omega)]
    have := hzero hhead'
    rw [List.length_take]
    omega

/-! ## Texts -/

theorem encode_ofList (hascii : ∀ c ∈ cs, c.toNat < 0x80) :
    Utf8.encode (String.ofList cs) = cs.map byteOf := by
  rw [Utf8.encode, String.toList_ofList]
  induction cs with
  | nil => rfl
  | cons c rest ih =>
    have hc : c.val.toNat ≤ 0x7F := Nat.le_of_lt_succ (hascii c List.mem_cons_self)
    rw [List.flatMap_cons, ih fun d hd ↦ hascii d (List.mem_cons_of_mem c hd), List.map_cons,
      String.utf8EncodeChar, if_pos hc]
    rfl

/-- The digits of a decimal. -/
def digitsOf (d : Decimal) : List Char := Nat.toDigits 10 d.digits

/-- The place of the point, counted from the first digit. -/
def pointOf (d : Decimal) : Int := (digitsOf d).length + d.exponent

/-- A decimal as its digits are spelled: a whole number that is written without an exponent has a
zero after the point. -/
def spelled (d : Decimal) : Decimal :=
  if (0 < pointOf d ∧ pointOf d ≤ 16) ∧ 0 ≤ d.exponent then
    ⟨d.digits * 10 ^ (d.exponent.toNat + 1), -1⟩
  else d

/-- The characters of a number with a point. -/
def pointed (whole fraction : List Char) : List Char := whole ++ '.' :: fraction

/-- The characters of an exponent. -/
def exponentChars (n : Int) : List Char :=
  'e' :: (if n < 0 then '-' else '+') :: Nat.toDigits 10 n.natAbs

theorem toList_decimal (d : Decimal) :
    (Layout.state.decimal d).toList =
      if 0 < pointOf d ∧ pointOf d ≤ 16 then
        if 0 ≤ d.exponent then
          pointed (digitsOf d ++ List.replicate d.exponent.toNat '0') ['0']
        else pointed ((digitsOf d).take (pointOf d).toNat) ((digitsOf d).drop (pointOf d).toNat)
      else if -5 < pointOf d ∧ pointOf d ≤ 0 then
        pointed ['0'] (List.replicate (-pointOf d).toNat '0' ++ digitsOf d)
      else if (digitsOf d).length = 1 then (digitsOf d).take 1 ++ exponentChars (pointOf d - 1)
      else
        pointed ((digitsOf d).take 1) ((digitsOf d).drop 1) ++ exponentChars (pointOf d - 1) := by
  have hnumeral : (natNumeral d.digits).toList = digitsOf d := String.toList_ofList
  have hmark : ∀ n : Int,
      (if n < 0 then "e" else "e+").toList ++ (intNumeral n).toList = exponentChars n := by
    intro n
    rw [exponentChars, intNumeral, natNumeral]
    split_ifs <;> simp
  have hpoint : ((digitsOf d).length : Int) + d.exponent = pointOf d := rfl
  rw [Layout.decimal]
  simp only [hnumeral, hpoint, Layout.state, zeros]
  by_cases hplain : 0 < pointOf d ∧ pointOf d ≤ 16
  · rw [if_pos hplain, if_pos hplain]
    split_ifs with hwhole <;> simp [pointed]
  · rw [if_neg hplain, if_neg hplain]
    by_cases hsmall : -5 < pointOf d ∧ pointOf d ≤ 0
    · rw [if_pos hsmall, if_pos hsmall]
      simp [pointed]
    · rw [if_neg hsmall, if_neg hsmall, ← hmark]
      by_cases hone : (digitsOf d).length = 1
      · rw [if_pos hone, if_pos hone]
        simp only [String.toList_append, String.toList_ofList, List.append_assoc]
        rfl
      · rw [if_neg hone, if_neg hone]
        simp [pointed]

/-! ## The four ways to write a decimal -/

/-- What is left of a number after its value, which is given the sign that stands before it. -/
def signedValue (negative : Bool) (rest : List UInt8) (x : Float) : Scanned Number :=
  (.real (if negative then -x else x), rest)

theorem signedReal_tail_of_ends (negative : Bool) {significand : Nat} {start : Int}
    (hrest : EndsNumber rest) :
    signedReal negative <$> tail significand start rest =
      signedValue negative rest <$> assemble significand start := by
  rw [tail_of_ends hrest]
  cases assemble significand start <;> rfl

theorem noDigit_of_ends (hrest : EndsNumber rest) : NoDigit rest := fun b hb ↦ (hrest b hb).1

theorem tail_exponentChars (negative : Bool) {significand : Nat} {start n : Int}
    (hn : n.natAbs ≤ greatestExponent) (hrest : EndsNumber rest) :
    signedReal negative <$> tail significand start ((exponentChars n).map byteOf ++ rest) =
      signedValue negative rest <$> assemble significand (start + n) := by
  have hdigits : ∀ c ∈ Nat.toDigits 10 n.natAbs, isDigit c := fun c ↦ isDigit_of_mem_toDigits
  have hvalue := valueAfter_toDigits n.natAbs
  have hsign : (if decide (n < 0) then start - valueAfter 0 (Nat.toDigits 10 n.natAbs)
      else start + valueAfter 0 (Nat.toDigits 10 n.natAbs)) = start + n := by
    rw [hvalue]
    split_ifs with h
    · have := of_decide_eq_true h
      omega
    · have : ¬ n < 0 := fun hlt ↦ h (decide_eq_true hlt)
      omega
  have hfits : valueAfter 0 (Nat.toDigits 10 n.natAbs) ≤ greatestExponent := by rwa [hvalue]
  have htail := tail_exponent significand start (decide (n < 0)) hdigits Nat.toDigits_ne_nil hfits
    (noDigit_of_ends hrest)
  have hchars : (exponentChars n).map byteOf ++ rest =
      byteOf 'e' :: byteOf (if decide (n < 0) then '-' else '+') ::
        ((Nat.toDigits 10 n.natAbs).map byteOf ++ rest) := by
    simp [exponentChars]
  rw [hchars, htail, hsign]
  cases assemble significand (start + n) <;> rfl

theorem noDigit_exponentChars (n : Int) (rest : List UInt8) :
    NoDigit ((exponentChars n).map byteOf ++ rest) := by
  intro b hb
  obtain rfl : byteOf 'e' = b := by simpa [exponentChars] using hb
  decide

theorem unsignedNumber_pointed (negative : Bool) {whole fraction : List Char} (hleads : Leads whole)
    (hfraction : ∀ c ∈ fraction, isDigit c) (hne : fraction ≠ []) {more : List UInt8}
    (hmore : NoDigit more)
    (hfits : valueAfter 0 (whole ++ fraction) ≤ greatestSignificand) :
    unsignedNumber negative ((pointed whole fraction).map byteOf ++ more) =
      signedReal negative <$>
        tail (valueAfter 0 (whole ++ fraction)) (-fraction.length) more := by
  have hchars : (pointed whole fraction).map byteOf ++ more =
      whole.map byteOf ++ byteOf '.' :: (fraction.map byteOf ++ more) := by
    simp [pointed]
  rw [hchars, unsignedNumber_point negative hleads hfraction hne hmore hfits]

theorem Leads.append_zeros (hleads : Leads ds) (k : Nat) (hzero : ds = ['0'] → k = 0) :
    Leads (ds ++ List.replicate k '0') := by
  refine ⟨fun c hc ↦ ?_, by simp [hleads.2.1], fun hhead ↦ ?_⟩
  · rcases List.mem_append.mp hc with hc | hc
    · exact hleads.1 c hc
    · rw [List.eq_of_mem_replicate hc]
      decide
  · rw [List.head?_append_of_ne_nil _ hleads.2.1] at hhead
    have hone : ds.length ≤ 1 := hleads.2.2 hhead
    have hds : ds = ['0'] := by
      cases ds with
      | nil => exact absurd rfl hleads.2.1
      | cons first more =>
        have hmore : more = [] := List.length_eq_zero_iff.mp (by simpa using hone)
        rw [hmore, Option.some.inj hhead]
    rw [hzero hds, hds]
    decide

theorem leads_digitsOf (d : Decimal) : Leads (digitsOf d) := leads_toDigits d.digits

theorem valueAfter_digitsOf (d : Decimal) : valueAfter 0 (digitsOf d) = d.digits :=
  valueAfter_toDigits d.digits

theorem digits_lt (d : Decimal) : d.digits < 10 ^ (digitsOf d).length :=
  (Nat.length_toDigits_le_iff (by decide) (List.length_pos_iff.mpr (leads_digitsOf d).2.1)).mp
    (Nat.le_refl _)

/-- A whole number is written with its zeros and one more after the point. -/
theorem unsignedNumber_whole (negative : Bool) (hzero : d.digits = 0 → d.exponent = 0)
    (hpoint : pointOf d ≤ 16) (hwhole : 0 ≤ d.exponent) (hrest : EndsNumber rest) :
    unsignedNumber negative
        ((pointed (digitsOf d ++ List.replicate d.exponent.toNat '0') ['0']).map byteOf ++ rest) =
      signedValue negative rest <$> assemble (d.digits * 10 ^ (d.exponent.toNat + 1)) (-1) := by
  have hleads : Leads (digitsOf d ++ List.replicate d.exponent.toNat '0') := by
    apply (leads_digitsOf d).append_zeros
    intro hdigits
    have hnone : d.digits = 0 := by rw [← valueAfter_digitsOf, hdigits]; rfl
    rw [hzero hnone]
    rfl
  have hvalue : valueAfter 0 (digitsOf d ++ List.replicate d.exponent.toNat '0' ++ ['0']) =
      d.digits * 10 ^ (d.exponent.toNat + 1) := by
    rw [valueAfter_append, valueAfter_append, valueAfter_digitsOf, valueAfter_zeros]
    change 10 * (10 ^ d.exponent.toNat * d.digits) + 0 = _
    ring
  have hlength : (digitsOf d).length + (d.exponent.toNat + 1) ≤ 17 := by
    have : pointOf d = (digitsOf d).length + d.exponent := rfl
    omega
  have hfits : d.digits * 10 ^ (d.exponent.toNat + 1) ≤ greatestSignificand :=
    calc d.digits * 10 ^ (d.exponent.toNat + 1)
        ≤ 10 ^ (digitsOf d).length * 10 ^ (d.exponent.toNat + 1) :=
          Nat.mul_le_mul_right _ (digits_lt d).le
      _ = 10 ^ ((digitsOf d).length + (d.exponent.toNat + 1)) := (Nat.pow_add ..).symm
      _ ≤ 10 ^ 17 := Nat.pow_le_pow_right (by decide) hlength
      _ ≤ greatestSignificand := by decide
  have hzero : ∀ c ∈ ['0'], isDigit c := List.forall_mem_singleton.mpr (by decide)
  rw [unsignedNumber_pointed negative hleads hzero (List.cons_ne_nil _ _) (noDigit_of_ends hrest)
    (hvalue ▸ hfits), signedReal_tail_of_ends negative hrest, hvalue]
  rfl

/-- The point may stand among the digits. -/
theorem unsignedNumber_inner (negative : Bool) (hfits : d.digits ≤ greatestSignificand)
    (hpoint : 0 < pointOf d) (hbroken : d.exponent < 0) (hrest : EndsNumber rest) :
    unsignedNumber negative
        ((pointed ((digitsOf d).take (pointOf d).toNat)
          ((digitsOf d).drop (pointOf d).toNat)).map byteOf ++ rest) =
      signedValue negative rest <$> assemble d.digits d.exponent := by
  have hleads := leads_digitsOf d
  have hplace : pointOf d = (digitsOf d).length + d.exponent := rfl
  have hjoin : (digitsOf d).take (pointOf d).toNat ++ (digitsOf d).drop (pointOf d).toNat =
      digitsOf d := List.take_append_drop _ _
  have hfraction : (digitsOf d).drop (pointOf d).toNat ≠ [] := by
    rw [Ne, List.drop_eq_nil_iff]
    omega
  have hlength : -(((digitsOf d).drop (pointOf d).toNat).length : Int) = d.exponent := by
    rw [List.length_drop]
    omega
  rw [unsignedNumber_pointed negative (hleads.take (by omega))
    (fun c hc ↦ hleads.1 c (List.mem_of_mem_drop hc)) hfraction (noDigit_of_ends hrest)
    (by rwa [hjoin, valueAfter_digitsOf]), signedReal_tail_of_ends negative hrest, hjoin,
    valueAfter_digitsOf, hlength]

/-- A small number is written with zeros before its digits. -/
theorem unsignedNumber_small (negative : Bool) (hfits : d.digits ≤ greatestSignificand)
    (hpoint : pointOf d ≤ 0) (hrest : EndsNumber rest) :
    unsignedNumber negative
        ((pointed ['0'] (List.replicate (-pointOf d).toNat '0' ++ digitsOf d)).map byteOf ++
          rest) =
      signedValue negative rest <$> assemble d.digits d.exponent := by
  have hleads := leads_digitsOf d
  have hplace : pointOf d = (digitsOf d).length + d.exponent := rfl
  have hvalue : valueAfter 0 (['0'] ++ (List.replicate (-pointOf d).toNat '0' ++ digitsOf d)) =
      d.digits := by
    rw [valueAfter_append, valueAfter_append, valueAfter_zeros]
    exact valueAfter_digitsOf d
  have hfraction : ∀ c ∈ List.replicate (-pointOf d).toNat '0' ++ digitsOf d, isDigit c := by
    intro c hc
    rcases List.mem_append.mp hc with hc | hc
    · rw [List.eq_of_mem_replicate hc]
      decide
    · exact hleads.1 c hc
  have hlength : -((List.replicate (-pointOf d).toNat '0' ++ digitsOf d).length : Int) =
      d.exponent := by
    rw [List.length_append, List.length_replicate]
    omega
  have hleading : Leads ['0'] := 
    ⟨List.forall_mem_singleton.mpr (by decide), List.cons_ne_nil _ _, fun _ ↦ le_rfl⟩
  rw [unsignedNumber_pointed negative hleading hfraction
    (by simp [hleads.2.1]) (noDigit_of_ends hrest) (by rwa [hvalue]),
    signedReal_tail_of_ends negative hrest, hvalue, hlength]

/-- A single digit stands before its exponent without a point. -/
theorem unsignedNumber_single (negative : Bool) (hfits : d.digits ≤ greatestSignificand)
    (hone : (digitsOf d).length = 1) (hexponent : (pointOf d - 1).natAbs ≤ greatestExponent)
    (hrest : EndsNumber rest) :
    unsignedNumber negative
        (((digitsOf d).take 1 ++ exponentChars (pointOf d - 1)).map byteOf ++ rest) =
      signedValue negative rest <$> assemble d.digits d.exponent := by
  have htake : (digitsOf d).take 1 = digitsOf d := List.take_of_length_le hone.le
  have hchars : ((digitsOf d).take 1 ++ exponentChars (pointOf d - 1)).map byteOf ++ rest =
      (digitsOf d).map byteOf ++ byteOf 'e' ::
        ((exponentChars (pointOf d - 1)).tail.map byteOf ++ rest) := by
    rw [htake]
    simp [exponentChars]
  have htail : byteOf 'e' :: ((exponentChars (pointOf d - 1)).tail.map byteOf ++ rest) =
      (exponentChars (pointOf d - 1)).map byteOf ++ rest := by
    simp [exponentChars]
  have hstart : 0 + (pointOf d - 1) = d.exponent := by
    rw [pointOf, hone]
    omega
  rw [hchars, unsignedNumber_exponent negative (leads_digitsOf d)
    (by rwa [valueAfter_digitsOf]), htail, tail_exponentChars negative hexponent hrest,
    valueAfter_digitsOf, hstart]

/-- Of several digits, one stands before the point and the others between it and the exponent. -/
theorem unsignedNumber_scientific (negative : Bool) (hfits : d.digits ≤ greatestSignificand)
    (hmany : (digitsOf d).length ≠ 1) (hexponent : (pointOf d - 1).natAbs ≤ greatestExponent)
    (hrest : EndsNumber rest) :
    unsignedNumber negative
        ((pointed ((digitsOf d).take 1) ((digitsOf d).drop 1) ++
          exponentChars (pointOf d - 1)).map byteOf ++ rest) =
      signedValue negative rest <$> assemble d.digits d.exponent := by
  have hleads := leads_digitsOf d
  have hpos : 0 < (digitsOf d).length := List.length_pos_iff.mpr hleads.2.1
  have hjoin : (digitsOf d).take 1 ++ (digitsOf d).drop 1 = digitsOf d :=
    List.take_append_drop _ _
  have hfraction : (digitsOf d).drop 1 ≠ [] := by
    rw [Ne, List.drop_eq_nil_iff]
    omega
  have hstart : -(((digitsOf d).drop 1).length : Int) + (pointOf d - 1) = d.exponent := by
    rw [List.length_drop, pointOf]
    omega
  rw [List.map_append, List.append_assoc,
    unsignedNumber_pointed negative (hleads.take (by decide))
      (fun c hc ↦ hleads.1 c (List.mem_of_mem_drop hc)) hfraction (noDigit_exponentChars _ rest)
      (by rwa [hjoin, valueAfter_digitsOf]), tail_exponentChars negative hexponent hrest, hjoin,
    valueAfter_digitsOf, hstart]

/-- A decimal that is written is read as it is spelled, its digits scaled by its exponent. -/
theorem unsignedNumber_decimal (negative : Bool) (hzero : d.digits = 0 → d.exponent = 0)
    (hfits : d.digits ≤ greatestSignificand)
    (hexponent : (pointOf d - 1).natAbs ≤ greatestExponent) (hrest : EndsNumber rest) :
    unsignedNumber negative ((Layout.state.decimal d).toList.map byteOf ++ rest) =
      signedValue negative rest <$> assemble (spelled d).digits (spelled d).exponent := by
  rw [toList_decimal]
  by_cases hplain : 0 < pointOf d ∧ pointOf d ≤ 16
  · rw [if_pos hplain]
    by_cases hwhole : 0 ≤ d.exponent
    · have hspelled : spelled d = ⟨d.digits * 10 ^ (d.exponent.toNat + 1), -1⟩ :=
        if_pos ⟨hplain, hwhole⟩
      rw [if_pos hwhole, hspelled]
      exact unsignedNumber_whole negative hzero hplain.2 hwhole hrest
    · have hspelled : spelled d = d := if_neg fun h ↦ hwhole h.2
      rw [if_neg hwhole, hspelled]
      exact unsignedNumber_inner negative hfits hplain.1 (not_le.mp hwhole) hrest
  · have hspelled : spelled d = d := if_neg fun h ↦ hplain h.1
    rw [if_neg hplain, hspelled]
    by_cases hsmall : -5 < pointOf d ∧ pointOf d ≤ 0
    · rw [if_pos hsmall]
      exact unsignedNumber_small negative hfits hsmall.2 hrest
    · rw [if_neg hsmall]
      by_cases hone : (digitsOf d).length = 1
      · rw [if_pos hone]
        exact unsignedNumber_single negative hfits hone hexponent hrest
      · rw [if_neg hone]
        exact unsignedNumber_scientific negative hfits hone hexponent hrest

end CloudLedger.StateFile
