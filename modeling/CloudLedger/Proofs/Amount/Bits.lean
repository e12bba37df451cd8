import CloudLedger.Proofs.Amount.Shortest
import Mathlib

/-!
# The bits of floating-point numbers

The operations on floating-point numbers take the bits apart, work on the number that they find and
put the bits of the result together.  What they find is what `view` shows, and what they put
together `view` shows again.
-/

namespace CloudLedger.Amount

open Float.Model Float.Model.UnpackedFloat

variable {x : Float} {b : Binary} {negative : Bool}

/-- The sign of a number that carries a minus sign or not. -/
def signOf (negative : Bool) : Sign := if negative then .negative else .positive

/-- A finite number as the operations find it. -/
def Binary.unpacked (b : Binary) : UnpackedFloat :=
  if h : b.significand = 0 then .zero (signOf b.negative)
  else .finite (signOf b.negative) b.significand b.exponent (Nat.pos_of_ne_zero h)

/-! ## Taking bits apart -/

theorem toNat_unpackMantissa (bits : BitVec Format.binary64.numBits) :
    (unpackMantissa bits).toNat = bits.toNat % fractions := by
  simp [unpackMantissa, fractions]

theorem toNat_unpackExponent (bits : BitVec Format.binary64.numBits) :
    (unpackExponent bits).toNat = bits.toNat / fractions % exponentFields := by
  simp [unpackExponent, fractions, exponentFields, Nat.shiftRight_eq_div_pow]

theorem toNat_unpackSign (bits : BitVec Format.binary64.numBits) :
    (unpackSign bits).toNat = bits.toNat / fractions / exponentFields := by
  have hbits : bits.toNat < 2 ^ 64 := bits.isLt
  simp [unpackSign, fractions, exponentFields, Nat.shiftRight_eq_div_pow]
  omega

theorem ofBitVec_unpackSign (bits : BitVec Format.binary64.numBits) :
    Sign.ofBitVec (unpackSign bits) =
      signOf (decide (bits.toNat / fractions / exponentFields = 1)) := by
  have hsign : unpackSign bits = 0#1 ↔ ¬ bits.toNat / fractions / exponentFields = 1 := by
    rw [← BitVec.toNat_inj, toNat_unpackSign]
    have hlt : (unpackSign bits).toNat < 2 ^ 1 := (unpackSign bits).isLt
    rw [toNat_unpackSign] at hlt
    generalize bits.toNat / fractions / exponentFields = n at hlt ⊢
    simp only [BitVec.toNat_ofNat, Nat.zero_mod]
    omega
  rw [Sign.ofBitVec, signOf]
  by_cases hone : bits.toNat / fractions / exponentFields = 1
  · rw [if_neg (fun h ↦ hsign.mp h hone), if_pos (decide_eq_true hone)]
  · rw [if_pos (hsign.mpr hone), if_neg (by simpa using hone)]

theorem unpackExponent_eq_neg_one (bits : BitVec Format.binary64.numBits) :
    unpackExponent bits = -1#_ ↔ bits.toNat / fractions % exponentFields = exponentFields - 1 := by
  rw [← toNat_unpackExponent, ← BitVec.toNat_inj]
  exact Iff.rfl

theorem unpackExponent_eq_zero (bits : BitVec Format.binary64.numBits) :
    unpackExponent bits = 0#_ ↔ bits.toNat / fractions % exponentFields = 0 := by
  rw [← toNat_unpackExponent, ← BitVec.toNat_inj]
  exact Iff.rfl

theorem unpackMantissa_eq_zero (bits : BitVec Format.binary64.numBits) :
    unpackMantissa bits = 0#_ ↔ bits.toNat % fractions = 0 := by
  rw [← toNat_unpackMantissa, ← BitVec.toNat_inj]
  exact Iff.rfl

/-- The operations find what `view` shows. -/
theorem unpack_of_view (h : view x = .finite b) : x.toModel.unpack = b.unpacked := by
  let bits : BitVec Format.binary64.numBits := x.toModel.toBits.toBitVec
  have hbits : x.toBits.toNat = bits.toNat := rfl
  rw [view] at h
  simp only [hbits, ← unpackExponent_eq_neg_one, ← unpackExponent_eq_zero] at h
  change UnpackedFloat.unpack Format.binary64 bits = _
  rw [UnpackedFloat.unpack]
  simp only [ofBitVec_unpackSign]
  by_cases hlast : unpackExponent bits = -1#_
  · rw [if_pos hlast] at h
    split at h <;> cases h
  · rw [if_neg hlast] at h ⊢
    by_cases hfirst : unpackExponent bits = 0#_
    · rw [if_pos hfirst] at h ⊢
      cases h
      rw [Binary.unpacked]
      by_cases hzero : bits.toNat % fractions = 0
      · rw [dif_pos ((unpackMantissa_eq_zero bits).mpr hzero), dif_pos hzero]
      · rw [dif_neg (fun heq ↦ hzero ((unpackMantissa_eq_zero bits).mp heq)), dif_neg hzero]
        simp only [toNat_unpackMantissa, hfirst]
        rfl
    · rw [if_neg hfirst] at h ⊢
      cases h
      have hne : fractions + bits.toNat % fractions ≠ 0 := by
        rw [fractions]
        omega
      have hmantissa : (1#1 ++ unpackMantissa bits).toNat = fractions + bits.toNat % fractions := by
        rw [BitVec.toNat_append, ← Nat.shiftLeft_add_eq_or_of_lt (unpackMantissa bits).isLt,
          toNat_unpackMantissa]
        rfl
      have hexponent : ((unpackExponent bits).toNat : Int) -
          (Format.binary64.exponentBias + Format.binary64.mantissaBitsWithoutImplicit) =
          leastExponent + ((bits.toNat / fractions % exponentFields : Nat) - 1) := by
        have hbias : (Format.binary64.exponentBias : Int) +
            Format.binary64.mantissaBitsWithoutImplicit = 1075 := by decide
        rw [toNat_unpackExponent, hbias, leastExponent]
        omega
      rw [Binary.unpacked, dif_neg hne]
      simp only [hmantissa, hexponent]

/-- A number is finite if `view` shows a sign, a significand and a power of two. -/
theorem isFinite_iff : x.isFinite ↔ ∃ b, view x = .finite b := by
  let bits : BitVec Format.binary64.numBits := x.toModel.toBits.toBitVec
  have hbits : x.toBits.toNat = bits.toNat := rfl
  constructor
  · intro h
    change (UnpackedFloat.unpack Format.binary64 bits).isFinite = true at h
    have hlast : ¬ bits.toNat / fractions % exponentFields = exponentFields - 1 := by
      rw [← unpackExponent_eq_neg_one]
      intro hlast
      rw [UnpackedFloat.unpack] at h
      simp only [if_pos hlast] at h
      split at h <;> cases h
    rw [view]
    simp only [hbits, if_neg hlast]
    split <;> exact ⟨_, rfl⟩
  · rintro ⟨b, hb⟩
    change x.toModel.unpack.isFinite = true
    rw [unpack_of_view hb, Binary.unpacked]
    split <;> rfl

/-! ## Putting bits together -/

theorem toNat_packComponents (sign : Sign) (exponent : BitVec 11) (mantissa : BitVec 52) :
    (packComponents Format.binary64 sign exponent mantissa).toNat =
      (sign.toBitVec.toNat * exponentFields + exponent.toNat) * fractions + mantissa.toNat := by
  rw [packComponents, BitVec.toNat_append, ← Nat.shiftLeft_add_eq_or_of_lt mantissa.isLt,
    BitVec.toNat_append, ← Nat.shiftLeft_add_eq_or_of_lt exponent.isLt, Nat.shiftLeft_eq,
    Nat.shiftLeft_eq]
  rfl

theorem quotient_of_lt (m : Nat) {n k : Nat} (h : k < n) : (m * n + k) / n = m := by
  rw [Nat.add_comm, Nat.add_mul_div_right _ _ (Nat.zero_lt_of_lt h), Nat.div_eq_of_lt h,
    Nat.zero_add]

theorem view_of_packComponents {u : UnpackedFloat} {exponent : BitVec 11} {mantissa : BitVec 52}
    (h : UnpackedFloat.pack Format.binary64 u =
      packComponents Format.binary64 (signOf negative) exponent mantissa) :
    view (.ofModel (.pack u)) =
      if exponent.toNat = exponentFields - 1 then
        if mantissa.toNat = 0 then .infinite negative else .undefined
      else if exponent.toNat = 0 then .finite ⟨negative, mantissa.toNat, leastExponent⟩
      else
        .finite ⟨negative, fractions + mantissa.toNat, leastExponent + (exponent.toNat - 1)⟩ := by
  have hbits : (Float.ofModel (.pack u)).toBits.toNat =
      ((signOf negative).toBitVec.toNat * exponentFields + exponent.toNat) * fractions +
        mantissa.toNat := by
    rw [← toNat_packComponents, ← h]
    rfl
  have hmantissa : mantissa.toNat < fractions := mantissa.isLt
  have hexponent : exponent.toNat < exponentFields := exponent.isLt
  have hfraction : (Float.ofModel (.pack u)).toBits.toNat % fractions = mantissa.toNat := by
    rw [hbits, Nat.mul_add_mod_of_lt hmantissa]
  have hhigh : (Float.ofModel (.pack u)).toBits.toNat / fractions =
      (signOf negative).toBitVec.toNat * exponentFields + exponent.toNat := by
    rw [hbits, quotient_of_lt _ hmantissa]
  have hfield : ((signOf negative).toBitVec.toNat * exponentFields + exponent.toNat) %
      exponentFields = exponent.toNat := Nat.mul_add_mod_of_lt hexponent
  have hsign : ((signOf negative).toBitVec.toNat * exponentFields + exponent.toNat) /
      exponentFields = (signOf negative).toBitVec.toNat := quotient_of_lt _ hexponent
  have hnegative : decide ((signOf negative).toBitVec.toNat = 1) = negative := by
    cases negative <;> rfl
  rw [view]
  simp only [hfraction, hhigh, hfield, hsign, hnegative]

theorem pack_normal {sign : Sign} {m : Nat} {e : Int} (hm : 0 < m) (hfractions : fractions ≤ m)
    (hlt : m < 2 * fractions) (hhigh : e ≤ greatestExponent) :
    UnpackedFloat.pack Format.binary64 (.finite sign m e hm) =
      packComponents Format.binary64 sign (BitVec.ofNat 11 (e + 1075).toNat)
        (BitVec.ofNat 52 m) := by
  have hlog : m.log2 + 1 = Format.binary64.mantissaBits := by
    have hle : 52 ≤ m.log2 := (Nat.le_log2 hm.ne').mpr hfractions
    have hless : m.log2 < 53 := (Nat.log2_lt hm.ne').mpr hlt
    change m.log2 + 1 = 53
    omega
  have hbiased : e + Format.binary64.exponentBias + Format.binary64.mantissaBitsWithoutImplicit =
      e + 1075 := by
    rw [add_assoc]
    rfl
  have hsmall : ¬ 2 ^ Format.binary64.exponentBits ≤ (e + 1075).toNat + 1 := by
    rw [greatestExponent] at hhigh
    change ¬ 2048 ≤ (e + 1075).toNat + 1
    omega
  rw [UnpackedFloat.pack]
  simp only [hbiased]
  rw [if_neg hsmall, if_pos hlog]

theorem pack_subnormal {sign : Sign} {m : Nat} (hm : 0 < m) (hlt : m < fractions) :
    UnpackedFloat.pack Format.binary64 (.finite sign m leastExponent hm) =
      packComponents Format.binary64 sign 0 (BitVec.ofNat 52 m) := by
  have hlog : ¬ m.log2 + 1 = Format.binary64.mantissaBits := by
    have hless : m.log2 < 52 := (Nat.log2_lt hm.ne').mpr hlt
    change ¬ m.log2 + 1 = 53
    omega
  have hsmall : ¬ 2 ^ Format.binary64.exponentBits ≤
      (leastExponent + Format.binary64.exponentBias +
        Format.binary64.mantissaBitsWithoutImplicit).toNat + 1 := by
    decide
  rw [UnpackedFloat.pack]
  simp only [if_neg hsmall, if_neg hlog]
  rfl

theorem view_pack_of_normal (hfits : b.Fits) (hnormal : fractions ≤ b.significand) :
    view (.ofModel (.pack b.unpacked)) = .finite b := by
  have hlow : leastExponent ≤ b.exponent := hfits.least_le
  have hhigh : b.exponent ≤ greatestExponent := hfits.le_greatest
  have hlt : b.significand < 2 * fractions := hfits.significand_lt
  have hpos : 0 < b.significand := Nat.lt_of_lt_of_le (by decide) hnormal
  have hunpacked : b.unpacked = .finite (signOf b.negative) b.significand b.exponent hpos :=
    dif_neg hpos.ne'
  have hpower : leastExponent + ((b.exponent + 1075).toNat - 1) = b.exponent := by
    rw [leastExponent] at hlow ⊢
    omega
  have hmiddle : ¬ (b.exponent + 1075).toNat = exponentFields - 1 ∧
      ¬ (b.exponent + 1075).toNat = 0 := by
    rw [leastExponent] at hlow
    rw [greatestExponent] at hhigh
    rw [exponentFields]
    omega
  have hexponent : (BitVec.ofNat 11 (b.exponent + 1075).toNat).toNat =
      (b.exponent + 1075).toNat := by
    rw [leastExponent] at hlow
    rw [greatestExponent] at hhigh
    rw [BitVec.toNat_ofNat]
    omega
  have hmantissa : fractions + (BitVec.ofNat 52 b.significand).toNat = b.significand := by
    rw [fractions] at hlt hnormal ⊢
    rw [BitVec.toNat_ofNat]
    omega
  rw [hunpacked, view_of_packComponents (pack_normal hpos hnormal hlt hhigh), hexponent, hmantissa,
    hpower, if_neg hmiddle.1, if_neg hmiddle.2]

theorem view_pack_of_subnormal (hexponent : b.exponent = leastExponent)
    (hlt : b.significand < fractions) : view (.ofModel (.pack b.unpacked)) = .finite b := by
  by_cases hzero : b.significand = 0
  · have hunpacked : b.unpacked = .zero (signOf b.negative) := dif_pos hzero
    have hpack : UnpackedFloat.pack Format.binary64 (.zero (signOf b.negative)) =
        packComponents Format.binary64 (signOf b.negative) 0#11 0#52 := rfl
    rw [hunpacked, view_of_packComponents hpack]
    change View.finite ⟨b.negative, 0, leastExponent⟩ = .finite b
    rw [← hexponent, ← hzero]
  · have hpos : 0 < b.significand := Nat.pos_of_ne_zero hzero
    have hunpacked : b.unpacked = .finite (signOf b.negative) b.significand b.exponent hpos :=
      dif_neg hzero
    have hmantissa : (BitVec.ofNat 52 b.significand).toNat = b.significand := by
      rw [fractions] at hlt
      rw [BitVec.toNat_ofNat]
      omega
    rw [hunpacked]
    simp only [hexponent]
    rw [view_of_packComponents (pack_subnormal hpos hlt), hmantissa]
    change View.finite ⟨b.negative, b.significand, leastExponent⟩ = .finite b
    rw [← hexponent]

/-- What is put together from a finite number shows that number. -/
theorem view_pack_unpacked (hfits : b.Fits) : view (.ofModel (.pack b.unpacked)) = .finite b := by
  by_cases hnormal : fractions ≤ b.significand
  · exact view_pack_of_normal hfits hnormal
  · have hleast : ¬ leastExponent < b.exponent := fun hmore ↦ hnormal (hfits.fractions_le hmore)
    exact view_pack_of_subnormal (hfits.least_le.antisymm' (not_lt.mp hleast)) (not_le.mp hnormal)

/-- A number whose power of two is too great is put together as an infinity. -/
theorem not_isFinite_pack {sign : Sign} {m : Nat} {e : Int} (hm : 0 < m)
    (he : greatestExponent < e) :
    ¬ (Float.ofModel (.pack (.finite sign m e hm))).isFinite := by
  have hlarge : 2 ^ Format.binary64.exponentBits ≤
      (e + Format.binary64.exponentBias +
        Format.binary64.mantissaBitsWithoutImplicit).toNat + 1 := by
    rw [greatestExponent] at he
    have hbias : (Format.binary64.exponentBias : Int) = 1023 := by decide
    rw [hbias]
    change 2048 ≤ (e + 1023 + 52).toNat + 1
    omega
  have hpack : Float.Model.pack (.finite sign m e hm) = .pack (.infinity sign) := by
    have hinfinity : UnpackedFloat.pack Format.binary64 (.finite sign m e hm) =
        packedInfinity Format.binary64 sign := by
      rw [UnpackedFloat.pack]
      simp only [if_pos hlarge]
    simp only [Float.Model.pack, hinfinity]
    rfl
  rw [hpack]
  cases sign <;> decide

/-! ## Finite numbers and their bits -/

variable {y : Float}

/-- The bits of a finite number follow from what `view` shows. -/
theorem toBits_of_view (h : view x = .finite b) :
    x.toBits.toNat = ((if b.negative then exponentFields else 0) +
      if b.significand < fractions then 0 else (b.exponent - leastExponent + 1).toNat) * fractions +
        b.significand % fractions := by
  have hbits : x.toBits.toNat < 2 ^ 64 := x.toBits.toNat_lt
  rw [view] at h
  generalize x.toBits.toNat = bits at h hbits
  have hsign : (if decide (bits / fractions / exponentFields = 1) then exponentFields else 0) =
      bits / fractions / exponentFields * exponentFields := by
    rw [fractions, exponentFields] at *
    split_ifs with hone
    · rw [of_decide_eq_true hone]
    · have hne : ¬ bits / 4503599627370496 / 2048 = 1 := by simpa using hone
      omega
  split_ifs at h with hlast hzero hfirst
  · cases h
    have hlt : bits % fractions < fractions := Nat.mod_lt _ (by decide)
    dsimp only
    rw [hsign, if_pos hlt]
    rw [fractions, exponentFields] at *
    omega
  · cases h
    have hle : ¬ fractions + bits % fractions < fractions := by omega
    dsimp only
    rw [hsign, if_neg hle]
    rw [fractions, exponentFields, leastExponent] at *
    omega

/-- Finite numbers that `view` shows alike are the same. -/
theorem eq_of_view (hx : view x = .finite b) (hy : view y = .finite b) : x = y := by
  have hbits : x.toBits.toNat = y.toBits.toNat := (toBits_of_view hx).trans (toBits_of_view hy).symm
  exact Float.toBits_inj.mp (UInt64.toNat_inj.mp hbits)

end CloudLedger.Amount
