import CloudLedger.Proofs.Amount.Rounding

/-!
# When sums overflow

The sum or the difference of two finite numbers is finite exactly if its exact value does not
overflow, and so is their product.  What is not finite stays so, whatever is added to it.
-/

namespace CloudLedger.Amount

open Float.Model Float.Model.UnpackedFloat

variable {x y : Float} {b c : Binary} {m : Nat} {e : Int}

/-- The exact value of a number. -/
def Binary.value (b : Binary) : ℚ := if b.negative then -b.magnitude else b.magnitude

theorem overflow_pos : 0 < overflow := mul_pos (by norm_num) (by positivity)

theorem magnitude_nonneg (b : Binary) : 0 ≤ b.magnitude :=
  mul_nonneg (Nat.cast_nonneg _) (by positivity)

theorem abs_value (b : Binary) : |b.value| = b.magnitude := by
  rw [Binary.value]
  split_ifs
  · rw [abs_neg, abs_of_nonneg (magnitude_nonneg b)]
  · exact abs_of_nonneg (magnitude_nonneg b)

theorem magnitude_lt_overflow (h : b.Fits) : b.magnitude < overflow := by
  have hsignificand : (b.significand : ℚ) ≤ 2 ^ 53 - 1 := by
    have hle : b.significand + 1 ≤ 2 ^ 53 := h.significand_lt
    have hle' : (b.significand : ℚ) + 1 ≤ 2 ^ 53 := by exact_mod_cast hle
    linarith
  calc b.magnitude ≤ (2 ^ 53 - 1) * 2 ^ (971 : Int) :=
        mul_le_mul hsignificand (zpow_le_zpow_right₀ (by norm_num) h.le_greatest) (by positivity)
          (by norm_num)
    _ = (2 ^ 54 - 2) * 2 ^ 970 := by
        have hpower : (2 : ℚ) ^ (971 : Int) = 2 * 2 ^ 970 := by
          have : (971 : Int) = 1 + (970 : Nat) := rfl
          rw [this, zpow_add₀ (by norm_num), zpow_natCast, zpow_one]
        rw [hpower, ← mul_assoc]
        congr 1
        norm_num
    _ < overflow := mul_lt_mul_of_pos_right (by norm_num) (by positivity)

/-! ## Rounding to either side -/

theorem log2_mul_two_pow (hm : 0 < m) (k : Nat) : (m * 2 ^ k).log2 = m.log2 + k := by
  rw [Nat.log2_eq_iff (Nat.mul_pos hm (Nat.two_pow_pos k)).ne']
  constructor
  · rw [Nat.pow_add]
    exact Nat.mul_le_mul_right _ (Nat.log2_self_le hm.ne')
  · have hstep : m.log2 + k + 1 = m.log2 + 1 + k := by omega
    rw [hstep, Nat.pow_add]
    exact Nat.mul_lt_mul_of_pos_right Nat.lt_log2_self (Nat.two_pow_pos k)

theorem grid_mul_two_pow (hm : 0 < m) (e : Int) (k : Nat) :
    grid (m * 2 ^ k) (e - k) = grid m e := by
  rw [grid, log2_mul_two_pow hm, grid]
  congr 1
  omega

/-- A result that is coarser than the grid is first written in the units of the grid. -/
theorem round_exact (negative : Bool) (hm : 0 < m) (e : Int) :
    UnpackedFloat.round Format.binary64 (signOf negative) m e =
      (rounding negative (m * 2 ^ (e - grid m e).toNat) (e - (e - grid m e).toNat)).unpacked := by
  have hgrid := grid_mul_two_pow hm e (e - grid m e).toNat
  rw [← roundWithAccuracy_exact negative _ (by omega), UnpackedFloat.round, targetExponent_eq,
    decreaseExponent, Nat.shiftLeft_eq]

theorem value_mul_two_pow (m : Nat) (e : Int) (k : Nat) :
    ((m * 2 ^ k : Nat) : ℚ) * 2 ^ (e - k) = m * 2 ^ e := by
  rw [zpow_sub₀ (by norm_num), zpow_natCast]
  push_cast
  field_simp

theorem isFinite_pack_round (negative : Bool) (hm : 0 < m) (e : Int) :
    (Float.ofModel (.pack (UnpackedFloat.round Format.binary64 (signOf negative) m e))).isFinite ↔
      (m : ℚ) * 2 ^ e < overflow := by
  have hgrid := grid_mul_two_pow hm e (e - grid m e).toNat
  rw [round_exact negative hm,
    isFinite_pack_rounding negative (Nat.mul_pos hm (Nat.two_pow_pos _)) (by omega),
    value_mul_two_pow]

/-- A whole number of units is put together as a finite number exactly if it does not overflow. -/
theorem isFinite_pack_normalize (n : Int) (e : Int) :
    (Float.ofModel (.pack (UnpackedFloat.normalize Format.binary64 n e .positive))).isFinite ↔
      |(n : ℚ) * 2 ^ e| < overflow := by
  have habs : |(n : ℚ) * 2 ^ e| = (n.natAbs : ℚ) * 2 ^ e := by
    have hpower : (0 : ℚ) ≤ 2 ^ e := by positivity
    rw [abs_mul, abs_of_nonneg hpower, Nat.cast_natAbs, Int.cast_abs]
  rw [habs]
  rcases lt_trichotomy n 0 with hneg | hzero | hpos
  · have hround : UnpackedFloat.normalize Format.binary64 n e .positive =
        UnpackedFloat.round Format.binary64 (signOf true) n.natAbs e := by
      have hnatAbs : (-n).toNat = n.natAbs := by omega
      rw [UnpackedFloat.normalize, compare_lt_iff_lt.mpr hneg, ← hnatAbs]
      rfl
    rw [hround, isFinite_pack_round true (by omega)]
  · subst hzero
    have hvalue : ((Int.natAbs 0 : Nat) : ℚ) * 2 ^ e = 0 := by simp
    have hnormal : UnpackedFloat.normalize Format.binary64 0 e .positive = .zero .positive := rfl
    rw [hvalue, hnormal]
    exact iff_of_true (by decide) overflow_pos
  · have hround : UnpackedFloat.normalize Format.binary64 n e .positive =
        UnpackedFloat.round Format.binary64 (signOf false) n.natAbs e := by
      have hnatAbs : n.toNat = n.natAbs := by omega
      rw [UnpackedFloat.normalize, compare_gt_iff_gt.mpr hpos, ← hnatAbs]
      rfl
    rw [hround, isFinite_pack_round false (by omega)]

/-! ## Sums -/

theorem unpacked_of_zero (h : b.significand = 0) : b.unpacked = .zero (signOf b.negative) :=
  dif_pos h

theorem unpacked_of_pos (h : 0 < b.significand) :
    b.unpacked = .finite (signOf b.negative) b.significand b.exponent h := dif_neg h.ne'

theorem value_of_zero (h : b.significand = 0) : b.value = 0 := by
  rw [Binary.value, Binary.magnitude, h]
  simp

theorem isFinite_pack_unpacked (h : b.Fits) : (Float.ofModel (.pack b.unpacked)).isFinite :=
  isFinite_iff.mpr ⟨b, view_pack_unpacked h⟩

/-- A number in units that are no larger than its own. -/
theorem apply_decreaseExponent (b : Binary) (he : e ≤ b.exponent) :
    ((signOf b.negative).apply (decreaseExponent b.significand b.exponent e).1 : ℚ) * 2 ^ e =
      b.value := by
  have hmagnitude : ((decreaseExponent b.significand b.exponent e).1 : ℚ) * 2 ^ e =
      b.magnitude := by
    have hpower : (2 : ℚ) ^ b.exponent = 2 ^ (b.exponent - e).toNat * 2 ^ e := by
      have hsum : b.exponent = ((b.exponent - e).toNat : Int) + e := by omega
      calc (2 : ℚ) ^ b.exponent = 2 ^ (((b.exponent - e).toNat : Int) + e) := congrArg _ hsum
        _ = 2 ^ (b.exponent - e).toNat * 2 ^ e := by rw [zpow_add₀ (by norm_num), zpow_natCast]
    rw [decreaseExponent, Nat.shiftLeft_eq, Binary.magnitude, hpower, ← mul_assoc]
    push_cast
    rfl
  rw [Binary.value, ← hmagnitude]
  cases b.negative with
  | true =>
    change ((-((decreaseExponent b.significand b.exponent e).1 : Int) : Int) : ℚ) * 2 ^ e = _
    push_cast
    rw [if_pos rfl, neg_mul]
  | false => rfl

/-- The sum of two finite numbers is finite exactly if it does not overflow. -/
theorem isFinite_pack_add (hb : b.Fits) (hc : c.Fits) :
    (Float.ofModel (.pack (add Format.binary64 b.unpacked c.unpacked))).isFinite ↔
      |b.value + c.value| < overflow := by
  rcases Nat.eq_zero_or_pos b.significand with hbzero | hbpos
  · rw [value_of_zero hbzero, zero_add, abs_value]
    refine iff_of_true ?_ (magnitude_lt_overflow hc)
    rw [unpacked_of_zero hbzero]
    rcases Nat.eq_zero_or_pos c.significand with hczero | hcpos
    · rw [unpacked_of_zero hczero]
      cases b.negative <;> cases c.negative <;> decide
    · have hsum : add Format.binary64 (.zero (signOf b.negative)) c.unpacked = c.unpacked := by
        rw [unpacked_of_pos hcpos]
        rfl
      rw [hsum]
      exact isFinite_pack_unpacked hc
  · rcases Nat.eq_zero_or_pos c.significand with hczero | hcpos
    · have hsum : add Format.binary64 b.unpacked c.unpacked = b.unpacked := by
        rw [unpacked_of_pos hbpos, unpacked_of_zero hczero]
        rfl
      rw [value_of_zero hczero, add_zero, abs_value, hsum]
      exact iff_of_true (isFinite_pack_unpacked hb) (magnitude_lt_overflow hb)
    · let e := min b.exponent c.exponent
      let total := (signOf b.negative).apply (decreaseExponent b.significand b.exponent e).1 +
        (signOf c.negative).apply (decreaseExponent c.significand c.exponent e).1
      have hsum : add Format.binary64 b.unpacked c.unpacked =
          UnpackedFloat.normalize Format.binary64 total e .positive := by
        rw [unpacked_of_pos hbpos, unpacked_of_pos hcpos]
        rfl
      have hvalue : (total : ℚ) * 2 ^ e = b.value + c.value := by
        rw [Int.cast_add, add_mul, apply_decreaseExponent b (min_le_left _ _),
          apply_decreaseExponent c (min_le_right _ _)]
      rw [hsum, isFinite_pack_normalize, hvalue]

/-- A number with the other sign. -/
def Binary.negated (b : Binary) : Binary := { b with negative := !b.negative }

theorem value_negated (b : Binary) : b.negated.value = -b.value := by
  cases h : b.negative <;> simp [Binary.value, Binary.negated, Binary.magnitude, h]

theorem fits_negated (h : b.Fits) : b.negated.Fits :=
  ⟨h.significand_lt, h.least_le, h.le_greatest, h.fractions_le⟩

theorem apply_neg (sign : Sign) (n : Int) : (-sign).apply n = -sign.apply n := by
  cases sign with
  | negative => exact (neg_neg n).symm
  | positive => rfl

theorem signOf_negated (b : Binary) : signOf b.negated.negative = -signOf b.negative := by
  rw [Binary.negated]
  cases b.negative <;> rfl

theorem sub_eq_add_negated (b c : Binary) :
    sub Format.binary64 b.unpacked c.unpacked =
      add Format.binary64 b.unpacked c.negated.unpacked := by
  rcases Nat.eq_zero_or_pos b.significand with hbzero | hbpos <;>
    rcases Nat.eq_zero_or_pos c.significand with hczero | hcpos
  · rw [unpacked_of_zero hbzero, unpacked_of_zero hczero, unpacked_of_zero (b := c.negated) hczero,
      signOf_negated]
    rfl
  · rw [unpacked_of_zero hbzero, unpacked_of_pos hcpos, unpacked_of_pos (b := c.negated) hcpos,
      signOf_negated]
    rfl
  · rw [unpacked_of_pos hbpos, unpacked_of_zero hczero, unpacked_of_zero (b := c.negated) hczero]
    rfl
  · rw [unpacked_of_pos hbpos, unpacked_of_pos hcpos, unpacked_of_pos (b := c.negated) hcpos,
      signOf_negated]
    change UnpackedFloat.normalize Format.binary64 (_ - _) (min b.exponent c.exponent) .positive =
      UnpackedFloat.normalize Format.binary64 (_ + (-signOf c.negative).apply _)
        (min b.exponent c.exponent) .positive
    rw [apply_neg, ← sub_eq_add_neg]
    rfl

theorem view_neg (hx : view x = .finite b) : view (-x) = .finite b.negated := by
  have hunpacked : b.negated.unpacked = b.unpacked.neg := by
    rcases Nat.eq_zero_or_pos b.significand with hzero | hpos
    · rw [unpacked_of_zero hzero, unpacked_of_zero (b := b.negated) hzero, signOf_negated]
      rfl
    · rw [unpacked_of_pos hpos, unpacked_of_pos (b := b.negated) hpos, signOf_negated]
      rfl
  have hneg : -x = .ofModel (.pack b.negated.unpacked) := by
    rw [hunpacked, ← unpack_of_view hx]
    rfl
  rw [hneg]
  exact view_pack_unpacked (fits_negated (fits_of_view hx))

theorem isFinite_add_iff (hx : view x = .finite b) (hy : view y = .finite c) :
    (x + y).isFinite ↔ |b.value + c.value| < overflow := by
  have hsum : x + y = .ofModel (.pack (add Format.binary64 b.unpacked c.unpacked)) := by
    rw [← unpack_of_view hx, ← unpack_of_view hy]
    rfl
  rw [hsum, isFinite_pack_add (fits_of_view hx) (fits_of_view hy)]

theorem isFinite_sub_iff (hx : view x = .finite b) (hy : view y = .finite c) :
    (x - y).isFinite ↔ |b.value - c.value| < overflow := by
  have hdifference : x - y =
      .ofModel (.pack (add Format.binary64 b.unpacked c.negated.unpacked)) := by
    rw [← sub_eq_add_negated, ← unpack_of_view hx, ← unpack_of_view hy]
    rfl
  rw [hdifference, isFinite_pack_add (fits_of_view hx) (fits_negated (fits_of_view hy)),
    value_negated, sub_eq_add_neg]

/-! ## What is not finite -/

theorem not_isFinite_pack_infinity (sign : Sign) :
    ¬ (Float.ofModel (.pack (.infinity sign))).isFinite := by
  cases sign <;> decide

theorem not_isFinite_pack_undefined : ¬ (Float.ofModel (.pack .notANumber)).isFinite := by
  decide

theorem unpack_of_not_isFinite (h : ¬ x.isFinite) :
    x.toModel.unpack = .notANumber ∨ ∃ sign, x.toModel.unpack = .infinity sign := by
  change ¬ x.toModel.unpack.isFinite = true at h
  cases hx : x.toModel.unpack with
  | notANumber => exact .inl rfl
  | infinity sign => exact .inr ⟨sign, rfl⟩
  | zero sign => exact absurd (hx ▸ rfl) h
  | finite sign m e hm => exact absurd (hx ▸ rfl) h

/-- A sum is not finite once it is not finite. -/
theorem not_isFinite_add (h : ¬ x.isFinite) (y : Float) : ¬ (x + y).isFinite := by
  change ¬ (Float.ofModel (.pack (add Format.binary64 x.toModel.unpack y.toModel.unpack))).isFinite
  rcases unpack_of_not_isFinite h with hx | ⟨sign, hx⟩
  · rw [hx]
    exact not_isFinite_pack_undefined
  · rw [hx]
    cases y.toModel.unpack with
    | notANumber => exact not_isFinite_pack_undefined
    | infinity other =>
      rw [UnpackedFloat.add]
      split_ifs
      · exact not_isFinite_pack_infinity sign
      · exact not_isFinite_pack_undefined
    | zero other => exact not_isFinite_pack_infinity sign
    | finite other m e hm => exact not_isFinite_pack_infinity sign

theorem not_isFinite_sub (h : ¬ x.isFinite) (y : Float) : ¬ (x - y).isFinite := by
  change ¬ (Float.ofModel (.pack (sub Format.binary64 x.toModel.unpack y.toModel.unpack))).isFinite
  rcases unpack_of_not_isFinite h with hx | ⟨sign, hx⟩
  · rw [hx]
    exact not_isFinite_pack_undefined
  · rw [hx]
    cases y.toModel.unpack with
    | notANumber => exact not_isFinite_pack_undefined
    | infinity other =>
      rw [UnpackedFloat.sub]
      split_ifs
      · exact not_isFinite_pack_infinity sign
      · exact not_isFinite_pack_undefined
    | zero other => exact not_isFinite_pack_infinity sign
    | finite other m e hm => exact not_isFinite_pack_infinity sign

/-! ## Products -/

/-- A product has no fewer bits than its grid asks for. -/
theorem exponents_le_grid (hb : b.Fits) (hc : c.Fits) (hbpos : 0 < b.significand)
    (hcpos : 0 < c.significand) :
    b.exponent + c.exponent ≤ grid (b.significand * c.significand) (b.exponent + c.exponent) := by
  have hleast : leastExponent ≤ grid (b.significand * c.significand) (b.exponent + c.exponent) :=
    le_max_right _ _
  by_cases hsmall : b.exponent + c.exponent ≤ leastExponent
  · exact hsmall.trans hleast
  · -- one of the factors has all its bits
    have hproduct : fractions ≤ b.significand * c.significand := by
      have hblow : leastExponent ≤ b.exponent := hb.least_le
      have hclow : leastExponent ≤ c.exponent := hc.least_le
      by_cases hbleast : leastExponent < b.exponent
      · exact (hb.fractions_le hbleast).trans (Nat.le_mul_of_pos_right _ hcpos)
      · have hcleast : leastExponent < c.exponent := by
          rw [leastExponent] at *
          omega
        exact (hc.fractions_le hcleast).trans (Nat.le_mul_of_pos_left _ hbpos)
    have hlog : 52 ≤ (b.significand * c.significand).log2 :=
      (Nat.le_log2 (Nat.mul_pos hbpos hcpos).ne').mpr hproduct
    exact le_trans (by omega) (le_max_left _ _)

theorem mul_unpacked_of_zero (h : b.significand = 0 ∨ c.significand = 0) :
    mul Format.binary64 b.unpacked c.unpacked = .zero (signOf b.negative * signOf c.negative) := by
  rcases Nat.eq_zero_or_pos b.significand with hbzero | hbpos
  · rw [unpacked_of_zero hbzero]
    rcases Nat.eq_zero_or_pos c.significand with hczero | hcpos
    · rw [unpacked_of_zero hczero]
      rfl
    · rw [unpacked_of_pos hcpos]
      rfl
  · rw [unpacked_of_pos hbpos, unpacked_of_zero (h.resolve_left hbpos.ne')]
    rfl

theorem mul_unpacked_of_pos (hb : b.Fits) (hc : c.Fits) (hbpos : 0 < b.significand)
    (hcpos : 0 < c.significand) :
    mul Format.binary64 b.unpacked c.unpacked =
      (rounding (b.negative ^^ c.negative) (b.significand * c.significand)
        (b.exponent + c.exponent)).unpacked := by
  have hsign : signOf (b.negative ^^ c.negative) = signOf b.negative * signOf c.negative := by
    cases b.negative <;> cases c.negative <;> rfl
  rw [← roundWithAccuracy_exact _ _ (exponents_le_grid hb hc hbpos hcpos), hsign,
    unpacked_of_pos hbpos, unpacked_of_pos hcpos]
  rfl

theorem magnitude_mul (b c : Binary) :
    b.magnitude * c.magnitude =
      ((b.significand * c.significand : Nat) : ℚ) * 2 ^ (b.exponent + c.exponent) := by
  rw [zpow_add₀ (by norm_num), Binary.magnitude, Binary.magnitude]
  push_cast
  ring

/-- The product of two finite numbers is finite exactly if it does not overflow. -/
theorem isFinite_mul_iff (hx : view x = .finite b) (hy : view y = .finite c) :
    (x * y).isFinite ↔ b.magnitude * c.magnitude < overflow := by
  have hb : b.Fits := fits_of_view hx
  have hc : c.Fits := fits_of_view hy
  have hproduct : x * y = .ofModel (.pack (mul Format.binary64 b.unpacked c.unpacked)) := by
    rw [← unpack_of_view hx, ← unpack_of_view hy]
    rfl
  rw [hproduct, magnitude_mul]
  by_cases hzero : b.significand = 0 ∨ c.significand = 0
  · have hvalue : b.significand * c.significand = 0 := Nat.mul_eq_zero.mpr hzero
    rw [mul_unpacked_of_zero hzero, hvalue, Nat.cast_zero, zero_mul]
    refine iff_of_true ?_ overflow_pos
    cases b.negative <;> cases c.negative <;> decide
  · rw [not_or] at hzero
    have hbpos : 0 < b.significand := Nat.pos_of_ne_zero hzero.1
    have hcpos : 0 < c.significand := Nat.pos_of_ne_zero hzero.2
    rw [mul_unpacked_of_pos hb hc hbpos hcpos,
      isFinite_pack_rounding _ (Nat.mul_pos hbpos hcpos) (exponents_le_grid hb hc hbpos hcpos)]

end CloudLedger.Amount
