import CloudLedger.Proofs.Amount.Overflow
import CloudLedger.Proofs.StateFile.Measures

/-!
# A finite measure can always be read again

Reading scales the digits of a measure by a power of ten.  Both are rounded, so that the product may
be a little greater than the measure was.  It still does not overflow: for all but the three
greatest numbers the two roundings cannot reach that far, and these three are tried.  Digits and
powers of ten that are small enough are not rounded at all.
-/

namespace CloudLedger.StateFile

open Amount Float.Model Float.Model.UnpackedFloat

variable {x : Float} {b : Binary} {d : Decimal} {m : Nat} {e : Int}

/-! ## Roundings are close -/

/-- How much greater than a result its rounding can be. -/
def slack : ℚ := 1 + 1 / 2 ^ 53

theorem rounding_magnitude (negative : Bool) (m : Nat) (e : Int) :
    (rounding negative m e).magnitude =
      nearest m (2 ^ (grid m e - e).toNat) * 2 ^ grid m e := by
  rw [rounding]
  split_ifs with hfull
  · rw [hfull, Binary.magnitude, zpow_add₀ (by norm_num), zpow_one]
    push_cast
    ring
  · rfl

theorem rounding_magnitude_le (negative : Bool) (hm : 0 < m) (he : e ≤ grid m e)
    (hgrid : grid m e = m.log2 + e - 52) :
    (rounding negative m e).magnitude ≤ m * 2 ^ e * slack := by
  let n := 2 ^ (grid m e - e).toNat
  have hn : (n : ℚ) = 2 ^ (grid m e - e).toNat := by
    change ((2 ^ (grid m e - e).toNat : Nat) : ℚ) = _
    push_cast
    rfl
  have hnearest : 2 * ((nearest m n : ℚ) * n) ≤ 2 * m + n := by
    exact_mod_cast nearest_mul_le m n
  have hunit : (2 : ℚ) ^ grid m e = n * 2 ^ e := by
    have hsum : grid m e = ((grid m e - e).toNat : Int) + e := by omega
    calc (2 : ℚ) ^ grid m e = 2 ^ (((grid m e - e).toNat : Int) + e) := congrArg _ hsum
      _ = n * 2 ^ e := by rw [zpow_add₀ (by norm_num), zpow_natCast, hn]
  have hslack : (2 : ℚ) ^ grid m e * 2 ^ 52 ≤ m * 2 ^ e := by
    have hsum : (2 : ℚ) ^ grid m e * 2 ^ 52 = 2 ^ (m.log2 + e) := by
      rw [← zpow_natCast 2 52, ← zpow_add₀ (by norm_num), hgrid]
      congr 1
      push_cast
      omega
    rw [hsum]
    exact two_zpow_log2_le hm e
  calc (rounding negative m e).magnitude = nearest m n * n * 2 ^ e := by
        rw [rounding_magnitude, hunit, ← mul_assoc]
    _ ≤ (m + n / 2) * 2 ^ e := by
        apply mul_le_mul_of_nonneg_right _ (by positivity)
        linarith
    _ = m * 2 ^ e + 2 ^ grid m e / 2 := by rw [hunit]; ring
    _ ≤ m * 2 ^ e * slack := by
        rw [slack]
        linarith

theorem view_pack_rounding (negative : Bool) (hm : 0 < m) (he : e ≤ grid m e)
    (hgrid : grid m e = m.log2 + e - 52) (hvalue : (m : ℚ) * 2 ^ e < overflow) :
    ∃ c, view (.ofModel (.pack (rounding negative m e).unpacked)) = .finite c ∧
      c.magnitude ≤ m * 2 ^ e * slack := by
  have hhigh := (rounding_exponent_le_iff negative hm he).mpr hvalue
  exact ⟨rounding negative m e, view_pack_unpacked (fits_rounding negative hm he hhigh),
    rounding_magnitude_le negative hm he hgrid⟩

theorem ten_pow_lt_overflow : (10 : ℚ) ^ greatestPower < overflow := by
  have hless : 10 ^ greatestPower < (2 ^ 54 - 1) * 2 ^ 970 := by decide +kernel
  calc (10 : ℚ) ^ greatestPower = ((10 ^ greatestPower : Nat) : ℚ) := (Nat.cast_pow 10 _).symm
    _ < (((2 ^ 54 - 1) * 2 ^ 970 : Nat) : ℚ) := Nat.cast_lt.mpr hless
    _ = overflow := by
      rw [Nat.cast_mul, Nat.cast_pow, overflow]
      congr 1
      norm_num

/-- How many places the grid of a whole number is finer than it. -/
def finerPlaces (m : Nat) : Nat := ((0 : Int) - grid m 0).toNat

/-- The number that digits are rounded to, which are first written in units of their grid. -/
def wholeRounding (m : Nat) : Binary :=
  rounding false (m * 2 ^ finerPlaces m) (0 - finerPlaces m)

theorem grid_whole (m : Nat) : grid m 0 = m.log2 - 52 := by
  rw [grid, leastExponent]
  omega

theorem grid_finerPlaces (hm : 0 < m) :
    grid (m * 2 ^ finerPlaces m) (0 - finerPlaces m) = m.log2 - 52 := by
  rw [grid_mul_two_pow hm, grid_whole]

theorem value_finerPlaces (m : Nat) :
    ((m * 2 ^ finerPlaces m : Nat) : ℚ) * 2 ^ ((0 : Int) - finerPlaces m) = m := by
  rw [value_mul_two_pow, zpow_zero, mul_one]

theorem finerPlaces_le_grid (hm : 0 < m) :
    (0 : Int) - finerPlaces m ≤ grid (m * 2 ^ finerPlaces m) (0 - finerPlaces m) := by
  rw [grid_finerPlaces hm, finerPlaces, grid_whole]
  omega

/-- The digits that are gathered are rounded once. -/
theorem view_rounded_eq (hm : 0 < m) (hlt : m < 2 ^ 64) :
    view (rounded m) = .finite (wholeRounding m) := by
  have hword : m.toUInt64.toNat = m := Nat.mod_eq_of_lt hlt
  have hnormal : UnpackedFloat.normalize Format.binary64 m.toUInt64.toNat 0 .positive =
      (wholeRounding m).unpacked := by
    rw [hword, UnpackedFloat.normalize, compare_gt_iff_gt.mpr (Int.natCast_pos.mpr hm)]
    exact round_exact false hm 0
  have hrounded : rounded m = .ofModel (.pack (wholeRounding m).unpacked) := by
    rw [← hnormal]
    rfl
  have hpos : 0 < m * 2 ^ finerPlaces m := Nat.mul_pos hm (Nat.two_pow_pos _)
  have hvalue : ((m * 2 ^ finerPlaces m : Nat) : ℚ) * 2 ^ ((0 : Int) - finerPlaces m) <
      overflow := by
    have hless : m < 10 ^ greatestPower := hlt.trans (by decide +kernel)
    rw [value_finerPlaces]
    exact lt_trans (by exact_mod_cast hless) ten_pow_lt_overflow
  have hhigh := (rounding_exponent_le_iff false hpos (finerPlaces_le_grid hm)).mpr hvalue
  rw [hrounded]
  exact view_pack_unpacked (fits_rounding false hpos (finerPlaces_le_grid hm) hhigh)

/-- The digits that are gathered are rounded to a number that is not much greater. -/
theorem view_rounded (hm : 0 < m) (hlt : m < 2 ^ 64) :
    ∃ c, view (rounded m) = .finite c ∧ c.magnitude ≤ m * slack := by
  refine ⟨wholeRounding m, view_rounded_eq hm hlt, ?_⟩
  have hpos : 0 < m * 2 ^ finerPlaces m := Nat.mul_pos hm (Nat.two_pow_pos _)
  rw [← value_finerPlaces m]
  apply rounding_magnitude_le false hpos (finerPlaces_le_grid hm)
  rw [grid_finerPlaces hm, log2_mul_two_pow hm]
  push_cast
  omega

/-- Digits that fit in the bits of a number are exact. -/
theorem view_rounded_exact (hm : 0 < m) (hlt : m < 2 ^ 53) :
    ∃ c, view (rounded m) = .finite c ∧ c.negative = false ∧ c.magnitude = m := by
  refine ⟨wholeRounding m, view_rounded_eq hm (hlt.trans (by decide)), ?_, ?_⟩
  · rw [wholeRounding, rounding]
    split_ifs <;> rfl
  · have hlog : m.log2 < 53 := (Nat.log2_lt hm.ne').mpr hlt
    have hgrid : grid (m * 2 ^ finerPlaces m) (0 - finerPlaces m) = 0 - finerPlaces m := by
      rw [grid_finerPlaces hm, finerPlaces, grid_whole]
      omega
    rw [wholeRounding, rounding_magnitude, hgrid, sub_self, Int.toNat_zero, Nat.pow_zero,
      nearest_one, value_finerPlaces]

/-- Whether a power of ten is a number itself. -/
def isExactPower (n : Nat) : Bool :=
  match view (powerOfTen n) with
  | .finite c =>
    !c.negative && c.significand * 2 ^ c.exponent.toNat = 10 ^ n * 2 ^ (-c.exponent).toNat
  | _ => false

theorem isExactPower_of_lt : ∀ n < 23, isExactPower n := by
  decide +kernel

/-- A small power of ten is exact. -/
theorem view_powerOfTen_exact {n : Nat} (hn : n < 23) :
    ∃ c, view (powerOfTen n) = .finite c ∧ c.negative = false ∧ c.magnitude = 10 ^ n := by
  have hexact := isExactPower_of_lt n hn
  rw [isExactPower] at hexact
  split at hexact
  · rename_i c hview
    rw [Bool.and_eq_true] at hexact
    have hcross : (c.significand : ℚ) * 2 ^ c.exponent.toNat =
        10 ^ n * 2 ^ (-c.exponent).toNat := by
      exact_mod_cast of_decide_eq_true hexact.2
    refine ⟨c, hview, by simpa using hexact.1, ?_⟩
    rw [Binary.magnitude, zpow_eq_div 2 (by norm_num), ← mul_div_assoc, hcross,
      mul_div_cancel_right₀ _ (by positivity)]
  · cases hexact

/-- A greater power of ten is rounded. -/
theorem powerOfTen_eq {n : Nat} (hlow : 22 < n) (hhigh : n ≤ greatestPower)
    (he : -53 ≤ grid (2 ^ 53 * 10 ^ n) (-53)) :
    powerOfTen n = .ofModel (.pack (rounding false (2 ^ 53 * 10 ^ n) (-53)).unpacked) := by
  have hrange : ¬ (n : Int) > 2 ^ Format.binary64.exponentBits ∧
      ¬ (n : Int) < -((2 ^ Format.binary64.exponentBits : Int) + Nat.log2 1) := by
    rw [greatestPower] at hhigh
    change ¬ (n : Int) > 2048 ∧ ¬ (n : Int) < -(2048 + _)
    omega
  have hunpacked : UnpackedFloat.ofScientific Format.binary64 1 n =
      (rounding false (2 ^ 53 * 10 ^ n) (-53)).unpacked := by
    rw [← roundWithAccuracy_exact false _ he, UnpackedFloat.ofScientific, dif_neg (by decide),
      if_neg hrange.1, if_neg hrange.2, if_pos (Int.natCast_nonneg n)]
    rfl
  rw [powerOfTen, Float.ofScientific, dif_neg (by omega), ← hunpacked]
  rfl

/-- A power of ten is rounded to a number that is not much greater. -/
theorem view_powerOfTen {n : Nat} (hn : n ≤ greatestPower) :
    ∃ c, view (powerOfTen n) = .finite c ∧ c.magnitude ≤ 10 ^ n * slack := by
  by_cases hsmall : n < 23
  · obtain ⟨c, hview, -, hvalue⟩ := view_powerOfTen_exact hsmall
    refine ⟨c, hview, ?_⟩
    rw [hvalue, slack]
    exact le_mul_of_one_le_right (by positivity) (by norm_num)
  · have hpos : 0 < 2 ^ 53 * 10 ^ n := Nat.mul_pos (by decide) (Nat.pow_pos (by decide))
    have hlog : 53 ≤ (2 ^ 53 * 10 ^ n).log2 :=
      (Nat.le_log2 hpos.ne').mpr (Nat.le_mul_of_pos_right _ (Nat.pow_pos (by decide)))
    have hgrid : grid (2 ^ 53 * 10 ^ n) (-53) = (2 ^ 53 * 10 ^ n).log2 + -53 - 52 := by
      rw [grid, leastExponent]
      omega
    have he : -53 ≤ grid (2 ^ 53 * 10 ^ n) (-53) := by omega
    have hvalue : ((2 ^ 53 * 10 ^ n : Nat) : ℚ) * 2 ^ (-53 : Int) = 10 ^ n := by
      have hunit : (2 : ℚ) ^ (-53 : Int) = 1 / 2 ^ 53 := by norm_num
      rw [hunit]
      push_cast
      ring
    have hfits : (10 : ℚ) ^ n < overflow :=
      (pow_le_pow_right₀ (by norm_num) hn).trans_lt ten_pow_lt_overflow
    rw [powerOfTen_eq (by omega) hn he, ← hvalue]
    exact view_pack_rounding false hpos he hgrid (hvalue.symm ▸ hfits)

/-! ## Scaling -/

/-- Dividing by a power of ten never fails. -/
theorem scale_of_neg (he : e < 0) (steps : Nat) (x : Float) : ∃ y, scale x e steps = .ok y := by
  induction steps generalizing x e with
  | zero => exact ⟨x, rfl⟩
  | succ steps ih =>
    have hneg : ¬ 0 ≤ e := not_le.mpr he
    rw [scale]
    split_ifs with hpower hzero
    · exact ⟨_, rfl⟩
    · exact ⟨_, rfl⟩
    · rw [greatestPower] at *
      exact ih (by omega) _

theorem not_isInf_of_isFinite (h : x.isFinite) : ¬ x.isInf := by
  change x.toModel.unpack.isFinite = true at h
  change ¬ x.toModel.unpack.isInf = true
  cases hx : x.toModel.unpack with
  | infinity sign =>
    rw [hx] at h
    cases h
  | notANumber | zero sign | finite sign m e hm => exact Bool.false_ne_true

/-- Digits are scaled up if what they denote stays a little below what overflows. -/
theorem assemble_ok (hdigits : 0 < d.digits) (hlt : d.digits < 2 ^ 64) (hexponent : 0 ≤ d.exponent)
    (hpower : d.exponent ≤ greatestPower) (hvalue : d.value * (slack * slack) < overflow) :
    ∃ y, assemble d.digits d.exponent = .ok y := by
  have hnatAbs : d.exponent.natAbs ≤ greatestPower := by omega
  obtain ⟨b, hb, hbslack⟩ := view_rounded hdigits hlt
  obtain ⟨c, hc, hcslack⟩ := view_powerOfTen hnatAbs
  have hproduct : b.magnitude * c.magnitude < overflow :=
    calc b.magnitude * c.magnitude
        ≤ d.digits * slack * (10 ^ d.exponent.natAbs * slack) :=
          mul_le_mul hbslack hcslack (magnitude_nonneg c) ((magnitude_nonneg b).trans hbslack)
      _ = d.value * (slack * slack) := by
          have hten : (10 : ℚ) ^ d.exponent = 10 ^ d.exponent.natAbs := by
            have hnat : d.exponent = (d.exponent.natAbs : Int) := by omega
            rw [← zpow_natCast, ← hnat]
          rw [Decimal.value, hten]
          ring
      _ < overflow := hvalue
  have hfinite := not_isInf_of_isFinite ((isFinite_mul_iff hb hc).mpr hproduct)
  rw [assemble, scale, if_pos hnatAbs, if_pos hexponent]
  simp only [hfinite]
  exact ⟨_, rfl⟩

/-! ## The numbers that are written -/

/-- The three greatest numbers can be read again. -/
theorem rereadMagnitude_greatest : ∀ negative, ∀ n < 3,
    (rereadMagnitude
      ⟨negative, 2 * fractions - (n + 1), Amount.greatestExponent⟩).toOption.isSome := by
  decide +kernel

theorem slack_lt : ((2 : ℚ) ^ 54 - 7) * 2 ^ 970 * (slack * slack) < overflow := by
  rw [overflow, mul_right_comm]
  exact mul_lt_mul_of_pos_right (by norm_num [slack]) (by positivity)

/-- All other numbers lie far enough below what overflows. -/
theorem high_le (hfits : b.Fits)
    (hrest : ¬ (b.exponent = Amount.greatestExponent ∧ 2 * fractions - 3 ≤ b.significand)) :
    (b.interval.high : ℚ) * 2 ^ b.interval.scale ≤ (2 ^ 54 - 7) * 2 ^ 970 := by
  have hlt : b.significand < 2 ^ 53 := hfits.significand_lt
  have hhigh : b.exponent ≤ 971 := hfits.le_greatest
  change ((4 * b.significand + 2 : Nat) : ℚ) * 2 ^ (b.exponent - 2) ≤ _
  by_cases hlast : b.exponent = 971
  · have hless : b.significand < 2 ^ 53 - 3 := not_le.mp fun hle ↦ hrest ⟨hlast, hle⟩
    have hbits : ((4 * b.significand + 2 : Nat) : ℚ) ≤ 2 * (2 ^ 54 - 7) := by
      have hnat : 4 * b.significand + 2 ≤ 2 ^ 55 - 14 := by omega
      calc ((4 * b.significand + 2 : Nat) : ℚ) ≤ ((2 ^ 55 - 14 : Nat) : ℚ) := Nat.cast_le.mpr hnat
        _ = 2 * (2 ^ 54 - 7) := by norm_num
    have hunit : (2 : ℚ) ^ (b.exponent - 2) = 2 ^ 970 / 2 := by
      have hsum : b.exponent - 2 = (970 : Nat) - 1 := by omega
      rw [hsum, zpow_sub₀ (by norm_num), zpow_natCast, zpow_one]
    calc ((4 * b.significand + 2 : Nat) : ℚ) * 2 ^ (b.exponent - 2)
        ≤ 2 * (2 ^ 54 - 7) * (2 ^ 970 / 2) := by
          rw [hunit]
          exact mul_le_mul_of_nonneg_right hbits (by positivity)
      _ = (2 ^ 54 - 7) * 2 ^ 970 := by
          rw [mul_comm 2, mul_assoc, mul_div_cancel₀ _ (by norm_num)]
  · have hbits : ((4 * b.significand + 2 : Nat) : ℚ) ≤ 4 * (2 ^ 54 - 7) := by
      have hnat : 4 * b.significand + 2 ≤ 2 ^ 55 := by omega
      calc ((4 * b.significand + 2 : Nat) : ℚ) ≤ ((2 ^ 55 : Nat) : ℚ) := Nat.cast_le.mpr hnat
        _ ≤ 4 * (2 ^ 54 - 7) := by norm_num
    have hunit : (2 : ℚ) ^ (b.exponent - 2) ≤ 2 ^ 970 / 4 := by
      calc (2 : ℚ) ^ (b.exponent - 2) ≤ 2 ^ (((970 : Nat) : Int) - 2) :=
            zpow_le_zpow_right₀ (by norm_num) (by omega)
        _ = 2 ^ 970 / 4 := by
          rw [zpow_sub₀ (by norm_num), zpow_natCast]
          norm_num
    calc ((4 * b.significand + 2 : Nat) : ℚ) * 2 ^ (b.exponent - 2)
        ≤ 4 * (2 ^ 54 - 7) * (2 ^ 970 / 4) :=
          mul_le_mul hbits hunit (by positivity) (by norm_num)
      _ = (2 ^ 54 - 7) * 2 ^ 970 := by
          rw [mul_comm 4, mul_assoc, mul_div_cancel₀ _ (by norm_num)]

theorem overflow_le_ten_zpow : overflow ≤ (10 : ℚ) ^ (greatestPower + 1) := by
  have hle : (2 ^ 54 - 1) * 2 ^ 970 ≤ 10 ^ (greatestPower + 1) := by decide +kernel
  calc overflow = (((2 ^ 54 - 1) * 2 ^ 970 : Nat) : ℚ) := by
        rw [Nat.cast_mul, Nat.cast_pow, overflow]
        congr 1
        norm_num
    _ ≤ ((10 ^ (greatestPower + 1) : Nat) : ℚ) := Nat.cast_le.mpr hle
    _ = (10 : ℚ) ^ (greatestPower + 1) := Nat.cast_pow 10 _

/-- The decimal of a number that is written with a positive power of ten is scaled up. -/
theorem assemble_shortest_ok (hfits : b.Fits) (hb : b.significand ≠ 0) (hyields : b.Yields d)
    (hexponent : 0 ≤ d.exponent)
    (hrest : ¬ (b.exponent = Amount.greatestExponent ∧ 2 * fractions - 3 ≤ b.significand)) :
    ∃ y, assemble d.digits d.exponent = .ok y := by
  have hdigits : 0 < d.digits := hyields.digits_pos hb
  have hslack : (1 : ℚ) ≤ slack * slack := by norm_num [slack]
  have hvalue : d.value ≤ (2 ^ 54 - 7) * 2 ^ 970 := hyields.meets.le.2.trans (high_le hfits hrest)
  have hoverflow : d.value * (slack * slack) < overflow :=
    (mul_le_mul_of_nonneg_right hvalue (zero_le_one.trans hslack)).trans_lt slack_lt
  have hpower : d.exponent ≤ greatestPower := by
    by_contra hlarge
    have hone : (1 : ℚ) ≤ d.digits := by exact_mod_cast hdigits
    have hten : (10 : ℚ) ^ (greatestPower + 1) ≤ 10 ^ d.exponent := by
      rw [← zpow_natCast]
      exact zpow_le_zpow_right₀ (by norm_num) (by push_cast; omega)
    have hreached : overflow ≤ d.value * (slack * slack) :=
      calc overflow ≤ 10 ^ d.exponent := overflow_le_ten_zpow.trans hten
        _ ≤ d.digits * 10 ^ d.exponent := le_mul_of_one_le_left (by positivity) hone
        _ ≤ d.value * (slack * slack) :=
          le_mul_of_one_le_right (mul_nonneg (by positivity) (by positivity)) hslack
    exact absurd hoverflow (not_lt.mpr hreached)
  exact assemble_ok hdigits (hyields.digits_lt.trans (by decide)) hexponent hpower hoverflow

theorem rereadMagnitude_of_greatest (hfits : b.Fits)
    (hexponent : b.exponent = Amount.greatestExponent)
    (hsignificand : 2 * fractions - 3 ≤ b.significand) : ∃ y, rereadMagnitude b = .ok y := by
  have hlt : b.significand < 2 * fractions := hfits.significand_lt
  let n := 2 * fractions - 1 - b.significand
  have hb : b = ⟨b.negative, 2 * fractions - (n + 1), Amount.greatestExponent⟩ := by
    have hn : 2 * fractions - (n + 1) = b.significand := by omega
    rw [hn, ← hexponent]
  have hsome := rereadMagnitude_greatest b.negative n (by omega)
  rw [← hb] at hsome
  cases hreread : rereadMagnitude b with
  | error fault =>
    rw [hreread] at hsome
    cases hsome
  | ok y => exact ⟨y, rfl⟩

/-- A number without its sign can be read again. -/
theorem rereadMagnitude_ok (hfits : b.Fits) : ∃ y, rereadMagnitude b = .ok y := by
  by_cases hneg : (spelled (decimalOf b)).exponent < 0
  · exact scale_of_neg hneg _ _
  · by_cases hgreatest : b.exponent = Amount.greatestExponent ∧ 2 * fractions - 3 ≤ b.significand
    · exact rereadMagnitude_of_greatest hfits hgreatest.1 hgreatest.2
    · have hspelled : spelled (decimalOf b) = decimalOf b := by
        rw [spelled]
        refine if_neg fun hwhole ↦ hneg ?_
        rw [spelled, if_pos hwhole]
        exact (by decide : (-1 : Int) < 0)
      have hnone : decimalOf b ≠ ⟨0, 0⟩ := by
        intro hzero
        rw [hzero] at hneg
        exact hneg (by decide)
      have hb : b.significand ≠ 0 := fun hzero ↦ hnone (if_pos hzero)
      have hshortest : decimalOf b = b.shortest := if_neg hb
      rw [hspelled, hshortest, not_lt] at hneg
      rw [rereadMagnitude, hspelled, hshortest]
      exact assemble_shortest_ok hfits hb (yields_shortest hb hfits) hneg hgreatest

/-- A measure can be read again exactly if it is finite. -/
theorem reread_ok_iff : (∃ y, reread x = .ok y) ↔ x.isFinite := by
  rw [isFinite_iff]
  constructor
  · rintro ⟨y, hy⟩
    by_contra hnone
    rw [not_exists] at hnone
    rw [reread_of_not_finite hnone] at hy
    cases hy
  · rintro ⟨b, hb⟩
    obtain ⟨y, hy⟩ := rereadMagnitude_ok (fits_of_view hb)
    rw [reread_of_finite hb, hy]
    exact ⟨_, rfl⟩

end CloudLedger.StateFile
