import CloudLedger.Proofs.Amount.Overflow
import Mathlib.Data.Nat.Cast.Order.Field

/-!
# Results that round to a number

The quotient of two whole numbers, in units of a power of two, is rounded to a number if it lies in
the interval of that number.  Products are the quotients by one; so products and quotients of
numbers are known as soon as their exact values are known to lie in such an interval.
-/

namespace CloudLedger.Amount

open Float.Model Float.Model.UnpackedFloat

variable {b : Binary} {m n : Nat} {e : Int}

/-! ## Quotients -/

/-- The number that a quotient is rounded to, if its power of two is not too great. -/
def roundedQuotient (negative : Bool) (m n : Nat) (e : Int) : Binary :=
  if nearest m (n * 2 ^ (grid (m / n) e - e).toNat) = 2 * fractions then
    ⟨negative, fractions, grid (m / n) e + 1⟩
  else ⟨negative, nearest m (n * 2 ^ (grid (m / n) e - e).toNat), grid (m / n) e⟩

theorem roundedQuotient_one (negative : Bool) (m : Nat) (e : Int) :
    roundedQuotient negative m 1 e = rounding negative m e := by
  rw [roundedQuotient, Nat.div_one, Nat.one_mul, rounding]

theorem lt_mul_two_pow (m : Nat) (hn : 0 < n) : m < 2 ^ ((m / n).log2 + 1) * n :=
  calc m < (m / n + 1) * n := by
        rw [Nat.mul_comm]
        exact Nat.lt_mul_div_succ m hn
    _ ≤ 2 ^ ((m / n).log2 + 1) * n := Nat.mul_le_mul_right n Nat.lt_log2_self

theorem nearest_quotient_le (m : Nat) (hn : 0 < n) (e : Int) :
    nearest m (n * 2 ^ (grid (m / n) e - e).toNat) ≤ 2 * fractions := by
  have hgrid : ((m / n).log2 : Int) + e - 52 ≤ grid (m / n) e := le_max_left _ _
  apply nearest_le_of_lt
  calc m < 2 ^ ((m / n).log2 + 1) * n := lt_mul_two_pow m hn
    _ ≤ 2 ^ (53 + (grid (m / n) e - e).toNat) * n :=
        Nat.mul_le_mul_right n (Nat.pow_le_pow_right (by decide) (by omega))
    _ = 2 * fractions * (n * 2 ^ (grid (m / n) e - e).toNat) := by
        rw [Nat.pow_add, Nat.mul_comm n, ← Nat.mul_assoc]
        rfl

/-- A quotient that is no finer than the grid is rounded to the point of the grid nearest to it. -/
theorem roundWithAccuracy_quotient (negative : Bool) (m : Nat) (hn : 0 < n)
    (he : e ≤ grid (m / n) e) :
    roundWithAccuracy Format.binary64 (signOf negative) (m / n) e (accuracyOfFraction (m % n) n) =
      (roundedQuotient negative m n e).unpacked := by
  have hgrid : e + (grid (m / n) e - e).toNat = grid (m / n) e := by omega
  have hshift := shift_on_grid negative (le_max_right ((m / n).log2 + e - 52) leastExponent)
    (nearest_quotient_le m hn e)
  have hunit : 0 < n * 2 ^ (grid (m / n) e - e).toNat := Nat.mul_pos hn (Nat.two_pow_pos _)
  rw [roundWithAccuracy, shiftToTargetExponent, shiftToExponent, targetExponent_eq]
  dsimp only
  rw [hgrid, shiftRight_quotient m hn, roundedMantissa_mk m hunit, roundedQuotient]
  exact congrArg Binary.unpacked hshift

/-! ## The interval of a number -/

variable {g : Int} {j : Nat}

theorem mul_unit (a : Nat) (g : Int) (j : Nat) :
    (a : ℚ) * 2 ^ (g + j - 2) = a * 2 ^ j / 4 * 2 ^ g := by
  have hunit : (2 : ℚ) ^ (g + j - 2) = 2 ^ j * 2 ^ g / 4 := by
    rw [zpow_sub₀ (by norm_num), zpow_add₀ (by norm_num), zpow_natCast, mul_comm]
    norm_num
  rw [hunit]
  ring

/-- The bounds of an interval, compared with a quotient on whole numbers. -/
theorem unit_le_iff (a m : Nat) (hn : 0 < n) (g : Int) (j : Nat) :
    (a : ℚ) * 2 ^ (g + j - 2) ≤ (m : ℚ) / n * 2 ^ g ↔ a * 2 ^ j * n ≤ 4 * m := by
  have hn' : (0 : ℚ) < n := by exact_mod_cast hn
  have hpower : (0 : ℚ) < 2 ^ g := by positivity
  rw [mul_unit, mul_le_mul_iff_of_pos_right hpower, div_le_div_iff₀ (by norm_num) hn',
    mul_comm (m : ℚ)]
  exact_mod_cast Iff.rfl

theorem le_unit_iff (a m : Nat) (hn : 0 < n) (g : Int) (j : Nat) :
    (m : ℚ) / n * 2 ^ g ≤ (a : ℚ) * 2 ^ (g + j - 2) ↔ 4 * m ≤ a * 2 ^ j * n := by
  have hn' : (0 : ℚ) < n := by exact_mod_cast hn
  have hpower : (0 : ℚ) < 2 ^ g := by positivity
  rw [mul_unit, mul_le_mul_iff_of_pos_right hpower, div_le_div_iff₀ hn' (by norm_num),
    mul_comm (m : ℚ)]
  exact_mod_cast Iff.rfl

theorem whole_of_meets (hn : 0 < n) (hj : b.exponent = g + j)
    (h : b.interval.Meets ((m : ℚ) / n * 2 ^ g)) :
    b.interval.low * 2 ^ j * n ≤ 4 * m ∧ 4 * m ≤ b.interval.high * 2 ^ j * n ∧
      (b.significand % 2 = 1 →
        b.interval.low * 2 ^ j * n < 4 * m ∧ 4 * m < b.interval.high * 2 ^ j * n) := by
  have hscale : b.interval.scale = g + j - 2 := by rw [← hj]; rfl
  have hclosed : b.interval.closed = decide (b.significand % 2 = 0) := rfl
  rw [Interval.Meets, hscale, hclosed] at h
  split_ifs at h with heven
  · rw [unit_le_iff _ _ hn, le_unit_iff _ _ hn] at h
    refine ⟨h.1, h.2, fun hodd ↦ ?_⟩
    have : b.significand % 2 = 0 := of_decide_eq_true heven
    omega
  · rw [← not_le, ← not_le, le_unit_iff _ _ hn, unit_le_iff _ _ hn, not_le, not_le] at h
    exact ⟨h.1.le, h.2.le, fun _ ↦ h⟩

/-- On the grid of a number, the number is nearest to what lies in its interval. -/
theorem nearest_of_meets (hn : 0 < n) (h : b.interval.Meets ((m : ℚ) / n * 2 ^ b.exponent)) :
    nearest m n = b.significand := by
  have hlow : 4 * b.significand ≤ b.interval.low + 2 := by
    simp only [Binary.interval]
    split_ifs <;> omega
  have hlow' : 4 * (b.significand * n) ≤ b.interval.low * n + 2 * n := by
    rw [← Nat.mul_assoc, ← Nat.add_mul]
    exact Nat.mul_le_mul_right n hlow
  have hhigh : b.interval.high * n = 4 * (b.significand * n) + 2 * n := by
    rw [← Nat.mul_assoc, ← Nat.add_mul]
    rfl
  obtain ⟨hbelow, habove, hodd⟩ := whole_of_meets hn (j := 0) (by simp) h
  simp only [Nat.pow_zero, Nat.mul_one] at hbelow habove hodd
  refine nearest_eq hn (by omega) (by omega) fun hone ↦ ?_
  have hstrict := hodd hone
  omega

/-- On the finer grid below a power of two, twice the number is nearest to what lies in its interval
below it. -/
theorem nearest_of_meets_below (hn : 0 < n) (hb : b.significand = fractions)
    (hleast : leastExponent < b.exponent) (hg : b.exponent = g + 1)
    (h : b.interval.Meets ((m : ℚ) / n * 2 ^ g))
    (hless : (m : ℚ) / n * 2 ^ g < b.magnitude) : nearest m n = 2 * fractions := by
  obtain ⟨hbelow, -⟩ := whole_of_meets hn (j := 1) hg h
  have hlow : b.interval.low = 4 * fractions - 1 := by
    simp only [Binary.interval, hb, hleast, and_self, if_true]
  have hfractions : 0 < fractions := by decide
  have hupper : ¬ 4 * fractions * 2 ^ 1 * n ≤ 4 * m := by
    rw [← unit_le_iff _ _ hn g 1, not_le]
    refine hless.trans_eq ?_
    rw [Binary.magnitude, hb, hg, mul_unit, zpow_add₀ (by norm_num), zpow_one]
    push_cast
    ring
  have hstep : (4 * fractions - 1) * 2 ^ 1 * n + 2 * n = 4 * (2 * fractions * n) := by
    rw [← Nat.add_mul, ← Nat.mul_assoc]
    congr 1
  rw [hlow] at hbelow
  refine nearest_eq hn (by omega) ?_ fun hodd ↦ ?_
  · have hproduct : 4 * fractions * 2 ^ 1 * n = 4 * (2 * fractions * n) := by ring
    omega
  · omega

/-! ## The grid of a quotient -/

theorem quotient_lt (m : Nat) (hn : 0 < n) (e : Int) :
    (m : ℚ) / n * 2 ^ e < 2 ^ ((m / n).log2 + 1 + e) := by
  have hn' : (0 : ℚ) < n := by exact_mod_cast hn
  have hlt : (m : ℚ) < ((2 ^ ((m / n).log2 + 1) * n : Nat) : ℚ) := by
    exact_mod_cast lt_mul_two_pow m hn
  have hquotient : (m : ℚ) / n < 2 ^ ((m / n).log2 + 1) := by
    rw [div_lt_iff₀ hn']
    push_cast at hlt
    exact hlt
  rw [zpow_add₀ (by norm_num)]
  exact mul_lt_mul_of_pos_right (by exact_mod_cast hquotient) (by positivity)

theorem le_quotient (hle : n ≤ m) (hn : 0 < n) (e : Int) :
    (2 : ℚ) ^ ((m / n).log2 + e) ≤ (m : ℚ) / n * 2 ^ e := by
  have hpos : 0 < m / n := Nat.div_pos hle hn
  have hpower : ((m / n : Nat) : ℚ) * 2 ^ e ≤ (m : ℚ) / n * 2 ^ e :=
    mul_le_mul_of_nonneg_right Nat.cast_div_le (by positivity)
  exact (two_zpow_log2_le hpos e).trans hpower

theorem meets_lt (hfits : b.Fits) {x : ℚ} (h : b.interval.Meets x) : x < 2 ^ (b.exponent + 53) := by
  have hlt : b.significand < 2 ^ 53 := hfits.significand_lt
  have hhigh : (b.interval.high : ℚ) < 2 ^ 55 := by
    have hnat : b.interval.high < 2 ^ 55 := by
      change 4 * b.significand + 2 < 2 ^ 55
      omega
    exact_mod_cast hnat
  calc x ≤ b.interval.high * 2 ^ b.interval.scale := h.le.2
    _ < 2 ^ 55 * 2 ^ (b.exponent - 2) := mul_lt_mul_of_pos_right hhigh (by positivity)
    _ = 2 ^ (b.exponent + 53) := by
      rw [← zpow_natCast, ← zpow_add₀ (by norm_num)]
      congr 1
      push_cast
      ring

/-- What lies in the interval of a number is on no coarser grid than the number. -/
theorem grid_le_of_meets (hfits : b.Fits) (hn : 0 < n) (he : e ≤ grid (m / n) e)
    (h : b.interval.Meets ((m : ℚ) / n * 2 ^ e)) : grid (m / n) e ≤ b.exponent := by
  have hbase : (1 : ℚ) < 2 := by norm_num
  have hleast : leastExponent ≤ b.exponent := hfits.least_le
  have hgrid : grid (m / n) e = max ((m / n).log2 + e - 52) leastExponent := rfl
  by_cases hsmall : m < n
  · have hzero : m / n = 0 := Nat.div_eq_of_lt hsmall
    have hlog : (m / n).log2 = 0 := by rw [hzero]; decide
    omega
  · have hpower := (le_quotient (not_lt.mp hsmall) hn e).trans_lt (meets_lt hfits h)
    rw [zpow_lt_zpow_iff_right₀ hbase] at hpower
    omega

theorem two_zpow_add (b : Binary) (k : Nat) :
    (2 : ℚ) ^ (b.exponent - 2 + k) = 2 ^ k * 2 ^ b.interval.scale := by
  rw [zpow_add₀ (by norm_num), zpow_natCast, mul_comm]
  rfl

theorem two_zpow_add_last (b : Binary) :
    (2 : ℚ) ^ (b.exponent + 52) = 4 * fractions * 2 ^ b.interval.scale := by
  have hsum : b.exponent + 52 = b.exponent - 2 + (54 : Nat) := by omega
  rw [hsum, two_zpow_add, fractions]
  norm_num

/-- Only the interval of a power of two reaches below the numbers of its grid. -/
theorem eq_fractions_of_meets {x : ℚ} (hfits : b.Fits) (hmore : leastExponent < b.exponent)
    (h : b.interval.Meets x) (hvalue : x < 2 ^ (b.exponent + 52)) :
    b.significand = fractions ∧ b.interval.low = 4 * fractions - 1 ∧ x < b.magnitude := by
  have hfractions : fractions ≤ b.significand := hfits.fractions_le hmore
  have hlow : b.interval.low < 4 * fractions := by
    have hbelow := h.le.1.trans_lt hvalue
    rw [two_zpow_add_last] at hbelow
    exact_mod_cast lt_of_mul_lt_mul_right hbelow (by positivity)
  have hsignificand : b.significand = fractions := by
    simp only [Binary.interval] at hlow
    split_ifs at hlow <;> omega
  refine ⟨hsignificand, ?_, ?_⟩
  · simp only [Binary.interval, hsignificand, hmore, and_self, if_true]
  · have hexponent : (2 : ℚ) ^ b.exponent = 2 ^ 2 * 2 ^ b.interval.scale := by
      rw [← two_zpow_add]
      congr 1
      omega
    have hmagnitude : b.magnitude = 2 ^ (b.exponent + 52) := by
      rw [two_zpow_add_last, Binary.magnitude, hsignificand, hexponent]
      ring
    exact hvalue.trans_eq hmagnitude.symm

/-- The grid of what lies in the interval of a number is the number's own, or the next finer one if
the number is a power of two and the rest lies below it. -/
theorem grid_of_meets (hfits : b.Fits) (hn : 0 < n) (he : e ≤ grid (m / n) e)
    (h : b.interval.Meets ((m : ℚ) / n * 2 ^ e)) :
    grid (m / n) e = b.exponent ∨
      b.significand = fractions ∧ leastExponent < b.exponent ∧
        b.exponent = grid (m / n) e + 1 ∧ (m : ℚ) / n * 2 ^ e < b.magnitude := by
  have hbase : (1 : ℚ) < 2 := by norm_num
  have hgrid : grid (m / n) e = max ((m / n).log2 + e - 52) leastExponent := rfl
  rcases (grid_le_of_meets hfits hn he h).lt_or_eq with hless | hequal
  · right
    have hmore : leastExponent < b.exponent := by omega
    have hvalue : (m : ℚ) / n * 2 ^ e < 2 ^ (b.exponent + 52) :=
      (quotient_lt m hn e).trans_le (zpow_le_zpow_right₀ hbase.le (by omega))
    obtain ⟨hsignificand, hlow, hmagnitude⟩ := eq_fractions_of_meets hfits hmore h hvalue
    refine ⟨hsignificand, hmore, ?_, hmagnitude⟩
    have hpower : (2 : ℚ) ^ (b.exponent - 2 + (53 : Nat)) < 2 ^ ((m / n).log2 + 1 + e) :=
      calc (2 : ℚ) ^ (b.exponent - 2 + (53 : Nat)) = 2 ^ 53 * 2 ^ b.interval.scale :=
          two_zpow_add b 53
        _ ≤ b.interval.low * 2 ^ b.interval.scale := by
          apply mul_le_mul_of_nonneg_right _ (by positivity)
          rw [hlow]
          exact_mod_cast (by decide : 2 ^ 53 ≤ 4 * fractions - 1)
        _ ≤ (m : ℚ) / n * 2 ^ e := h.le.1
        _ < 2 ^ ((m / n).log2 + 1 + e) := quotient_lt m hn e
    rw [zpow_lt_zpow_iff_right₀ hbase] at hpower
    omega
  · exact .inl hequal

/-- What lies in the interval of a number is rounded to it. -/
theorem roundedQuotient_of_meets (negative : Bool) (hfits : b.Fits) (hn : 0 < n)
    (he : e ≤ grid (m / n) e) (h : b.interval.Meets ((m : ℚ) / n * 2 ^ e)) :
    roundedQuotient negative m n e = ⟨negative, b.significand, b.exponent⟩ := by
  let unit := 2 ^ (grid (m / n) e - e).toNat
  have hunit : 0 < n * unit := Nat.mul_pos hn (Nat.two_pow_pos _)
  have hvalue : (m : ℚ) / n * 2 ^ e = (m : ℚ) / (n * unit : Nat) * 2 ^ grid (m / n) e := by
    have hpower : (2 : ℚ) ^ grid (m / n) e = (unit : ℚ) * 2 ^ e := by
      have hsum : grid (m / n) e = ((grid (m / n) e - e).toNat : Int) + e := by omega
      have hcast : (unit : ℚ) = 2 ^ (grid (m / n) e - e).toNat := by
        change ((2 ^ (grid (m / n) e - e).toNat : Nat) : ℚ) = _
        push_cast
        rfl
      calc (2 : ℚ) ^ grid (m / n) e = 2 ^ (((grid (m / n) e - e).toNat : Int) + e) :=
            congrArg _ hsum
        _ = unit * 2 ^ e := by rw [zpow_add₀ (by norm_num), zpow_natCast, hcast]
    have hn' : (n : ℚ) ≠ 0 := by exact_mod_cast hn.ne'
    have hunit' : (unit : ℚ) ≠ 0 := by exact_mod_cast (Nat.two_pow_pos _).ne'
    rw [hpower]
    push_cast
    field_simp
  have hlt : b.significand ≠ 2 * fractions := hfits.significand_lt.ne
  rw [roundedQuotient]
  rcases grid_of_meets hfits hn he h with hgrid | ⟨hfractions, hleast, hgrid, hless⟩
  · rw [hvalue, hgrid] at h
    have hnearest : nearest m (n * unit) = b.significand := nearest_of_meets hunit h
    change (if nearest m (n * unit) = 2 * fractions then _
      else (⟨negative, nearest m (n * unit), _⟩ : Binary)) = _
    rw [hnearest, if_neg hlt, hgrid]
  · rw [hvalue] at h hless
    have hnearest : nearest m (n * unit) = 2 * fractions :=
      nearest_of_meets_below hunit hfractions hleast hgrid h hless
    rw [if_pos hnearest, hfractions, hgrid]

/-! ## Products and quotients of numbers -/

variable {x y : Float} {c r : Binary}

theorem view_pack_roundedQuotient (negative : Bool) (hr : r.Fits) (hn : 0 < n)
    (he : e ≤ grid (m / n) e) (h : r.interval.Meets ((m : ℚ) / n * 2 ^ e)) :
    view (.ofModel (.pack (roundedQuotient negative m n e).unpacked)) =
      .finite ⟨negative, r.significand, r.exponent⟩ := by
  have hsigned : Binary.Fits ⟨negative, r.significand, r.exponent⟩ :=
    ⟨hr.significand_lt, hr.least_le, hr.le_greatest, hr.fractions_le⟩
  rw [roundedQuotient_of_meets negative hr hn he h]
  exact view_pack_unpacked hsigned

/-- A product is the number in whose interval the exact product lies. -/
theorem view_mul (hx : view x = .finite b) (hy : view y = .finite c) (hbpos : 0 < b.significand)
    (hcpos : 0 < c.significand) (hr : r.Fits) (h : r.interval.Meets (b.magnitude * c.magnitude)) :
    view (x * y) = .finite ⟨b.negative ^^ c.negative, r.significand, r.exponent⟩ := by
  have hproduct : x * y = .ofModel (.pack (mul Format.binary64 b.unpacked c.unpacked)) := by
    rw [← unpack_of_view hx, ← unpack_of_view hy]
    rfl
  have hgrid := exponents_le_grid (fits_of_view hx) (fits_of_view hy) hbpos hcpos
  rw [magnitude_mul] at h
  rw [hproduct, mul_unpacked_of_pos (fits_of_view hx) (fits_of_view hy) hbpos hcpos,
    ← roundedQuotient_one]
  apply view_pack_roundedQuotient _ hr Nat.one_pos
  · rwa [Nat.div_one]
  · rwa [Nat.cast_one, div_one]

/-- How far a dividend is shifted before it is divided. -/
def dividendShift (b c : Binary) : Nat :=
  (b.exponent - c.exponent -
    Format.binary64.targetExponent (totalExponent b.significand b.exponent -
      totalExponent c.significand c.exponent)).toNat

theorem exponent_le_grid_quotient (hbpos : 0 < b.significand) (hcpos : 0 < c.significand) :
    b.exponent - c.exponent - dividendShift b c ≤
      grid (b.significand * 2 ^ dividendShift b c / c.significand)
        (b.exponent - c.exponent - dividendShift b c) := by
  let k := dividendShift b c
  let quotient := b.significand * 2 ^ k / c.significand
  have hlog : (b.significand.log2 : Int) + k - c.significand.log2 - 1 ≤ quotient.log2 := by
    by_cases hsmall : b.significand.log2 + k ≤ c.significand.log2 + 1
    · omega
    · have hbits : 2 ^ (b.significand.log2 + k - (c.significand.log2 + 1)) ≤ quotient := by
        rw [Nat.le_div_iff_mul_le hcpos]
        calc 2 ^ (b.significand.log2 + k - (c.significand.log2 + 1)) * c.significand
            ≤ 2 ^ (b.significand.log2 + k - (c.significand.log2 + 1)) *
                2 ^ (c.significand.log2 + 1) := Nat.mul_le_mul_left _ Nat.lt_log2_self.le
          _ = 2 ^ b.significand.log2 * 2 ^ k := by
            rw [← Nat.pow_add, ← Nat.pow_add]
            congr 1
            omega
          _ ≤ b.significand * 2 ^ k := Nat.mul_le_mul_right _ (Nat.log2_self_le hbpos.ne')
      have hpos : quotient ≠ 0 := (Nat.lt_of_lt_of_le (Nat.two_pow_pos _) hbits).ne'
      have hle := (Nat.le_log2 hpos).mpr hbits
      omega
  have hbits : (Format.binary64.mantissaBits : Int) = 53 := by decide
  have hleast : Format.binary64.minExponent = leastExponent := by decide
  have hk : dividendShift b c = k := rfl
  have hshift : k = (b.exponent - c.exponent - max (totalExponent b.significand b.exponent -
      totalExponent c.significand c.exponent - 53) leastExponent).toNat := by
    rw [← hbits, ← hleast]
    rfl
  rw [totalExponent, totalExponent] at hshift
  rw [hk, grid]
  change _ ≤ max ((quotient.log2 : Int) + _ - 52) _
  omega

theorem div_unpacked (hbpos : 0 < b.significand) (hcpos : 0 < c.significand) :
    div Format.binary64 b.unpacked c.unpacked =
      (roundedQuotient (b.negative ^^ c.negative) (b.significand * 2 ^ dividendShift b c)
        c.significand (b.exponent - c.exponent - dividendShift b c)).unpacked := by
  have hsign : signOf (b.negative ^^ c.negative) = signOf b.negative / signOf c.negative := by
    cases b.negative <;> cases c.negative <;> rfl
  rw [← roundWithAccuracy_quotient _ _ hcpos (exponent_le_grid_quotient hbpos hcpos), hsign,
    unpacked_of_pos hbpos, unpacked_of_pos hcpos]
  let target := Format.binary64.targetExponent (totalExponent b.significand b.exponent -
    totalExponent c.significand c.exponent)
  have hshift : (b.exponent - c.exponent - min (b.exponent - c.exponent) target).toNat =
      dividendShift b c := by
    change _ = (b.exponent - c.exponent - target).toNat
    omega
  have htarget : min (b.exponent - c.exponent) target =
      b.exponent - c.exponent - dividendShift b c := by
    omega
  rw [← htarget, ← hshift, ← Nat.shiftLeft_eq]
  rfl

theorem magnitude_div (b c : Binary) (k : Nat) :
    b.magnitude / c.magnitude =
      ((b.significand * 2 ^ k : Nat) : ℚ) / c.significand * 2 ^ (b.exponent - c.exponent - k) := by
  have hpower : (2 : ℚ) ^ (b.exponent - c.exponent - k) =
      2 ^ b.exponent / 2 ^ c.exponent / 2 ^ k := by
    rw [zpow_sub₀ (by norm_num), zpow_sub₀ (by norm_num), zpow_natCast]
  rw [hpower, Binary.magnitude, Binary.magnitude]
  push_cast
  field_simp

/-- A quotient is the number in whose interval the exact quotient lies. -/
theorem view_div (hx : view x = .finite b) (hy : view y = .finite c) (hbpos : 0 < b.significand)
    (hcpos : 0 < c.significand) (hr : r.Fits) (h : r.interval.Meets (b.magnitude / c.magnitude)) :
    view (x / y) = .finite ⟨b.negative ^^ c.negative, r.significand, r.exponent⟩ := by
  have hquotient : x / y = .ofModel (.pack (div Format.binary64 b.unpacked c.unpacked)) := by
    rw [← unpack_of_view hx, ← unpack_of_view hy]
    rfl
  rw [magnitude_div b c (dividendShift b c)] at h
  rw [hquotient, div_unpacked hbpos hcpos]
  exact view_pack_roundedQuotient _ hr hcpos (exponent_le_grid_quotient hbpos hcpos) h

end CloudLedger.Amount
