import CloudLedger.Proofs.Amount.Bits
import Mathlib.Algebra.Order.Ring.Abs

/-!
# Rounding

A result with more bits than a number holds is put on the grid of the numbers of its size, on the
point nearest to it.  It is a finite number exactly if it lies below the middle between the greatest
finite number and the power of two that would come next.
-/

namespace CloudLedger.Amount

open Float.Model Float.Model.UnpackedFloat

variable {m n : Nat} {e : Int} {negative : Bool}

/-! ## The nearest whole number -/

/-- The whole number nearest to `m / n`, of two the even one. -/
def nearest (m n : Nat) : Nat :=
  if 2 * (m % n) < n then m / n
  else if 2 * (m % n) = n then m / n + m / n % 2
  else m / n + 1

theorem nearest_one (m : Nat) : nearest m 1 = m := by
  rw [nearest, Nat.mod_one, Nat.div_one]
  rfl

theorem nearest_mul_le (m n : Nat) : 2 * (nearest m n * n) ≤ 2 * m + n := by
  have hsplit : n * (m / n) + m % n = m := Nat.div_add_mod m n
  have hparity : m / n % 2 < 2 := Nat.mod_lt _ (by decide)
  rw [nearest]
  split_ifs with hbelow hmiddle
  · rw [Nat.mul_comm (m / n)]
    omega
  · have hstep : (m / n + m / n % 2) * n ≤ n * (m / n) + n := by
      calc (m / n + m / n % 2) * n ≤ (m / n + 1) * n := Nat.mul_le_mul_right n (by omega)
        _ = n * (m / n) + n := by ring
    omega
  · have hstep : (m / n + 1) * n = n * (m / n) + n := by ring
    omega

theorem le_nearest_mul (m : Nat) (hn : 0 < n) : 2 * m ≤ 2 * (nearest m n * n) + n := by
  have hsplit : n * (m / n) + m % n = m := Nat.div_add_mod m n
  have hmod : m % n < n := Nat.mod_lt m hn
  rw [nearest]
  split_ifs with hbelow hmiddle
  · rw [Nat.mul_comm (m / n)]
    omega
  · have hstep : n * (m / n) ≤ (m / n + m / n % 2) * n := by
      rw [Nat.mul_comm n]
      exact Nat.mul_le_mul_right n (by omega)
    omega
  · have hstep : (m / n + 1) * n = n * (m / n) + n := by ring
    omega

theorem div_le_nearest (m n : Nat) : m / n ≤ nearest m n := by
  rw [nearest]
  split_ifs <;> omega

/-- What is nearer to the number before an even bound lies below it; a half goes to the bound. -/
theorem nearest_lt_iff (hn : 0 < n) {bound : Nat} (hpos : 0 < bound) (heven : bound % 2 = 0) :
    nearest m n < bound ↔ 2 * m < (2 * bound - 1) * n := by
  have hless : (bound - 1) * n + n = bound * n := by
    calc (bound - 1) * n + n = (bound - 1 + 1) * n := by ring
      _ = bound * n := by rw [Nat.sub_add_cancel hpos]
  have hproduct : (2 * bound - 1) * n + n = 2 * (bound * n) := by
    calc (2 * bound - 1) * n + n = (2 * bound - 1 + 1) * n := by ring
      _ = 2 * (bound * n) := by rw [Nat.sub_add_cancel (by omega)]; ring
  constructor
  · intro hlt
    by_contra hge
    have hquotient : m / n = bound - 1 := by
      have hle : bound - 1 ≤ m / n := by
        rw [Nat.le_div_iff_mul_le hn]
        omega
      have := div_le_nearest m n
      omega
    have hmod : n * (bound - 1) + m % n = m := hquotient ▸ Nat.div_add_mod m n
    rw [Nat.mul_comm] at hmod
    -- the number before the bound is odd, so that a half goes to the bound
    rw [nearest, hquotient] at hlt
    split_ifs at hlt <;> omega
  · intro hlt
    by_contra hge
    have hlower := le_nearest_mul m hn
    have hupper := nearest_mul_le m n
    have hreached : bound * n ≤ nearest m n * n := Nat.mul_le_mul_right n (not_lt.mp hge)
    omega

theorem nearest_le_of_lt {bound : Nat} (h : m < bound * n) : nearest m n ≤ bound := by
  have hupper : 2 * (nearest m n * n) ≤ 2 * m + n := nearest_mul_le m n
  have hless : nearest m n * n < (bound + 1) * n := by
    rw [Nat.add_mul]
    omega
  exact Nat.le_of_lt_succ (Nat.lt_of_mul_lt_mul_right hless)

/-- What lies no further than a half from a whole number, and less than a half from an odd one, is
nearest to it. -/
theorem nearest_eq {q : Nat} (hn : 0 < n) (hlow : 2 * (q * n) ≤ 2 * m + n)
    (hhigh : 2 * m ≤ 2 * (q * n) + n)
    (hodd : q % 2 = 1 → 2 * (q * n) < 2 * m + n ∧ 2 * m < 2 * (q * n) + n) : nearest m n = q := by
  have hsplit : m / n * n + m % n = m := by
    rw [Nat.mul_comm]
    exact Nat.div_add_mod m n
  have hmod : m % n < n := Nat.mod_lt m hn
  rw [nearest]
  -- the number is the quotient or the one after it
  rcases lt_trichotomy q (m / n) with hless | rfl | hmore
  · have hstep : q * n + n ≤ m / n * n := by
      rw [← Nat.succ_mul]
      exact Nat.mul_le_mul_right n hless
    omega
  · split_ifs <;> omega
  · by_cases hnext : q = m / n + 1
    · subst hnext
      have hstep : (m / n + 1) * n = m / n * n + n := Nat.succ_mul _ _
      split_ifs <;> omega
    · have hstep : m / n * n + 2 * n ≤ q * n := by
        rw [← Nat.add_mul]
        exact Nat.mul_le_mul_right n (by omega)
      omega

/-! ## Shifting -/

/-- Before any shift the remainder is compared with the half. -/
theorem ofMantissaAndAccuracy_fraction (q : Nat) {r : Nat} (hr : r < n) :
    ExtendedMantissa.ofMantissaAndAccuracy q (accuracyOfFraction r n) =
      ⟨q, decide (n ≤ 2 * r), decide (2 * r % n ≠ 0)⟩ := by
  rw [accuracyOfFraction]
  by_cases hzero : r = 0
  · have hpos : ¬ n ≤ 0 := by omega
    simp [hzero, ExtendedMantissa.ofMantissaAndAccuracy, hpos]
  · rw [if_neg hzero]
    rcases lt_trichotomy (2 * r) n with hless | hequal | hmore
    · have hrest : 2 * r % n ≠ 0 := by
        rw [Nat.mod_eq_of_lt hless]
        omega
      simp [compare_lt_iff_lt.mpr hless, ExtendedMantissa.ofMantissaAndAccuracy, hless, hrest]
    · simp [ExtendedMantissa.ofMantissaAndAccuracy, hequal]
    · have hrest : 2 * r % n ≠ 0 := by
        rw [Nat.mod_eq_sub_mod hmore.le, Nat.mod_eq_of_lt (by omega)]
        omega
      simp [compare_gt_iff_gt.mpr hmore, ExtendedMantissa.ofMantissaAndAccuracy, hmore.le, hrest]

/-- Shifting keeps the quotient, and of the remainder whether it reaches the half and whether it is
anything else than the half or nothing. -/
theorem shiftRight_quotient (m : Nat) (hn : 0 < n) (k : Nat) :
    ExtendedMantissa.ofMantissaAndAccuracy (m / n) (accuracyOfFraction (m % n) n) >>> k =
      ⟨m / (n * 2 ^ k), decide (n * 2 ^ k ≤ 2 * (m % (n * 2 ^ k))),
        decide (2 * (m % (n * 2 ^ k)) % (n * 2 ^ k) ≠ 0)⟩ := by
  induction k with
  | zero =>
    rw [Nat.pow_zero, Nat.mul_one]
    exact ofMantissaAndAccuracy_fraction (m / n) (Nat.mod_lt m hn)
  | succ k ih =>
    change (ExtendedMantissa.ofMantissaAndAccuracy (m / n) _ >>> k).shiftRightOne = _
    rw [Nat.pow_succ, ← Nat.mul_assoc, ih]
    generalize hunit : n * 2 ^ k = unit
    have hpos : 0 < unit := hunit ▸ Nat.mul_pos hn (Nat.two_pow_pos k)
    have hmod : m % unit < unit := Nat.mod_lt m hpos
    have hsplit : m % (unit * 2) = m % unit + unit * (m / unit % 2) := Nat.mod_mul
    have hquotient : m / (unit * 2) = m / unit / 2 := (Nat.div_div_eq_div_mul ..).symm
    have hround : m / unit % 2 ≠ 0 ↔ unit * 2 ≤ 2 * (m % (unit * 2)) := by
      rw [hsplit]
      rcases Nat.mod_two_eq_zero_or_one (m / unit) with heven | hodd
      · rw [heven]
        omega
      · rw [hodd]
        omega
    have hrest : 2 * (m % (unit * 2)) % (unit * 2) = 2 * (m % unit) := by
      rw [hsplit, Nat.mul_add, ← Nat.mul_assoc, Nat.mul_comm 2 unit, Nat.add_mul_mod_self_left,
        Nat.mod_eq_of_lt (by omega)]
    have hsticky : unit ≤ 2 * (m % unit) ∨ 2 * (m % unit) % unit ≠ 0 ↔ 2 * (m % unit) ≠ 0 := by
      constructor
      · intro h hzero
        rw [hzero, Nat.zero_mod] at h
        exact h.elim (fun hle ↦ absurd hpos (by omega)) fun hne ↦ hne rfl
      · intro hne
        by_contra h
        rw [not_or, not_le, not_not] at h
        exact hne (by rw [← Nat.mod_eq_of_lt h.1, h.2])
    rw [ExtendedMantissa.shiftRightOne, hquotient, hrest, ExtendedMantissa.mk.injEq]
    refine ⟨rfl, ?_, ?_⟩
    · rw [Bool.eq_iff_iff, bne_iff_ne, decide_eq_true_iff]
      exact hround
    · rw [Bool.eq_iff_iff, Bool.or_eq_true, decide_eq_true_iff, decide_eq_true_iff,
        decide_eq_true_iff]
      exact hsticky

theorem shiftRight_exact (m k : Nat) :
    ExtendedMantissa.ofMantissaAndAccuracy m .exact >>> k =
      ⟨m / 2 ^ k, decide (2 ^ k ≤ 2 * (m % 2 ^ k)), decide (2 * (m % 2 ^ k) % 2 ^ k ≠ 0)⟩ := by
  have hexact : accuracyOfFraction (m % 1) 1 = .exact := by
    rw [Nat.mod_one]
    rfl
  have hshift := shiftRight_quotient m Nat.one_pos k
  rwa [hexact, Nat.div_one, Nat.one_mul] at hshift

theorem roundedMantissa_mk (m : Nat) (hn : 0 < n) :
    (⟨m / n, decide (n ≤ 2 * (m % n)), decide (2 * (m % n) % n ≠ 0)⟩ :
      ExtendedMantissa).roundedMantissa = nearest m n := by
  have hmod : m % n < n := Nat.mod_lt m hn
  rw [ExtendedMantissa.roundedMantissa, nearest]
  by_cases hbelow : 2 * (m % n) < n
  · have hround : decide (n ≤ 2 * (m % n)) = false := by simpa using hbelow
    rw [if_pos hbelow, hround]
    cases decide (2 * (m % n) % n ≠ 0) <;> rfl
  · have hround : decide (n ≤ 2 * (m % n)) = true := by simpa using hbelow
    rw [if_neg hbelow, hround]
    by_cases hhalf : 2 * (m % n) = n
    · have hsticky : decide (2 * (m % n) % n ≠ 0) = false := by simp [hhalf]
      rw [if_pos hhalf, hsticky]
      rfl
    · have hrest : 2 * (m % n) % n ≠ 0 := by
        have hlow : 2 * (m % n) - n < n := by omega
        rw [Nat.mod_eq_sub_mod (by omega), Nat.mod_eq_of_lt hlow]
        omega
      rw [if_neg hhalf, decide_eq_true hrest]
      rfl

theorem roundedMantissa_shift (m k : Nat) :
    (ExtendedMantissa.ofMantissaAndAccuracy m .exact >>> k).roundedMantissa =
      nearest m (2 ^ k) := by
  rw [shiftRight_exact, roundedMantissa_mk m (Nat.two_pow_pos k)]

/-! ## The grid of a result -/

/-- The power of two of the numbers that are as large as a result, if they are numbers at all. -/
def grid (m : Nat) (e : Int) : Int := max (m.log2 + e - 52) leastExponent

/-- The number that a result is rounded to, if its power of two is not too great. -/
def rounding (negative : Bool) (m : Nat) (e : Int) : Binary :=
  if nearest m (2 ^ (grid m e - e).toNat) = 2 * fractions then
    ⟨negative, fractions, grid m e + 1⟩
  else ⟨negative, nearest m (2 ^ (grid m e - e).toNat), grid m e⟩

theorem targetExponent_eq (m : Nat) (e : Int) :
    Format.binary64.targetExponent (totalExponent m e) = grid m e := by
  have hbits : (Format.binary64.mantissaBits : Int) = 53 := by decide
  have hleast : Format.binary64.minExponent = leastExponent := by decide
  rw [Format.targetExponent, totalExponent, grid, hbits, hleast]
  congr 1
  omega

theorem nearest_le (m : Nat) (e : Int) :
    nearest m (2 ^ (grid m e - e).toNat) ≤ 2 * fractions := by
  have hgrid : (m.log2 : Int) + e - 52 ≤ grid m e := le_max_left _ _
  apply nearest_le_of_lt
  calc m < 2 ^ (m.log2 + 1) := Nat.lt_log2_self
    _ ≤ 2 ^ (53 + (grid m e - e).toNat) := Nat.pow_le_pow_right (by decide) (by omega)
    _ = 2 * fractions * 2 ^ (grid m e - e).toNat := Nat.pow_add ..

/-- A result that is not too small has as many bits as a number holds. -/
theorem fractions_le_nearest (hm : 0 < m) (he : e ≤ grid m e) (hgrid : leastExponent < grid m e) :
    fractions ≤ nearest m (2 ^ (grid m e - e).toNat) := by
  have hgrid' : grid m e = m.log2 + e - 52 := by
    rw [grid] at hgrid ⊢
    omega
  have hm' : fractions * 2 ^ (grid m e - e).toNat ≤ m :=
    calc fractions * 2 ^ (grid m e - e).toNat = 2 ^ (52 + (grid m e - e).toNat) := by
          rw [Nat.pow_add]
          rfl
      _ = 2 ^ m.log2 := by congr 1; omega
      _ ≤ m := Nat.log2_self_le hm.ne'
  calc fractions ≤ m / 2 ^ (grid m e - e).toNat :=
        (Nat.le_div_iff_mul_le (Nat.two_pow_pos _)).mpr hm'
    _ ≤ nearest m (2 ^ (grid m e - e).toNat) := div_le_nearest _ _

theorem shiftToTargetExponent_exact (m : Nat) (e : Int) :
    shiftToTargetExponent Format.binary64 m e .exact =
      (ExtendedMantissa.ofMantissaAndAccuracy m .exact >>> (grid m e - e).toNat,
        e + (grid m e - e).toNat) := by
  rw [shiftToTargetExponent, targetExponent_eq, shiftToExponent]

/-- What is on the grid stays there, unless it takes one bit too many. -/
theorem shift_on_grid (negative : Bool) {q : Nat} {t : Int} (ht : leastExponent ≤ t)
    (hq : q ≤ 2 * fractions) :
    (⟨negative, (shiftToTargetExponent Format.binary64 q t .exact).1.mantissa,
      (shiftToTargetExponent Format.binary64 q t .exact).2⟩ : Binary) =
      if q = 2 * fractions then ⟨negative, fractions, t + 1⟩ else ⟨negative, q, t⟩ := by
  rw [shiftToTargetExponent_exact, shiftRight_exact]
  by_cases hfull : q = 2 * fractions
  · have hlog : q.log2 = 53 := by
      rw [hfull]
      decide
    have hstep : (grid q t - t).toNat = 1 := by
      rw [grid, hlog]
      omega
    rw [if_pos hfull, hstep, hfull]
    rfl
  · have hlog : q.log2 ≤ 52 := by
      rcases Nat.eq_zero_or_pos q with hzero | hpos
      · simp [hzero]
      · exact Nat.le_of_lt_succ ((Nat.log2_lt hpos.ne').mpr (Nat.lt_of_le_of_ne hq hfull))
    have hstep : (grid q t - t).toNat = 0 := by
      rw [grid]
      omega
    rw [if_neg hfull, hstep]
    simp

/-- A result that is no finer than the grid is rounded to the point of the grid nearest to it. -/
theorem roundWithAccuracy_exact (negative : Bool) (m : Nat) (he : e ≤ grid m e) :
    roundWithAccuracy Format.binary64 (signOf negative) m e .exact =
      (rounding negative m e).unpacked := by
  have hgrid : e + (grid m e - e).toNat = grid m e := by omega
  have hshift := shift_on_grid negative (le_max_right (m.log2 + e - 52) leastExponent)
    (nearest_le m e)
  rw [roundWithAccuracy, shiftToTargetExponent_exact m e, hgrid]
  dsimp only
  rw [roundedMantissa_shift, rounding]
  exact congrArg Binary.unpacked hshift

/-- A rounded result is a number if its power of two is not too great. -/
theorem fits_rounding (negative : Bool) (hm : 0 < m) (he : e ≤ grid m e)
    (hhigh : (rounding negative m e).exponent ≤ greatestExponent) :
    (rounding negative m e).Fits := by
  have hle := nearest_le m e
  have hleast : leastExponent ≤ grid m e := le_max_right _ _
  rw [rounding] at hhigh ⊢
  split_ifs at hhigh ⊢ with hfull
  · exact ⟨(by decide : fractions < 2 * fractions), hleast.trans (Int.le_add_one le_rfl), hhigh,
      fun _ ↦ le_rfl⟩
  · exact ⟨Nat.lt_of_le_of_ne hle hfull, hleast, hhigh, fractions_le_nearest hm he⟩

/-! ## Overflow -/

/-- The middle between the greatest finite number and the power of two that would come next. -/
def overflow : ℚ := (2 ^ 54 - 1) * 2 ^ 970

theorem two_zpow_log2_le (hm : 0 < m) (e : Int) : (2 : ℚ) ^ (m.log2 + e) ≤ m * 2 ^ e := by
  have hle : ((2 ^ m.log2 : Nat) : ℚ) ≤ m := by exact_mod_cast Nat.log2_self_le hm.ne'
  rw [zpow_add₀ (by norm_num), zpow_natCast]
  exact mul_le_mul_of_nonneg_right (by exact_mod_cast hle) (by positivity)

theorem lt_two_zpow_log2 (m : Nat) (e : Int) : (m : ℚ) * 2 ^ e < 2 ^ (m.log2 + 1 + e) := by
  have hlt : (m : ℚ) < ((2 ^ (m.log2 + 1) : Nat) : ℚ) := by exact_mod_cast Nat.lt_log2_self
  have hpower : (2 : ℚ) ^ (m.log2 + 1 + e) = ((2 ^ (m.log2 + 1) : Nat) : ℚ) * 2 ^ e := by
    rw [zpow_add₀ (by norm_num)]
    norm_cast
  rw [hpower]
  exact mul_lt_mul_of_pos_right hlt (by positivity)

theorem rounding_exponent_mem (negative : Bool) (m : Nat) (e : Int) :
    grid m e ≤ (rounding negative m e).exponent ∧
      (rounding negative m e).exponent ≤ grid m e + 1 := by
  rw [rounding]
  split_ifs
  · exact ⟨Int.le_add_one le_rfl, le_rfl⟩
  · exact ⟨le_rfl, Int.le_add_one le_rfl⟩

/-- On the last grid the exponent stays unless the significand is rounded up to a power of two. -/
theorem rounding_exponent_le_iff_of_last (negative : Bool) (he : e ≤ grid m e)
    (hequal : grid m e = greatestExponent) :
    (rounding negative m e).exponent ≤ greatestExponent ↔ (m : ℚ) * 2 ^ e < overflow := by
  have hle := nearest_le m e
  have hrounding : (rounding negative m e).exponent ≤ greatestExponent ↔
      nearest m (2 ^ (grid m e - e).toNat) < 2 * fractions := by
    rw [rounding]
    split_ifs with hfull
    · refine iff_of_false ?_ (by omega)
      change ¬ grid m e + 1 ≤ greatestExponent
      omega
    · exact iff_of_true hequal.le (Nat.lt_of_le_of_ne hle hfull)
  have hunit : (2 : ℚ) ^ e * 2 ^ (grid m e - e).toNat = 2 * 2 ^ 970 := by
    have hsum : e + ((grid m e - e).toNat : Int) = 1 + (970 : Nat) := by
      rw [greatestExponent] at hequal
      omega
    rw [← zpow_natCast, ← zpow_add₀ (by norm_num), hsum, zpow_add₀ (by norm_num), zpow_natCast,
      zpow_one]
  have hpower : (0 : ℚ) < 2 ^ (grid m e - e).toNat := by positivity
  have hbound : (2 * (2 * fractions) - 1 : Nat) = 2 ^ 54 - 1 := by decide
  rw [hrounding, nearest_lt_iff (Nat.two_pow_pos _) (by decide) (by decide), hbound]
  calc 2 * m < (2 ^ 54 - 1) * 2 ^ (grid m e - e).toNat
      ↔ 2 * (m : ℚ) < (2 ^ 54 - 1) * 2 ^ (grid m e - e).toNat := by
        rw [← Nat.cast_lt (α := ℚ)]
        push_cast
        norm_num
    _ ↔ 2 * (m : ℚ) * 2 ^ 970 < (2 ^ 54 - 1) * 2 ^ (grid m e - e).toNat * 2 ^ 970 :=
        (mul_lt_mul_iff_of_pos_right (by positivity)).symm
    _ ↔ m * 2 ^ e * 2 ^ (grid m e - e).toNat < overflow * 2 ^ (grid m e - e).toNat := by
        have hleft : (m : ℚ) * 2 ^ e * 2 ^ (grid m e - e).toNat = 2 * m * 2 ^ 970 := by
          rw [mul_assoc, hunit, ← mul_assoc, mul_comm (m : ℚ)]
        have hright : overflow * 2 ^ (grid m e - e).toNat =
            (2 ^ 54 - 1) * 2 ^ (grid m e - e).toNat * 2 ^ 970 := mul_right_comm _ _ _
        rw [hleft, hright]
    _ ↔ m * 2 ^ e < overflow := mul_lt_mul_iff_of_pos_right hpower

theorem rounding_exponent_le_iff (negative : Bool) (hm : 0 < m) (he : e ≤ grid m e) :
    (rounding negative m e).exponent ≤ greatestExponent ↔ (m : ℚ) * 2 ^ e < overflow := by
  have hgrid : (m.log2 : Int) + e - 52 ≤ grid m e := le_max_left _ _
  have hexponent := rounding_exponent_mem negative m e
  have hone : (1 : ℚ) ≤ 2 := by norm_num
  rcases lt_trichotomy (grid m e) greatestExponent with hlow | hequal | hhigh
  · -- both hold
    have hvalue : (m : ℚ) * 2 ^ e < overflow :=
      calc (m : ℚ) * 2 ^ e < 2 ^ (m.log2 + 1 + e) := lt_two_zpow_log2 m e
        _ ≤ 2 ^ ((53 : Int) + (970 : Nat)) := by
          rw [greatestExponent] at hlow
          exact zpow_le_zpow_right₀ hone (by omega)
        _ = 2 ^ 53 * 2 ^ 970 := by rw [zpow_add₀ (by norm_num), zpow_natCast]; rfl
        _ ≤ overflow := mul_le_mul_of_nonneg_right (by norm_num) (by positivity)
    exact iff_of_true (by omega) hvalue
  · exact rounding_exponent_le_iff_of_last negative he hequal
  · -- neither holds
    have hvalue : overflow ≤ (m : ℚ) * 2 ^ e :=
      calc overflow ≤ 2 ^ 54 * 2 ^ 970 := mul_le_mul_of_nonneg_right (by norm_num) (by positivity)
        _ = 2 ^ ((54 : Int) + (970 : Nat)) := by rw [zpow_add₀ (by norm_num), zpow_natCast]; rfl
        _ ≤ 2 ^ (m.log2 + e) := by
            rw [greatestExponent, grid, leastExponent] at hhigh
            exact zpow_le_zpow_right₀ hone (by omega)
        _ ≤ m * 2 ^ e := two_zpow_log2_le hm e
    exact iff_of_false (by omega) (not_lt.mpr hvalue)

/-- A rounded result is finite exactly if the result itself does not overflow. -/
theorem isFinite_pack_rounding (negative : Bool) (hm : 0 < m) (he : e ≤ grid m e) :
    (Float.ofModel (.pack (rounding negative m e).unpacked)).isFinite ↔
      (m : ℚ) * 2 ^ e < overflow := by
  rw [← rounding_exponent_le_iff negative hm he]
  constructor
  · intro hfinite
    by_contra hhigh
    rw [not_le] at hhigh
    have hne : (rounding negative m e).significand ≠ 0 := by
      have hgrid : leastExponent < grid m e := by
        have hstep := (rounding_exponent_mem negative m e).2
        rw [greatestExponent] at hhigh
        rw [leastExponent]
        omega
      have hbits := fractions_le_nearest hm he hgrid
      have hfractions : 0 < fractions := by decide
      rw [rounding]
      split_ifs <;> dsimp only <;> omega
    rw [Binary.unpacked, dif_neg hne] at hfinite
    exact not_isFinite_pack _ hhigh hfinite
  · intro hhigh
    exact isFinite_iff.mpr ⟨_, view_pack_unpacked (fits_rounding negative hm he hhigh)⟩

end CloudLedger.Amount
