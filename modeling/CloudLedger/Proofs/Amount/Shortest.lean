import CloudLedger.Amount.Shortest
import Mathlib.Algebra.Order.Field.Power
import Mathlib.Data.Rat.Cast.Order
import Mathlib.Tactic.FieldSimp
import Mathlib.Tactic.Linarith
import Mathlib.Tactic.Positivity
import Mathlib.Tactic.Ring

/-!
# Shortest decimals lie where they round back

The shortest decimal of a number lies in the interval of the reals that round to the number, and one
of the grids that are tried always offers it.  It has few digits, because a grid is tried only after
the coarser one before it has missed the interval, so that its points are no closer than a tenth of
the interval's width.
-/

namespace CloudLedger.Amount

/-! ## The numbers of 64 bits -/

/-- The greatest power of two of a finite number. -/
def greatestExponent : Int := 971

/-- Whether a number is one that 64 bits can hold. -/
structure Binary.Fits (b : Binary) : Prop where
  significand_lt : b.significand < 2 * fractions
  least_le : leastExponent ≤ b.exponent
  le_greatest : b.exponent ≤ greatestExponent
  fractions_le : leastExponent < b.exponent → fractions ≤ b.significand

theorem fits_of_view {x : Float} {b : Binary} (h : view x = .finite b) : b.Fits := by
  have hmod : x.toBits.toNat % fractions < fractions := Nat.mod_lt _ (by decide)
  have hfield : x.toBits.toNat / fractions % exponentFields < exponentFields :=
    Nat.mod_lt _ (by decide)
  have hfractions : 0 < fractions := by decide
  simp only [view] at h
  split at h
  · split at h <;> cases h
  · rename_i hlast
    split at h
    · cases h
      exact ⟨Nat.lt_of_lt_of_le hmod (Nat.le_mul_of_pos_left _ (by decide)), le_rfl,
        (by decide : leastExponent ≤ greatestExponent), fun hlt ↦ absurd hlt (lt_irrefl _)⟩
    · cases h
      have hle : x.toBits.toNat / fractions % exponentFields ≤ 2046 := by
        rw [exponentFields] at *
        omega
      refine ⟨?_, ?_, ?_, fun _ ↦ Nat.le_add_right _ _⟩
      · change fractions + x.toBits.toNat % fractions < 2 * fractions
        omega
      · change leastExponent ≤ leastExponent + _
        omega
      · change leastExponent + ((x.toBits.toNat / fractions % exponentFields : Nat) - 1) ≤ 971
        rw [leastExponent]
        omega

/-- The number without its sign. -/
def Binary.magnitude (b : Binary) : ℚ := b.significand * 2 ^ b.exponent

/-- The number that a decimal denotes. -/
def Decimal.value (d : Decimal) : ℚ := d.digits * 10 ^ d.exponent

/-! ## Grids -/

theorem zpow_eq_div (a : ℚ) (ha : a ≠ 0) (n : ℤ) : a ^ n = a ^ n.toNat / a ^ (-n).toNat := by
  have hn : n = (n.toNat : ℤ) - ((-n).toNat : ℤ) := by omega
  calc a ^ n = a ^ ((n.toNat : ℤ) - ((-n).toNat : ℤ)) := congrArg _ hn
    _ = a ^ n.toNat / a ^ (-n).toNat := by rw [zpow_sub₀ ha, zpow_natCast, zpow_natCast]

namespace Interval

variable {i : Interval} {k : Int} {d : Decimal}

/-- Whether a real lies in the interval. -/
def Meets (i : Interval) (q : ℚ) : Prop :=
  if i.closed then i.low * 2 ^ i.scale ≤ q ∧ q ≤ i.high * 2 ^ i.scale
  else i.low * 2 ^ i.scale < q ∧ q < i.high * 2 ^ i.scale

theorem Meets.le {q : ℚ} (h : i.Meets q) : i.low * 2 ^ i.scale ≤ q ∧ q ≤ i.high * 2 ^ i.scale := by
  rw [Meets] at h
  split_ifs at h
  · exact h
  · exact ⟨h.1.le, h.2.le⟩

/-- The factor of the interval's unit over the power of ten, above the line. -/
def up (i : Interval) (k : Int) : Nat := Nat.pow 2 i.scale.toNat * Nat.pow 10 (-k).toNat

/-- The factor of the interval's unit over the power of ten, below the line. -/
def down (i : Interval) (k : Int) : Nat := Nat.pow 2 (-i.scale).toNat * Nat.pow 10 k.toNat

theorem up_pos (i : Interval) (k : Int) : 0 < i.up k :=
  Nat.mul_pos (Nat.pow_pos (by decide)) (Nat.pow_pos (by decide))

theorem down_pos (i : Interval) (k : Int) : 0 < i.down k :=
  Nat.mul_pos (Nat.pow_pos (by decide)) (Nat.pow_pos (by decide))

theorem up_mul (i : Interval) (k : Int) : (i.up k : ℚ) * 10 ^ k = i.down k * 2 ^ i.scale := by
  rw [zpow_eq_div 10 (by norm_num) k, zpow_eq_div 2 (by norm_num) i.scale, up, down, Nat.pow_eq,
    Nat.pow_eq, Nat.pow_eq, Nat.pow_eq]
  push_cast
  have h2 : (2 : ℚ) ^ (-i.scale).toNat ≠ 0 := by positivity
  have h10 : (10 : ℚ) ^ (-k).toNat ≠ 0 := by positivity
  field_simp

/-- On whole numbers both the unit and the power of ten are taken by this factor. -/
theorem factor_pos (i : Interval) (k : Int) : (0 : ℚ) < i.up k / 2 ^ i.scale :=
  div_pos (Nat.cast_pos.mpr (i.up_pos k)) (by positivity)

theorem cast_mul_up (i : Interval) (k : Int) (m : Nat) :
    ((m * i.up k : Nat) : ℚ) = m * 2 ^ i.scale * (i.up k / 2 ^ i.scale) := by
  have hunit : (2 : ℚ) ^ i.scale ≠ 0 := by positivity
  rw [Nat.cast_mul, mul_assoc, mul_div_cancel₀ _ hunit]

theorem cast_mul_down (i : Interval) (k : Int) (n : Nat) :
    ((n * i.down k : Nat) : ℚ) = n * 10 ^ k * (i.up k / 2 ^ i.scale) := by
  have hunit : (2 : ℚ) ^ i.scale ≠ 0 := by positivity
  rw [Nat.cast_mul, mul_assoc, ← mul_div_assoc, mul_comm (10 ^ k : ℚ), up_mul,
    mul_div_cancel_right₀ _ hunit]

theorem mul_up_le_iff (i : Interval) (k : Int) (m n : Nat) :
    m * i.up k ≤ n * i.down k ↔ (m : ℚ) * 2 ^ i.scale ≤ n * 10 ^ k := by
  rw [← Nat.cast_le (α := ℚ), cast_mul_up, cast_mul_down]
  exact mul_le_mul_iff_of_pos_right (i.factor_pos k)

theorem mul_down_le_iff (i : Interval) (k : Int) (m n : Nat) :
    n * i.down k ≤ m * i.up k ↔ (n : ℚ) * 10 ^ k ≤ m * 2 ^ i.scale := by
  rw [← Nat.cast_le (α := ℚ), cast_mul_up, cast_mul_down]
  exact mul_le_mul_iff_of_pos_right (i.factor_pos k)

/-- Whether a point of a grid lies in the interval, on whole numbers. -/
def within (i : Interval) (k : Int) (n : Nat) : Bool :=
  if i.closed then i.low * i.up k ≤ n * i.down k && n * i.down k ≤ i.high * i.up k
  else i.low * i.up k < n * i.down k && n * i.down k < i.high * i.up k

theorem within_iff (i : Interval) (k : Int) (n : Nat) : i.within k n ↔ i.Meets (n * 10 ^ k) := by
  rw [within, Meets]
  split_ifs
  · rw [Bool.and_eq_true, decide_eq_true_iff, decide_eq_true_iff, mul_up_le_iff, mul_down_le_iff]
  · rw [Bool.and_eq_true, decide_eq_true_iff, decide_eq_true_iff, ← not_le, ← not_le,
      mul_up_le_iff, mul_down_le_iff, not_le, not_le]

/-- A grid offers a point that lies in the interval, unless both points beside the number lie
outside it. -/
theorem onGrid?_cases (i : Interval) (k : Int) :
    (∃ n, i.within k n ∧ i.onGrid? k = some ⟨n, k⟩) ∨
      (¬ i.within k (i.value * i.up k / i.down k) ∧
        ¬ i.within k (i.value * i.up k / i.down k + 1) ∧ i.onGrid? k = none) := by
  unfold onGrid?
  extract_lets up down within below
  split
  · rename_i hbelow habove
    exact .inr ⟨ne_true_of_eq_false hbelow, ne_true_of_eq_false habove, rfl⟩
  · rename_i hbelow _
    exact .inl ⟨_, hbelow, rfl⟩
  · rename_i _ habove
    exact .inl ⟨_, habove, rfl⟩
  · rename_i hbelow habove
    split
    · exact .inl ⟨_, hbelow, rfl⟩
    · exact .inl ⟨_, habove, rfl⟩

/-- A point that a grid offers lies in the interval. -/
theorem onGrid?_eq_some (h : i.onGrid? k = some d) : d.exponent = k ∧ i.Meets d.value := by
  obtain ⟨n, hwithin, hpoint⟩ | ⟨-, -, hnone⟩ := i.onGrid?_cases k
  · obtain rfl : ⟨n, k⟩ = d := Option.some.inj (hpoint.symm.trans h)
    exact ⟨rfl, (i.within_iff k n).mp hwithin⟩
  · cases hnone.symm.trans h

/-- A grid that offers no point is no finer than the interval. -/
theorem width_le_of_onGrid?_eq_none (hlow : i.low < i.value) (hhigh : i.value < i.high)
    (h : i.onGrid? k = none) : ((i.high : ℚ) - i.low) * 2 ^ i.scale ≤ 10 ^ k := by
  have hunit : (0 : ℚ) < 2 ^ i.scale := by positivity
  have hlow' : (i.low : ℚ) * 2 ^ i.scale < i.value * 2 ^ i.scale :=
    mul_lt_mul_of_pos_right (by exact_mod_cast hlow) hunit
  have hhigh' : (i.value : ℚ) * 2 ^ i.scale < i.high * 2 ^ i.scale :=
    mul_lt_mul_of_pos_right (by exact_mod_cast hhigh) hunit
  -- the two points beside the number
  let below := i.value * i.up k / i.down k
  have hbelow : (below : ℚ) * 10 ^ k ≤ i.value * 2 ^ i.scale :=
    (mul_down_le_iff i k _ _).mp (Nat.div_mul_le_self _ _)
  have habove : (i.value : ℚ) * 2 ^ i.scale < ((below + 1 : Nat) : ℚ) * 10 ^ k := by
    rw [← not_le, ← mul_down_le_iff, not_le]
    rw [Nat.mul_comm (below + 1)]
    exact Nat.lt_mul_div_succ _ (i.down_pos k)
  have hmiss : ¬ i.within k below ∧ ¬ i.within k (below + 1) := by
    obtain ⟨n, -, hpoint⟩ | ⟨hbelow, habove, -⟩ := i.onGrid?_cases k
    · cases hpoint.symm.trans h
    · exact ⟨hbelow, habove⟩
  rw [within_iff, within_iff, Meets, Meets] at hmiss
  have hstep : ((below + 1 : Nat) : ℚ) * 10 ^ k = below * 10 ^ k + 10 ^ k := by
    push_cast
    ring
  -- the point below lies before the interval and the one above after it
  have hends : (below : ℚ) * 10 ^ k ≤ i.low * 2 ^ i.scale ∧
      i.high * 2 ^ i.scale ≤ ((below + 1 : Nat) : ℚ) * 10 ^ k := by
    split_ifs at hmiss
    · constructor
      · by_contra hlt
        exact hmiss.1 ⟨(not_le.mp hlt).le, hbelow.trans hhigh'.le⟩
      · by_contra hlt
        exact hmiss.2 ⟨(hlow'.trans habove).le, (not_le.mp hlt).le⟩
    · constructor
      · by_contra hlt
        exact hmiss.1 ⟨not_le.mp hlt, hbelow.trans_lt hhigh'⟩
      · by_contra hlt
        exact hmiss.2 ⟨hlow'.trans habove, not_le.mp hlt⟩
  rw [hstep] at hends
  linarith [hends.1, hends.2, sub_mul (i.high : ℚ) i.low (2 ^ i.scale)]

end Interval

/-! ## Powers of two among powers of ten -/

/-- The 100000th power of two lies between powers of ten that follow one another. -/
theorem powers_close : 10 ^ 30102 ≤ 2 ^ 100000 ∧ 2 ^ 100000 ≤ 10 ^ 30103 := by
  decide +kernel

theorem two_pow_between (n : ℕ) :
    (10 : ℚ) ^ (30102 * (n : ℤ)) ≤ 2 ^ (100000 * (n : ℤ)) ∧
      (2 : ℚ) ^ (100000 * (n : ℤ)) ≤ 10 ^ (30103 * (n : ℤ)) := by
  have hpower : ∀ a b : ℕ, (a : ℚ) ^ (b * (n : ℤ)) = ((a ^ b : ℕ) : ℚ) ^ n := by
    intro a b
    rw [Nat.cast_pow, ← pow_mul, ← zpow_natCast, Nat.cast_mul]
  have hlower := pow_le_pow_left₀ (Nat.cast_nonneg _) (Nat.cast_le (α := ℚ).mpr powers_close.1) n
  have hupper := pow_le_pow_left₀ (Nat.cast_nonneg _) (Nat.cast_le (α := ℚ).mpr powers_close.2) n
  rw [← hpower, ← hpower] at hlower hupper
  exact ⟨hlower, hupper⟩

/-- A power of two is close to a power of ten, in their 100000th powers. -/
theorem two_zpow_between {p : ℤ} (hlow : -1100 ≤ p) (hhigh : p ≤ 1100) :
    (10 : ℚ) ^ (30103 * p - 1100) ≤ 2 ^ (100000 * p) ∧
      (2 : ℚ) ^ (100000 * p) ≤ 10 ^ (30103 * p + 1100) := by
  have hten : ∀ {m n : ℤ}, m ≤ n → (10 : ℚ) ^ m ≤ 10 ^ n := zpow_le_zpow_right₀ (by norm_num)
  obtain ⟨n, rfl | rfl⟩ := p.eq_nat_or_neg
  · obtain ⟨hlower, hupper⟩ := two_pow_between n
    exact ⟨(hten (by omega)).trans hlower, hupper.trans (hten (by omega))⟩
  · obtain ⟨hlower, hupper⟩ := two_pow_between n
    have hinverse : (2 : ℚ) ^ (100000 * -(n : ℤ)) = (2 ^ (100000 * (n : ℤ)))⁻¹ := by
      rw [← zpow_neg, mul_neg]
    rw [hinverse]
    constructor
    · calc (10 : ℚ) ^ (30103 * -(n : ℤ) - 1100) ≤ 10 ^ (-(30103 * (n : ℤ))) := hten (by omega)
        _ = (10 ^ (30103 * (n : ℤ)))⁻¹ := zpow_neg _ _
        _ ≤ (2 ^ (100000 * (n : ℤ)))⁻¹ := inv_anti₀ (by positivity) hupper
    · calc ((2 : ℚ) ^ (100000 * (n : ℤ)))⁻¹ ≤ (10 ^ (30102 * (n : ℤ)))⁻¹ :=
            inv_anti₀ (by positivity) hlower
        _ = 10 ^ (-(30102 * (n : ℤ))) := (zpow_neg _ _).symm
        _ ≤ 10 ^ (30103 * -(n : ℤ) + 1100) := hten (by omega)

theorem le_of_pow_zpow_le {a b : ℚ} {m n : ℤ} (ha : 0 < a) (hb : 0 < b)
    (h : a ^ (100000 * m) ≤ b ^ (100000 * n)) : a ^ m ≤ b ^ n := by
  rw [mul_comm, zpow_mul, mul_comm, zpow_mul] at h
  exact (pow_le_pow_iff_left₀ (by positivity) (by positivity) (by decide : 100000 ≠ 0)).mp
    (by exact_mod_cast h)

/-- How a power of two lies among the powers of ten. -/
theorem two_zpow_le_ten_zpow {p : ℤ} (hlow : -1100 ≤ p) (hhigh : p ≤ 1100) :
    (2 : ℚ) ^ p ≤ 10 ^ (p * 30103 / 100000 + 2) := by
  apply le_of_pow_zpow_le (by norm_num) (by norm_num)
  exact (two_zpow_between hlow hhigh).2.trans (zpow_le_zpow_right₀ (by norm_num) (by omega))

theorem ten_zpow_le_two_zpow {p : ℤ} (hlow : -1100 ≤ p) (hhigh : p ≤ 1100) :
    (10 : ℚ) ^ (p * 30103 / 100000 - 1) ≤ 2 ^ p := by
  apply le_of_pow_zpow_le (by norm_num) (by norm_num)
  exact (zpow_le_zpow_right₀ (by norm_num) (by omega)).trans (two_zpow_between hlow hhigh).1

/-! ## The search through the grids -/

theorem findSome?_range {β : Type} {f : Nat → Option β} {n : Nat} {b : β}
    (h : (List.range n).findSome? f = some b) :
    ∃ m < n, f m = some b ∧ ∀ j < m, f j = none := by
  obtain ⟨before, m, after, hsplit, hm, hbefore⟩ := List.findSome?_eq_some_iff.mp h
  have hlength : before.length < n := by
    have := congrArg List.length hsplit
    rw [List.length_range, List.length_append, List.length_cons] at this
    omega
  have hmth : m = before.length := by
    have hget : (List.range n)[before.length]? = some m := by rw [hsplit]; simp
    rw [List.getElem?_range hlength] at hget
    exact (Option.some.inj hget).symm
  refine ⟨m, by omega, hm, fun j hj ↦ hbefore j ?_⟩
  have hget : (List.range n)[j]? = some j := List.getElem?_range (by omega)
  rw [hsplit, List.getElem?_append_left (by omega)] at hget
  exact List.mem_of_getElem? hget

variable {b : Binary}

theorem interval_low_lt (hb : b.significand ≠ 0) : b.interval.low < b.interval.value := by
  simp only [Binary.interval]
  split_ifs <;> omega

theorem interval_value_lt (b : Binary) : b.interval.value < b.interval.high := by
  change 4 * b.significand < 4 * b.significand + 2
  omega

theorem three_le_width (hb : b.significand ≠ 0) :
    (3 : ℚ) ≤ b.interval.high - b.interval.low := by
  have hnat : b.interval.low + 3 ≤ b.interval.high := by
    simp only [Binary.interval]
    split_ifs <;> omega
  have hrat : (b.interval.low : ℚ) + 3 ≤ b.interval.high := by exact_mod_cast hnat
  linarith

/-- The number and all that round to it lie below the first point of the coarsest grid. -/
theorem high_le_coarsest (hb : b.significand ≠ 0) (hfits : b.Fits) :
    (b.interval.high : ℚ) * 2 ^ b.interval.scale ≤ 10 ^ b.coarsest := by
  have hless : b.significand < 2 ^ (b.significand.log2 + 1) := Nat.lt_log2_self
  have hlog : b.significand.log2 < 53 :=
    (Nat.log2_lt hb).mpr (Nat.lt_of_lt_of_le hfits.significand_lt (by decide))
  have hleast : (-1074 : ℤ) ≤ b.exponent := hfits.least_le
  have hgreatest : b.exponent ≤ 971 := hfits.le_greatest
  have hhigh : (b.interval.high : ℚ) ≤ 2 ^ (b.significand.log2 + 3) := by
    have : 4 * b.significand + 2 ≤ 2 ^ (b.significand.log2 + 3) := by
      have : 2 ^ (b.significand.log2 + 3) = 4 * 2 ^ (b.significand.log2 + 1) := by ring
      omega
    exact_mod_cast this
  have hscale : ((b.significand.log2 + 3 : Nat) : ℤ) + b.interval.scale =
      b.exponent + b.significand.log2 + 1 := by
    change ((b.significand.log2 + 3 : Nat) : ℤ) + (b.exponent - 2) = _
    omega
  calc (b.interval.high : ℚ) * 2 ^ b.interval.scale
      ≤ 2 ^ (b.significand.log2 + 3) * 2 ^ b.interval.scale :=
        mul_le_mul_of_nonneg_right hhigh (by positivity)
    _ = 2 ^ (b.exponent + b.significand.log2 + 1) := by
        rw [← zpow_natCast, ← zpow_add₀ (by norm_num), hscale]
    _ ≤ 10 ^ b.coarsest := two_zpow_le_ten_zpow (by omega) (by omega)

/-- A point in the interval has few digits if the grid is no finer than a tenth of the interval. -/
theorem digits_lt_of_meets {d : Decimal} (hb : b.significand ≠ 0) (hfits : b.Fits)
    (hmeets : b.interval.Meets d.value)
    (hwidth : ((b.interval.high : ℚ) - b.interval.low) * 2 ^ b.interval.scale ≤
      10 ^ (d.exponent + 1)) : d.digits < 2 ^ 57 := by
  have hpower : (0 : ℚ) < 10 ^ d.exponent := by positivity
  have hunit : (0 : ℚ) < 2 ^ b.interval.scale := by positivity
  have hhigh : b.interval.high ≤ 2 ^ 55 := by
    have hlt : b.significand < 2 * fractions := hfits.significand_lt
    change 4 * b.significand + 2 ≤ 2 ^ 55
    rw [fractions] at hlt
    omega
  have hunits : 3 * (2 : ℚ) ^ b.interval.scale ≤ 10 * 10 ^ d.exponent := by
    calc 3 * (2 : ℚ) ^ b.interval.scale
        ≤ ((b.interval.high : ℚ) - b.interval.low) * 2 ^ b.interval.scale :=
          mul_le_mul_of_nonneg_right (three_le_width hb) hunit.le
      _ ≤ 10 ^ (d.exponent + 1) := hwidth
      _ = 10 * 10 ^ d.exponent := by rw [zpow_add₀ (by norm_num), zpow_one, mul_comm]
  have hdigits : 3 * (d.digits : ℚ) * 10 ^ d.exponent ≤ 10 * 2 ^ 55 * 10 ^ d.exponent := by
    calc 3 * (d.digits : ℚ) * 10 ^ d.exponent = 3 * d.value := mul_assoc _ _ _
      _ ≤ 3 * (b.interval.high * 2 ^ b.interval.scale) :=
        mul_le_mul_of_nonneg_left hmeets.le.2 (by norm_num)
      _ = b.interval.high * (3 * 2 ^ b.interval.scale) := by ring
      _ ≤ 2 ^ 55 * (10 * 10 ^ d.exponent) :=
        mul_le_mul (by exact_mod_cast hhigh) hunits (by positivity) (by positivity)
      _ = 10 * 2 ^ 55 * 10 ^ d.exponent := by ring
  have hle : 3 * d.digits ≤ 10 * 2 ^ 55 := by
    exact_mod_cast (mul_le_mul_iff_of_pos_right hpower).mp hdigits
  omega

/-- What is known of a decimal that a number's interval holds, found on the first grid that offers
one. -/
structure Binary.Yields (b : Binary) (d : Decimal) : Prop where
  least_le : -400 ≤ d.exponent
  le_greatest : d.exponent ≤ 400
  meets : b.interval.Meets d.value
  digits_lt : d.digits < 2 ^ 57

theorem yields_of_findSome? {d : Decimal} (hb : b.significand ≠ 0) (hfits : b.Fits)
    (hsearch : ((List.range 22).findSome? fun (n : Nat) ↦
      b.interval.onGrid? (b.coarsest - n)) = some d) : b.Yields d := by
  obtain ⟨n, hn, hgrid, hbefore⟩ := findSome?_range hsearch
  obtain ⟨hexponent, hmeets⟩ := Interval.onGrid?_eq_some hgrid
  have hcoarsest : -330 ≤ b.coarsest ∧ b.coarsest ≤ 320 := by
    have hleast : (-1074 : ℤ) ≤ b.exponent := hfits.least_le
    have hgreatest : b.exponent ≤ 971 := hfits.le_greatest
    have hlog : b.significand.log2 < 53 :=
      (Nat.log2_lt hb).mpr (Nat.lt_of_lt_of_le hfits.significand_lt (by decide))
    rw [Binary.coarsest]
    omega
  refine ⟨by omega, by omega, hmeets, ?_⟩
  rcases Nat.eq_zero_or_pos n with rfl | hpos
  · -- the coarsest grid has no other point than the first
    have hpower : (0 : ℚ) < 10 ^ d.exponent := by positivity
    have hcoarse : b.coarsest = d.exponent := by simpa using hexponent.symm
    have hone : (d.digits : ℚ) * 10 ^ d.exponent ≤ 1 * 10 ^ d.exponent := by
      calc (d.digits : ℚ) * 10 ^ d.exponent ≤ b.interval.high * 2 ^ b.interval.scale :=
            hmeets.le.2
        _ ≤ 10 ^ b.coarsest := high_le_coarsest hb hfits
        _ = 1 * 10 ^ d.exponent := by rw [one_mul, hcoarse]
    have hle : d.digits ≤ 1 := by exact_mod_cast (mul_le_mul_iff_of_pos_right hpower).mp hone
    exact Nat.lt_of_le_of_lt hle (by decide)
  · -- the grid before missed the interval
    have hcoarser : b.coarsest - (n - 1 : Nat) = d.exponent + 1 := by omega
    have hwidth := Interval.width_le_of_onGrid?_eq_none (interval_low_lt hb)
      (interval_value_lt b) (hbefore (n - 1) (by omega))
    rw [hcoarser] at hwidth
    exact digits_lt_of_meets hb hfits hmeets hwidth

/-- The last grid is finer than the interval. -/
theorem onGrid?_last (hb : b.significand ≠ 0) (hfits : b.Fits) :
    b.interval.onGrid? (b.coarsest - 21) ≠ none := by
  intro hnone
  let p := b.exponent + b.significand.log2 + 1
  have hleast : (-1074 : ℤ) ≤ b.exponent := hfits.least_le
  have hgreatest : b.exponent ≤ 971 := hfits.le_greatest
  have hlog : b.significand.log2 < 53 :=
    (Nat.log2_lt hb).mpr (Nat.lt_of_lt_of_le hfits.significand_lt (by decide))
  have hpower : (0 : ℚ) < 2 ^ b.interval.scale := by positivity
  have hunit : (2 : ℚ) ^ p ≤ 2 ^ 55 * 2 ^ b.interval.scale := by
    have hscale : b.interval.scale = b.exponent - 2 := rfl
    rw [← zpow_natCast, ← zpow_add₀ (by norm_num)]
    exact zpow_le_zpow_right₀ (by norm_num) (by push_cast; omega)
  have hexponent : b.coarsest - 21 = p * 30103 / 100000 - 1 + (-18) := by
    change p * 30103 / 100000 + 2 - 21 = _
    omega
  have hless : 3 * (2 : ℚ) ^ b.interval.scale ≤ 2 ^ 55 / 10 ^ 18 * 2 ^ b.interval.scale :=
    calc 3 * (2 : ℚ) ^ b.interval.scale
        ≤ ((b.interval.high : ℚ) - b.interval.low) * 2 ^ b.interval.scale :=
          mul_le_mul_of_nonneg_right (three_le_width hb) hpower.le
      _ ≤ 10 ^ (b.coarsest - 21) :=
          Interval.width_le_of_onGrid?_eq_none (interval_low_lt hb) (interval_value_lt b) hnone
      _ = 10 ^ (p * 30103 / 100000 - 1) * 10 ^ (-18 : ℤ) := by
          rw [hexponent, zpow_add₀ (by norm_num)]
      _ ≤ 2 ^ 55 * 2 ^ b.interval.scale * 10 ^ (-18 : ℤ) := by
          have hten := (ten_zpow_le_two_zpow (p := p) (by omega) (by omega)).trans hunit
          exact mul_le_mul_of_nonneg_right hten (by positivity)
      _ = 2 ^ 55 / 10 ^ 18 * 2 ^ b.interval.scale := by
          norm_num
          ring
  have hfalse := le_of_mul_le_mul_right hless hpower
  norm_num at hfalse

/-- Twenty-two grids suffice. -/
theorem yields_shortest (hb : b.significand ≠ 0) (hfits : b.Fits) : b.Yields b.shortest := by
  rw [Binary.shortest]
  cases hsearch : (List.range 22).findSome? fun (n : Nat) ↦
      b.interval.onGrid? (b.coarsest - n) with
  | none =>
    rw [List.findSome?_eq_none_iff] at hsearch
    exact absurd (hsearch 21 (List.mem_range.mpr (by decide))) (onGrid?_last hb hfits)
  | some d => exact yields_of_findSome? hb hfits hsearch

theorem Binary.Yields.digits_pos {d : Decimal} (hb : b.significand ≠ 0) (h : b.Yields d) :
    0 < d.digits := by
  have hlow : (0 : ℚ) < b.interval.low * 2 ^ b.interval.scale := by
    have : 0 < b.interval.low := by
      simp only [Binary.interval]
      split_ifs <;> omega
    have : (0 : ℚ) < b.interval.low := by exact_mod_cast this
    positivity
  have hvalue : 0 < d.value := hlow.trans_le h.meets.le.1
  have hpower : (0 : ℚ) < 10 ^ d.exponent := by positivity
  exact_mod_cast (pos_iff_pos_of_mul_pos hvalue).mpr hpower

end CloudLedger.Amount
