import CloudLedger.Proofs.Amount.Quotients
import CloudLedger.Proofs.StateFile.Rereading

/-!
# Measures that survive

Digits that fit in the bits of a number are gathered without rounding, and the small powers of ten
are exact.  If both hold, the one rounding that is left gives the measure back.  Other measures are
rounded twice and may become a neighbour.
-/

namespace CloudLedger

open Amount

namespace StateFile

variable {x : Float} {b c r : Binary} {d : Decimal}

/-- Whether a measure is read as it was written. -/
def Survives (x : Float) : Prop := reread x = .ok x

instance (x : Float) : Decidable (Survives x) := inferInstanceAs (Decidable (reread x = .ok x))

/-- Whether the digits of a number, as they are spelled, fit in its bits and its power of ten is
exact. -/
def IsShort (b : Binary) : Prop :=
  (spelled (decimalOf b)).digits < 2 ^ 53 ∧ (spelled (decimalOf b)).exponent.natAbs < 23

theorem value_spelled (d : Decimal) : (spelled d).value = d.value := by
  rw [spelled]
  split_ifs with hwhole
  · have hpower : (10 : ℚ) ^ d.exponent = 10 ^ (d.exponent.toNat + 1) * 10 ^ (-1 : Int) := by
      rw [← zpow_natCast, ← zpow_add₀ (by norm_num)]
      congr 1
      omega
    rw [Decimal.value, Decimal.value, hpower]
    push_cast
    ring
  · rfl

theorem significand_pos (h : 0 < b.magnitude) : 0 < b.significand := by
  have hpower : (0 : ℚ) < 2 ^ b.exponent := by positivity
  exact_mod_cast (pos_iff_pos_of_mul_pos h).mpr hpower

/-- Exact digits and an exact power of ten are rounded once. -/
theorem assemble_exact (hr : r.Fits) (h : r.interval.Meets d.value) (hpos : 0 < d.digits)
    (hdigits : d.digits < 2 ^ 53) (hexponent : d.exponent.natAbs < 23) :
    ∃ y, assemble d.digits d.exponent = .ok y ∧
      view y = .finite ⟨false, r.significand, r.exponent⟩ := by
  obtain ⟨b, hb, hbsign, hbvalue⟩ := view_rounded_exact hpos hdigits
  obtain ⟨c, hc, hcsign, hcvalue⟩ := view_powerOfTen_exact hexponent
  have hbpos : 0 < b.significand := significand_pos (by rw [hbvalue]; exact_mod_cast hpos)
  have hcpos : 0 < c.significand := significand_pos (by rw [hcvalue]; positivity)
  have hpower : d.exponent.natAbs ≤ greatestPower := hexponent.le.trans (by decide)
  have hsign : (b.negative ^^ c.negative) = false := by rw [hbsign, hcsign]; rfl
  rw [assemble, scale, if_pos hpower, ← hsign]
  by_cases hwhole : 0 ≤ d.exponent
  · have hvalue : b.magnitude * c.magnitude = d.value := by
      have hten : (10 : ℚ) ^ d.exponent = 10 ^ d.exponent.natAbs := by
        have hnat : d.exponent = (d.exponent.natAbs : Int) := by omega
        rw [← zpow_natCast, ← hnat]
      rw [hbvalue, hcvalue, Decimal.value, hten]
    have hview := view_mul hb hc hbpos hcpos hr (hvalue ▸ h)
    have hfinite := not_isInf_of_isFinite (isFinite_iff.mpr ⟨_, hview⟩)
    rw [if_pos hwhole]
    simp only [hfinite]
    exact ⟨_, rfl, hview⟩
  · have hvalue : b.magnitude / c.magnitude = d.value := by
      have hten : (10 : ℚ) ^ d.exponent = (10 ^ d.exponent.natAbs)⁻¹ := by
        have hnat : d.exponent = -(d.exponent.natAbs : Int) := by omega
        rw [← zpow_natCast, ← zpow_neg, ← hnat]
      rw [hbvalue, hcvalue, Decimal.value, hten, div_eq_mul_inv]
    have hview := view_div hb hc hbpos hcpos hr (hvalue ▸ h)
    rw [if_neg hwhole]
    exact ⟨_, rfl, hview⟩

theorem rereadMagnitude_of_short (hfits : b.Fits) (hshort : IsShort b) :
    ∃ y, rereadMagnitude b = .ok y ∧ view y = .finite ⟨false, b.significand, b.exponent⟩ := by
  by_cases hb : b.significand = 0
  · have hleast : b.exponent = leastExponent := by
      have hle : leastExponent ≤ b.exponent := hfits.least_le
      by_contra hne
      have hfractions : fractions ≤ b.significand := hfits.fractions_le (by omega)
      exact absurd (hb ▸ hfractions) (by decide)
    have hzero : assemble (spelled ⟨0, 0⟩).digits (spelled ⟨0, 0⟩).exponent = .ok 0.0 := by
      decide +kernel
    have hview : view 0.0 = .finite ⟨false, 0, leastExponent⟩ := by decide +kernel
    have hdecimal : decimalOf b = ⟨0, 0⟩ := if_pos hb
    rw [rereadMagnitude, hdecimal, hb, hleast]
    exact ⟨0.0, hzero, hview⟩
  · have hyields := yields_shortest hb hfits
    have hdecimal : decimalOf b = b.shortest := if_neg hb
    have hmeets : b.interval.Meets (spelled (decimalOf b)).value := by
      rw [value_spelled, hdecimal]
      exact hyields.meets
    have hpos : 0 < (spelled (decimalOf b)).digits := by
      have hdigits : 0 < (decimalOf b).digits := hdecimal ▸ hyields.digits_pos hb
      rw [spelled]
      split_ifs
      · exact Nat.mul_pos hdigits (Nat.pow_pos (by decide))
      · exact hdigits
    exact assemble_exact hfits hmeets hpos hshort.1 hshort.2

/-- A measure whose digits and power of ten are exact survives. -/
theorem survives_of_short (h : view x = .finite b) (hshort : IsShort b) : Survives x := by
  obtain ⟨y, hy, hview⟩ := rereadMagnitude_of_short (fits_of_view h) hshort
  rw [Survives, reread_of_finite h, hy]
  change Except.ok (if b.negative then -y else y) = _
  congr 1
  apply eq_of_view _ h
  split_ifs with hsign
  · have hneg : (⟨false, b.significand, b.exponent⟩ : Binary).negated = b := by
      rw [Binary.negated, Bool.not_false, ← hsign]
    rw [view_neg hview, hneg]
  · have hplain : b.negative = false := by simpa using hsign
    rw [hview, ← hplain]

example : Survives 19.99 ∧ ¬ Survives (0.01 + 0.2) := by
  decide +kernel

end StateFile

/-- Whether usage and cost are read as they were written. -/
def Measures.Survive (m : Measures Float) : Prop :=
  StateFile.Survives m.usage ∧ StateFile.Survives m.cost

end CloudLedger
