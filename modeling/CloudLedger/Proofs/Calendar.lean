import CloudLedger.Period
import Mathlib.Tactic.IntervalCases
import Mathlib.Tactic.SplitIfs

/-!
# The day before

Dates have small components, so that a period keeps all of them.  The day before a date lies in the
same month exactly if the date is not the first of it; then only the day is lower, by one.
-/

namespace CloudLedger.Calendar

theorem monthLength_le (year : Int) (month : Nat) : monthLength year month ≤ 31 := by
  unfold monthLength
  split_ifs <;> omega

theorem monthLength_pos {year : Int} {month : Nat} (hlow : 1 ≤ month) (hhigh : month ≤ 12) :
    1 ≤ monthLength year month := by
  unfold monthLength
  interval_cases month <;> split_ifs <;> simp_all

theorem month_mem_of_monthLength_pos {year : Int} {month : Nat}
    (h : 0 < monthLength year month) : 1 ≤ month ∧ month ≤ 12 := by
  unfold monthLength at h
  split_ifs at h with h2 _ h30 h31
  · omega
  · omega
  · simp only [List.mem_cons, List.not_mem_nil, or_false] at h30
    omega
  · simp only [List.mem_cons, List.not_mem_nil, or_false] at h31
    omega
  · omega

theorem daysBeforeMonth_le (year : Int) (month : Nat) :
    daysBeforeMonth year month ≤ 31 * month := by
  induction month with
  | zero => exact Nat.le_refl 0
  | succ month ih =>
    have hlength := monthLength_le year month
    rw [daysBeforeMonth]
    omega

namespace Date

variable {d eve : Date}

theorem day_pos (d : Date) : 1 ≤ d.day := d.isDate.2.1

theorem day_le (d : Date) : d.day ≤ 31 := Nat.le_trans d.isDate.2.2 (monthLength_le _ _)

theorem month_mem (d : Date) : 1 ≤ d.month ∧ d.month ≤ 12 :=
  month_mem_of_monthLength_pos (Nat.le_trans d.day_pos d.isDate.2.2)

theorem year_mem (d : Date) : -262143 ≤ d.year ∧ d.year ≤ 262142 := d.isDate.1

theorem ofYmd?_eq_some {year : Int} {month day : Nat} :
    ofYmd? year month day = some d ↔ d.year = year ∧ d.month = month ∧ d.day = day := by
  unfold ofYmd?
  split
  · simp only [Option.some.injEq]
    constructor
    · rintro rfl
      exact ⟨rfl, rfl, rfl⟩
    · rintro ⟨rfl, rfl, rfl⟩
      rfl
  · rename_i h
    simp only [reduceCtorEq, false_iff]
    rintro ⟨rfl, rfl, rfl⟩
    exact h d.isDate

@[simp]
theorem ofYmd?_components (d : Date) : ofYmd? d.year d.month d.day = some d :=
  ofYmd?_eq_some.mpr ⟨rfl, rfl, rfl⟩

/-- Within a month the day before has the next lower day. -/
theorem previous?_of_one_lt (hday : 1 < d.day) :
    d.previous? = some eve ↔
      eve.year = d.year ∧ eve.month = d.month ∧ eve.day = d.day - 1 := by
  rw [previous?, if_pos hday, ofYmd?_eq_some]

/-- The day before the first of a month lies in another month. -/
theorem month_ne_of_previous? (hday : ¬ 1 < d.day) (h : d.previous? = some eve) :
    ¬ (eve.year = d.year ∧ eve.month = d.month) := by
  rw [previous?, if_neg hday] at h
  rintro ⟨hyear, hmonth⟩
  split at h
  · have := (ofYmd?_eq_some.mp h).2.1
    omega
  · have := (ofYmd?_eq_some.mp h).1
    omega

theorem ofYmd?_eq_none {year : Int} {month day : Nat} :
    ofYmd? year month day = none ↔ ¬ IsDate year month day := by
  rw [ofYmd?]
  split <;> simp [*]

/-- Only the first date of all has no day before. -/
theorem eq_first_of_previous?_none (h : d.previous? = none) :
    d.year = firstYear ∧ d.month = 1 ∧ d.day = 1 := by
  obtain ⟨⟨hfirst, hlast⟩, hday, hlength⟩ := d.isDate
  have hmonth := d.month_mem
  unfold previous? at h
  split_ifs at h with hlater hmonths
  · have hbefore : IsDate d.year d.month (d.day - 1) := ⟨⟨hfirst, hlast⟩, by omega, by omega⟩
    exact absurd hbefore (ofYmd?_eq_none.mp h)
  · have hpos : 1 ≤ monthLength d.year (d.month - 1) := monthLength_pos (by omega) (by omega)
    exact absurd ⟨⟨hfirst, hlast⟩, hpos, le_rfl⟩ (ofYmd?_eq_none.mp h)
  · refine ⟨?_, by omega, by omega⟩
    by_contra hne
    have hdecember : IsDate (d.year - 1) 12 31 :=
      ⟨⟨by omega, by omega⟩, by decide, le_rfl⟩
    exact absurd hdecember (ofYmd?_eq_none.mp h)

end Date

end CloudLedger.Calendar

namespace CloudLedger.Period

open Calendar

@[simp]
theorem ofDate_day (d : Date) : (ofDate d).day.toNat = d.day := by
  have := d.day_le
  simp only [ofDate, UInt32.toNat_ofNat']
  omega

@[simp]
theorem ofDate_month (d : Date) : (ofDate d).month.toNat = d.month := by
  have := d.month_mem
  simp only [ofDate, UInt32.toNat_ofNat']
  omega

@[simp]
theorem ofDate_year (d : Date) : (ofDate d).year.toInt = d.year := by
  have := d.year_mem
  exact Int32.toInt_ofInt_of_le (by omega) (by omega)

/-- A date is found again in its period. -/
@[simp]
theorem toDate?_ofDate (d : Date) : (ofDate d).toDate? = some d := by
  simp [toDate?]

/-- Whether a period names one of the twelve months. -/
def HasMonth (p : Period) : Prop := 1 ≤ p.month.toNat ∧ p.month.toNat ≤ 12

/-- Whether a period names a day that some month has. -/
def HasDay (p : Period) : Prop := 1 ≤ p.day.toNat ∧ p.day.toNat ≤ 31

theorem hasMonth_ofDate (d : Date) : (ofDate d).HasMonth := by
  rw [HasMonth, ofDate_month]
  exact d.month_mem

theorem hasDay_ofDate (d : Date) : (ofDate d).HasDay := by
  rw [HasDay, ofDate_day]
  exact ⟨d.day_pos, d.day_le⟩

/-- The period of the first date of all. -/
def first : Period := ⟨1, 1, .ofInt firstYear⟩

/-- A period that has a date is the period of that date. -/
theorem eq_ofDate_of_toDate? {p : Period} {d : Date} (h : p.toDate? = some d) : p = ofDate d := by
  obtain ⟨hyear, hmonth, hday⟩ := Date.ofYmd?_eq_some.mp h
  rw [ofDate, hyear, hmonth, hday, Int32.ofInt_toInt, UInt32.ofNat_toNat, UInt32.ofNat_toNat]

theorem sharesMonth_iff {p q : Period} :
    p.sharesMonth q ↔ p.year.toInt = q.year.toInt ∧ p.month.toNat = q.month.toNat := by
  simp [sharesMonth, ← Int32.toInt_inj, ← UInt32.toNat_inj]

theorem sharesMonth_comm (p q : Period) : p.sharesMonth q = q.sharesMonth p := by
  simp only [sharesMonth, eq_comm]

theorem sharesMonth_trans {p q r : Period} (hpq : p.sharesMonth q) (hqr : q.sharesMonth r) :
    p.sharesMonth r := by
  rw [sharesMonth_iff] at *
  exact ⟨hpq.1.trans hqr.1, hpq.2.trans hqr.2⟩

end CloudLedger.Period
