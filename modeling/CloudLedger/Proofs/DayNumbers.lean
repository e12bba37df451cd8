import CloudLedger.Proofs.Calendar
import Mathlib.Algebra.Order.Group.Int
import Mathlib.Order.Monotone.Basic
import Mathlib.Order.SuccPred.Basic

/-!
# Days of the calendar and their numbers

The years follow one another without a gap, and so do the months of a year.  A day number therefore
lies in one year and one month only, and the date that is found for it is the one that has this
number.  Dates come in the order of their numbers, and the day before has the number before: the two
ways to move between days agree, over the ends of months and years, leap days included.
-/

namespace CloudLedger.Calendar

variable {year other n : Int} {month later within : Nat}

/-- Where stretches follow one another, nothing lies in two of them. -/
theorem eq_of_stretches {ι β : Type} [LinearOrder ι] [LinearOrder β] {first next : ι → β} {i j : ι}
    {b : β} (hfollow : ∀ i j, i < j → next i ≤ first j) (hi : first i ≤ b ∧ b < next i)
    (hj : first j ≤ b ∧ b < next j) : i = j := by
  rcases lt_trichotomy i j with hlt | heq | hlt
  · exact absurd ((hfollow i j hlt).trans hj.1) hi.2.not_ge
  · exact heq
  · exact absurd ((hfollow j i hlt).trans hi.1) hj.2.not_ge

/-! ## Months of a year -/

theorem daysBeforeMonth_succ (year : Int) (month : Nat) :
    daysBeforeMonth year (month + 1) = daysBeforeMonth year month + monthLength year month := rfl

theorem daysBeforeMonth_one (year : Int) : daysBeforeMonth year 1 = 0 := by
  simp [daysBeforeMonth, monthLength]

theorem daysBeforeMonth_thirteen (year : Int) :
    daysBeforeMonth year 13 = if isLeap year then 366 else 365 := by
  cases h : isLeap year <;> simp [daysBeforeMonth, monthLength, h]

theorem daysBeforeMonth_mono (year : Int) (h : month ≤ later) :
    daysBeforeMonth year month ≤ daysBeforeMonth year later := by
  induction later, h using Nat.le_induction with
  | base => exact le_rfl
  | succ later _ ih => exact ih.trans (Nat.le_add_right _ _)

/-- The month that is found for a day of the year is the one that it lies in. -/
theorem monthOfDay_mem (h : within < daysBeforeMonth year 13) :
    daysBeforeMonth year (monthOfDay year within) ≤ within ∧
      within < daysBeforeMonth year (monthOfDay year within + 1) := by
  rw [monthOfDay]
  cases hfind : (List.range' 1 12).find? fun month ↦ within < daysBeforeMonth year (month + 1) with
  | none =>
    have hlast := List.find?_eq_none.mp hfind 12 (by decide)
    exact absurd h (by simpa using hlast)
  | some month =>
    obtain ⟨hmonth, hmem, hfirst⟩ := List.find?_range'_eq_some.mp hfind
    obtain ⟨hone, -⟩ := List.mem_range'_1.mp hmem
    refine ⟨?_, of_decide_eq_true hmonth⟩
    rw [Option.getD_some]
    rcases hone.eq_or_lt with rfl | hlt
    · exact Nat.zero_le within
    · have hbefore := hfirst (month - 1) (by omega) (by omega)
      rw [Nat.sub_add_cancel hone] at hbefore
      simpa using hbefore

/-! ## Years -/

theorem yearStart_succ (year : Int) :
    yearStart (year + 1) = yearStart year + daysBeforeMonth year 13 := by
  have hleap : isLeap year ↔ year % 4 = 0 ∧ (year % 100 ≠ 0 ∨ year % 400 = 0) := by
    simp [isLeap]
  rw [daysBeforeMonth_thirteen, yearStart, yearStart]
  split_ifs with h
  · rw [hleap] at h
    omega
  · rw [hleap] at h
    omega

theorem yearStart_mono (h : year ≤ other) : yearStart year ≤ yearStart other := by
  refine monotone_int_of_le_succ (fun year ↦ ?_) h
  rw [yearStart_succ]
  omega

/-- The year that is found for a day number is the one that the day lies in. -/
theorem yearOfDay_mem (n : Int) :
    yearStart (yearOfDay n) ≤ n ∧ n < yearStart (yearOfDay n + 1) := by
  -- 400 times the start of a year differs from 146097 times the years past by less than 700.
  have hlow : yearStart (400 * n / 146097 + 1 - 1) ≤ n := by
    rw [yearStart]
    omega
  have hhigh : n < yearStart (400 * n / 146097 + 1 + 1 + 1) := by
    rw [yearStart]
    omega
  rw [yearOfDay]
  generalize 400 * n / 146097 + 1 = guess at hlow hhigh
  split_ifs with hbefore hafter
  · exact ⟨hlow, by rwa [Int.sub_add_cancel]⟩
  · exact ⟨hafter, hhigh⟩
  · exact ⟨not_lt.mp hbefore, not_le.mp hafter⟩

namespace Date

variable {d e : Date}

/-! ## The order of dates -/

/-- Whether a date comes before another one: the year decides, then the month, then the day. -/
def Before (d e : Date) : Prop :=
  d.year < e.year ∨ d.year = e.year ∧
    (d.month < e.month ∨ d.month = e.month ∧ d.day < e.day)

theorem before_trichotomy (d e : Date) : d.Before e ∨ d = e ∨ e.Before d := by
  have heq : d = e ↔ d.year = e.year ∧ d.month = e.month ∧ d.day = e.day := by
    cases d
    cases e
    simp
  rw [heq, Before, Before]
  omega

/-- The number of days before a date within its year. -/
def daysBefore (d : Date) : Nat := daysBeforeMonth d.year d.month + d.day - 1

theorem toDayNumber_eq (d : Date) : d.toDayNumber = yearStart d.year + d.daysBefore := by
  have hpos := d.day_pos
  rw [toDayNumber, dayNumber, daysBefore]
  omega

theorem daysBefore_mem_month (d : Date) : daysBeforeMonth d.year d.month ≤ d.daysBefore ∧
    d.daysBefore < daysBeforeMonth d.year (d.month + 1) := by
  have hpos := d.day_pos
  have hlength := d.isDate.2.2
  rw [daysBefore, daysBeforeMonth_succ]
  omega

theorem toDayNumber_mem_year (d : Date) :
    yearStart d.year ≤ d.toDayNumber ∧ d.toDayNumber < yearStart (d.year + 1) := by
  have hmonth := d.month_mem
  have hyear : daysBeforeMonth d.year (d.month + 1) ≤ daysBeforeMonth d.year 13 :=
    daysBeforeMonth_mono d.year (by omega)
  have hday := d.daysBefore_mem_month
  rw [toDayNumber_eq, yearStart_succ]
  omega

theorem Before.toDayNumber_lt (h : d.Before e) : d.toDayNumber < e.toDayNumber := by
  obtain hyear | ⟨hyear, hmonth | ⟨hmonth, hday⟩⟩ := h
  · calc
      d.toDayNumber < yearStart (d.year + 1) := d.toDayNumber_mem_year.2
      _ ≤ yearStart e.year := yearStart_mono hyear
      _ ≤ e.toDayNumber := e.toDayNumber_mem_year.1
  · have hdays : d.daysBefore < e.daysBefore := calc
      d.daysBefore < daysBeforeMonth d.year (d.month + 1) := d.daysBefore_mem_month.2
      _ = daysBeforeMonth e.year (d.month + 1) := by rw [hyear]
      _ ≤ daysBeforeMonth e.year e.month := daysBeforeMonth_mono e.year hmonth
      _ ≤ e.daysBefore := e.daysBefore_mem_month.1
    rw [toDayNumber_eq, toDayNumber_eq, hyear]
    omega
  · have hpos := d.day_pos
    rw [toDayNumber_eq, toDayNumber_eq, daysBefore, daysBefore, hyear, hmonth]
    omega

/-- Dates come in the order of their numbers. -/
theorem toDayNumber_lt_iff : d.toDayNumber < e.toDayNumber ↔ d.Before e := by
  refine ⟨fun h ↦ ?_, Before.toDayNumber_lt⟩
  rcases before_trichotomy d e with hbefore | rfl | hafter
  · exact hbefore
  · exact absurd h (lt_irrefl _)
  · exact absurd h hafter.toDayNumber_lt.not_gt

theorem toDayNumber_injective (h : d.toDayNumber = e.toDayNumber) : d = e := by
  rcases before_trichotomy d e with hbefore | heq | hafter
  · exact absurd h hbefore.toDayNumber_lt.ne
  · exact heq
  · exact absurd h hafter.toDayNumber_lt.ne'

/-! ## The date of a number -/

/-- The date that is found for a number is the one that has this number. -/
theorem ofDayNumber?_eq_some : ofDayNumber? n = some d ↔ d.toDayNumber = n := by
  have hyear := yearOfDay_mem n
  have hmonth : (n - yearStart (yearOfDay n)).toNat < daysBeforeMonth (yearOfDay n) 13 := by
    rw [yearStart_succ] at hyear
    omega
  apply monthOfDay_mem at hmonth
  rw [ofDayNumber?, ofYmd?_eq_some]
  constructor
  · rintro ⟨hy, hm, hd⟩
    rw [toDayNumber_eq, daysBefore, hy, hm, hd]
    omega
  · rintro rfl
    have hy : d.year = yearOfDay d.toDayNumber :=
      eq_of_stretches (fun _ _ ↦ yearStart_mono) d.toDayNumber_mem_year hyear
    have hcount : (d.toDayNumber - yearStart d.year).toNat = d.daysBefore := by
      rw [toDayNumber_eq]
      omega
    rw [← hy, hcount] at hmonth ⊢
    have hm : d.month = monthOfDay d.year d.daysBefore :=
      eq_of_stretches (fun _ _ ↦ daysBeforeMonth_mono d.year) d.daysBefore_mem_month hmonth
    have hpos := d.day_pos
    rw [← hm]
    refine ⟨rfl, rfl, ?_⟩
    rw [daysBefore]
    omega

/-! ## The day before -/

theorem toDayNumber_of_previous? (h : d.previous? = some e) :
    e.toDayNumber + 1 = d.toDayNumber := by
  have hday := d.day_pos
  have hmonth := d.month_mem
  unfold previous? at h
  split_ifs at h with hlater hmonths <;> obtain ⟨hy, hm, hd⟩ := ofYmd?_eq_some.mp h <;>
    rw [toDayNumber, toDayNumber, dayNumber, dayNumber, hy, hm, hd]
  · omega
  · -- the last day of the month before
    have hnext := daysBeforeMonth_succ d.year (d.month - 1)
    rw [Nat.sub_add_cancel hmonth.1] at hnext
    omega
  · -- the last day of December
    have hnext := yearStart_succ (d.year - 1)
    have hdecember : monthLength (d.year - 1) 12 = 31 := rfl
    have hjanuary : d.month = 1 := by omega
    rw [Int.sub_add_cancel, daysBeforeMonth_succ, hdecember] at hnext
    rw [hjanuary, daysBeforeMonth_one]
    omega

/-- The day before has the number before. -/
theorem previous?_eq_some : d.previous? = some e ↔ e.toDayNumber + 1 = d.toDayNumber := by
  refine ⟨toDayNumber_of_previous?, fun h ↦ ?_⟩
  cases heve : d.previous? with
  | none =>
    have hfirst := eq_first_of_previous?_none heve
    have hbefore : e.Before d := toDayNumber_lt_iff.mp (by omega)
    have hday := e.day_pos
    have hmonth := e.month_mem
    have hyear := e.isDate.1.1
    rw [Before] at hbefore
    omega
  | some eve =>
    have hnumber := toDayNumber_of_previous? heve
    rw [toDayNumber_injective (d := eve) (e := e) (by omega)]

end Date

end CloudLedger.Calendar
