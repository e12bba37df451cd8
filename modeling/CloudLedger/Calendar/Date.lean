/-!
# Calendar dates

Dates of the Gregorian calendar, extended to all years and kept within `firstYear` and `lastYear`.
Two ways to move between days stand side by side: `previous?` follows the lengths of the months, and
`dayNumber` with `ofDayNumber?` counts days from the first of January of year one.
-/

namespace CloudLedger.Calendar

/-- Whether a year has a 29 February. -/
def isLeap (year : Int) : Bool := year % 4 = 0 && (year % 100 ≠ 0 || year % 400 = 0)

/-- The number of days of a month; zero if there is no such month. -/
def monthLength (year : Int) (month : Nat) : Nat :=
  if month = 2 then if isLeap year then 29 else 28
  else if month ∈ [4, 6, 9, 11] then 30
  else if month ∈ [1, 3, 5, 7, 8, 10, 12] then 31
  else 0

/-- The first year that dates are kept for. -/
def firstYear : Int := -262143

/-- The last year that dates are kept for. -/
def lastYear : Int := 262142

/-- Whether a year, month and day make a date. -/
abbrev IsDate (year : Int) (month day : Nat) : Prop :=
  (firstYear ≤ year ∧ year ≤ lastYear) ∧ 1 ≤ day ∧ day ≤ monthLength year month

/-- A day of the calendar. -/
structure Date where
  year : Int
  month : Nat
  day : Nat
  isDate : IsDate year month day
deriving DecidableEq

namespace Date

/-- The date with these components, if there is one. -/
def ofYmd? (year : Int) (month day : Nat) : Option Date :=
  if h : IsDate year month day then some ⟨year, month, day, h⟩ else none

/-- The day before; the first date of all has none. -/
def previous? (d : Date) : Option Date :=
  if 1 < d.day then ofYmd? d.year d.month (d.day - 1)
  else if 1 < d.month then ofYmd? d.year (d.month - 1) (monthLength d.year (d.month - 1))
  else ofYmd? (d.year - 1) 12 31

end Date

/-- The number of days before a month within its year. -/
def daysBeforeMonth (year : Int) : Nat → Nat
  | 0 => 0
  | month + 1 => daysBeforeMonth year month + monthLength year month

/-- The number of the first day of a year. -/
def yearStart (year : Int) : Int :=
  let past := year - 1
  365 * past + past / 4 - past / 100 + past / 400

/-- The number of a day, counted from the first of January of year one, which has number zero. -/
def dayNumber (year : Int) (month day : Nat) : Int :=
  yearStart year + daysBeforeMonth year month + day - 1

/-- The year that a day falls in.  Four hundred years have 146097 days, and the estimate by the mean
length of a year is off by one at most. -/
def yearOfDay (n : Int) : Int :=
  let guess := 400 * n / 146097 + 1
  if n < yearStart guess then guess - 1
  else if yearStart (guess + 1) ≤ n then guess + 1
  else guess

/-- The month that the day with this number within its year, counted from zero, falls in. -/
def monthOfDay (year : Int) (n : Nat) : Nat :=
  ((List.range' 1 12).find? fun month ↦ n < daysBeforeMonth year (month + 1)).getD 12

def Date.ofDayNumber? (n : Int) : Option Date :=
  let year := yearOfDay n
  let within := (n - yearStart year).toNat
  let month := monthOfDay year within
  ofYmd? year month (within - daysBeforeMonth year month + 1)

def Date.toDayNumber (d : Date) : Int := dayNumber d.year d.month d.day

/-- The number of the Sunday on a day or the next one after it.  Day zero is a Monday. -/
def sundayFrom (n : Int) : Int := n + (6 - n) % 7

/-- The number of the Sunday on a day or the last one before it. -/
def sundayUpTo (n : Int) : Int := n - (n + 1) % 7

def daySeconds : Int := 86400

/-- The number of the day that moments are counted from, the first of January 1970. -/
def epoch : Int := 719162

/-- The seconds from the start of the epoch to the start of a day. -/
def startOfDay (n : Int) : Int := (n - epoch) * daySeconds

/-- The number of the day that a clock shows, given the seconds since the start of the epoch. -/
def dayOfClock (seconds : Int) : Int := epoch + seconds / daySeconds

end CloudLedger.Calendar
