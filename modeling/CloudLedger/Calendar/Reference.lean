import CloudLedger.Calendar.Zone
import CloudLedger.Text.Numeral

/-!
# The reference day

Dates that an export does not give are taken from one clock in one time zone, never from the machine
that the program runs on.  A `Reference` fixes the zone and the moment, and with them what "today"
and "yesterday" mean.

The moment stands for the clock: one frozen instant for a whole run.  Rows of Azure and GCP that
lack a date ask the clock each for itself, so with a clock that moves a run has one reference as
long as no midnight of the zone passes in it.
-/

namespace CloudLedger.Calendar

open Text

/-- A moment seen from a time zone, with a day before it in the calendar. -/
structure Reference where
  zone : Zone
  /-- The moment in seconds since the epoch. -/
  instant : Int
  /-- Whether the moment lies in the leap second that follows. -/
  isLeap : Bool := false
  today : Date
  yesterday : Date
  today_eq : Date.ofDayNumber? (dayOfClock (zone.clock instant)) = some today
  yesterday_eq : Date.ofDayNumber? (dayOfClock (zone.clock instant) - 1) = some yesterday

namespace Reference

/-- The reference for a moment, unless the calendar ends there. -/
def of? (zone : Zone) (instant : Int) (isLeap : Bool := false) : Option Reference :=
  match ht : Date.ofDayNumber? (dayOfClock (zone.clock instant)),
      hy : Date.ofDayNumber? (dayOfClock (zone.clock instant) - 1) with
  | some today, some yesterday => some ⟨zone, instant, isLeap, today, yesterday, ht, hy⟩
  | _, _ => none

/-- A year as timestamps write it: four digits, or more with a sign in front. -/
def yearText (year : Int) : String :=
  if 0 ≤ year ∧ year ≤ 9999 then zeroPadded 4 year
  else (if 0 ≤ year then "+" else "") ++ zeroPadded (if 0 ≤ year then 4 else 5) year

/-- Hours and minutes, two digits each. -/
def hoursText (minutes : Int) : String :=
  zeroPadded 2 (minutes / 60) ++ ":" ++ zeroPadded 2 (minutes % 60)

/-- The moment as the clock of the zone shows it, with its offset to the nearest minute. -/
def text (r : Reference) : String :=
  let seconds := r.zone.clock r.instant % daySeconds
  let offset := r.zone.offset r.instant
  yearText r.today.year ++ "-" ++ zeroPadded 2 r.today.month ++ "-" ++ zeroPadded 2 r.today.day
    ++ "T" ++ hoursText (seconds / 60) ++ ":"
    ++ zeroPadded 2 (seconds % 60 + if r.isLeap then 1 else 0)
    ++ (if offset < 0 then "-" else "+") ++ hoursText ((offset.natAbs + 30) / 60)

end Reference

end CloudLedger.Calendar
