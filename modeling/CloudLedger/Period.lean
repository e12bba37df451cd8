import CloudLedger.Calendar.Date
import CloudLedger.Text.Numeral

/-!
# Billing periods

The period of a report is the day it is billed to.  Exports are only checked loosely, so a period
may be a day that no calendar has, such as the 31 February; operations on the calendar first ask for
its date.
-/

namespace CloudLedger

open Calendar Text

/-- A day, a month and a year, which need not make a date. -/
structure Period where
  day : UInt32
  month : UInt32
  year : Int32
deriving DecidableEq

def monthWords : List String :=
  ["January", "February", "March", "April", "May", "June", "July", "August", "September", "October",
    "November", "December"]

namespace Period

def ofDate (d : Date) : Period := ⟨.ofNat d.day, .ofNat d.month, .ofInt d.year⟩

def toDate? (p : Period) : Option Date := Date.ofYmd? p.year.toInt p.month.toNat p.day.toNat

/-- The period of the day before, if the period is a date and not the first one of all. -/
def dayBefore? (p : Period) : Option Period := (p.toDate?.bind Date.previous?).map ofDate

/-- Whether two periods lie in the same month of the same year. -/
def sharesMonth (p q : Period) : Bool := p.year = q.year && p.month = q.month

/-- The name of the month, or `Unknown` if there is no such month. -/
def monthWord (p : Period) : String :=
  if p.month = 0 then "Unknown" else monthWords.getD (p.month.toNat - 1) "Unknown"

/-- Year, month and day with dashes between them. -/
def text (p : Period) : String :=
  zeroPadded 4 p.year.toInt ++ "-" ++ zeroPadded 2 p.month.toNat ++ "-" ++ zeroPadded 2 p.day.toNat

end Period

end CloudLedger
