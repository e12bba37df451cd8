import CloudLedger.Calendar.Reference
import CloudLedger.Calendar.ZoneRules
import CloudLedger.Fault
import CloudLedger.Text.Blank

/-!
# Configuration

What all pipelines of a batch share: the reference day, the region and the day that undated running
totals are booked to, and the day that recorded usage is looked up for.
-/

namespace CloudLedger

open Calendar

/-- The rule for the day that an undated export is booked to. -/
inductive BookingRule where
  | today
  | yesterday
deriving DecidableEq

/-- The rule for the day that recorded usage is looked up for. -/
inductive LookupRule where
  /-- The day of the report, which itself does not count. -/
  | ownDay
  /-- The day before the report, which counts, unless it lies in another month. -/
  | dayBefore
deriving DecidableEq

/-- What all pipelines share. -/
structure Configuration where
  /-- The frozen instant that stands for the clock, also where rows ask for it one by one. -/
  reference : Reference
  /-- The region of lines whose export names none. -/
  region : String := ""
  booking : BookingRule := .yesterday
  lookupRule : LookupRule := .ownDay

namespace Configuration

def today (c : Configuration) : Period := .ofDate c.reference.today

def bookingDay (c : Configuration) : Period :=
  match c.booking with
  | .today => .ofDate c.reference.today
  | .yesterday => .ofDate c.reference.yesterday

end Configuration

/-- The time zone of a name, with any blanks around it. -/
def readZone (name : String) (zones : ZoneDatabase := Zone.builtIn) : Except Fault Zone :=
  match zones (Text.trim name) with
  | some zone => .ok zone
  | none => .error (.configuration (.unknownZone name))

end CloudLedger
