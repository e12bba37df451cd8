import CloudLedger.Amount.Measures
import CloudLedger.Identity

/-!
# Reports and queries

A report is one figure of the normalized bill, in the same shape for every provider.  A query asks
what has been recorded for a line earlier in a month; it names the line and the day, and whether
that day itself counts.
-/

namespace CloudLedger

/-- The usage and cost of one line on one day. -/
structure Report (α : Type) where
  id : Identity
  line : Line
  accountName : String
  period : Period
  unit : String
  measures : Measures α
deriving DecidableEq

/-- A question for the usage of a line in a month before a day, or through it. -/
structure Query where
  identity : Identity
  line : Line
  period : Period
  /-- Whether usage on the day of the period itself counts. -/
  includesPeriod : Bool
deriving DecidableEq

namespace Report

variable {α : Type}

/-- The report of a line on a day, with the identity of that line on that day. -/
def derived (line : Line) (accountName : String) (period : Period) (unit : String)
    (measures : Measures α) : Report α :=
  ⟨Identity.ofLine line period, line, accountName, period, unit, measures⟩

/-- The query for the usage before the day of a report. -/
def query (r : Report α) : Query := ⟨r.id, r.line, r.period, false⟩

end Report

namespace Query

variable {α : Type}

/-- The query for the usage of the same line through a day. -/
def upTo (q : Query) (period : Period) : Query :=
  ⟨Identity.ofLine q.line period, q.line, period, true⟩

/-- Whether a day is before the day asked about, or is that day where it counts. -/
def reaches (q : Query) (day : UInt32) : Bool :=
  day < q.period.day || (q.includesPeriod && day = q.period.day)

/-- Whether the usage of a report belongs to the answer. -/
def covers (q : Query) (r : Report α) : Bool :=
  r.line = q.line && r.period.sharesMonth q.period && q.reaches r.period.day

end Query

end CloudLedger
