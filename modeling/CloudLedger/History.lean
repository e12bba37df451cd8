import CloudLedger.Delta
import CloudLedger.ReportTable

/-!
# The history of reports

A history keeps every report that was ever saved, in the order of saving, and no two with the same
identity: what is saved first stays.  The usage of a line so far in a month is the sum of its
reports in the history, from the first to the last.
-/

namespace CloudLedger

variable {α : Type}

/-- Reports in the order of saving, no two of the same identity. -/
structure History (α : Type) where
  reports : List (Report α) := []
  distinct : (reports.map Report.id).Nodup := by simp

def ReportTable.history (t : ReportTable α) : History α := ⟨t.reports, t.distinct⟩

namespace History

def ids (h : History α) : List Identity := h.reports.map Report.id

def table (h : History α) : ReportTable α := ⟨h.reports, h.ids, fun _ ↦ Iff.rfl, h.distinct⟩

/-- Save reports, and count those that are added. -/
def insertIgnore (h : History α) (reports : List (Report α)) : History α × Nat :=
  let (t, inserted) := h.table.insertIgnore reports
  (t.history, inserted)

/-- Save reports: those of new identities are added. -/
def add (h : History α) (reports : List (Report α)) : History α := (h.insertIgnore reports).1

/-- The history of reports that are saved one after the other. -/
def ofReports (reports : List (Report α)) : History α := add {} reports

variable [Amount α]

/-- The usage recorded for a query, if any report belongs to it. -/
def monthToDate (h : History α) (q : Query) : Option (Measures α) :=
  let covered := h.reports.filter q.covers
  if covered = [] then none else some (covered.foldl (fun total r ↦ total + r.measures) 0)

def lookup (h : History α) : Lookup α := fun q ↦ .ok (h.monthToDate q)

end History

end CloudLedger
