import CloudLedger.Report

/-!
# Tables of reports

A table keeps every report that was ever inserted, in the order of insertion, together with the set
of their identities, which is asked before a report is inserted: what comes first stays.
-/

namespace CloudLedger

structure ReportTable (α : Type) where
  reports : List (Report α)
  /-- The set of the identities of the reports. -/
  known : List Identity
  mem_known : ∀ id, id ∈ known ↔ id ∈ reports.map Report.id
  distinct : (reports.map Report.id).Nodup

namespace ReportTable

variable {α : Type}

/-- Insert a report of an identity that is not known. -/
def push (t : ReportTable α) (r : Report α) (h : r.id ∉ t.known) : ReportTable α where
  reports := t.reports ++ [r]
  known := r.id :: t.known
  mem_known id := by
    rw [List.mem_cons, t.mem_known, List.map_append, List.mem_append, List.map_singleton,
      List.mem_singleton, or_comm]
  distinct := by
    rw [List.map_append, List.nodup_append]
    refine ⟨t.distinct, by simp, fun id hid other hother heq ↦ h ?_⟩
    rw [List.map_singleton, List.mem_singleton] at hother
    rwa [t.mem_known, ← hother, ← heq]

/-- Insert a report unless its identity is known, and count it if it is inserted. -/
def insertOne (state : ReportTable α × Nat) (r : Report α) : ReportTable α × Nat :=
  if h : r.id ∈ state.1.known then state else (state.1.push r h, state.2 + 1)

/-- Insert reports, each identity once, and count those that are inserted. -/
def insertIgnore (t : ReportTable α) (reports : List (Report α)) : ReportTable α × Nat :=
  reports.foldl insertOne (t, 0)

end ReportTable

end CloudLedger
