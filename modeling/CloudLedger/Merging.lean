import CloudLedger.Report

/-!
# Merging by identity

An export may list one line of a day in several rows.  Merging makes one report of all reports with
the same identity: their measures are added from left to right, and everything else is taken from
the first of them, whose place the sum keeps.  An index tells where the report of an identity is.
-/

namespace CloudLedger

variable {α : Type}

/-- What has been merged so far. -/
structure Merged (α : Type) where
  reports : List (Report α) := []
  /-- The position of each identity among the reports. -/
  index : List (Identity × Nat) := []

variable [Amount α]

/-- Add the measures of a report to the one of the same identity, or append it if there is none. -/
def Merged.take (merged : Merged α) (r : Report α) : Merged α :=
  match merged.index.lookup r.id with
  | some position =>
    { merged with
      reports := merged.reports.modify position fun first ↦
        { first with measures := first.measures + r.measures } }
  | none =>
    { reports := merged.reports ++ [r], index := (r.id, merged.reports.length) :: merged.index }

/-- Make one report of all reports of an identity. -/
def mergeByIdentity (reports : List (Report α)) : List (Report α) :=
  (reports.foldl Merged.take {}).reports

end CloudLedger
