import CloudLedger.Report
import CloudLedger.Table.Columns

/-!
# Dialects of exports

A dialect says how one provider's exports become reports: which columns and how many cells a row
has, and what report a record stands for, if it is a line item at all.
-/

namespace CloudLedger.Usage

open Table

/-- How the exports of a provider become reports. -/
structure Dialect (α : Type) where
  provider : Provider
  Column : Type
  columns : Columns Column
  width : Width
  /-- The report of a line item, or nothing for any other record. -/
  report? : Record Column → Option (Report α)

namespace Dialect

variable {α : Type}

/-- The reports of all line items among some records. -/
def reports (d : Dialect α) (records : List (Record d.Column)) : List (Report α) :=
  records.filterMap d.report?

def ofExport (d : Dialect α) (bytes : List UInt8) : Except Fault (List (Report α)) := do
  let rows ← (RowStream.ofBytes bytes).clean d.width
  let records ← @records d.Column d.columns d.provider rows
  return d.reports records

end Dialect

end CloudLedger.Usage
