import CloudLedger.Configuration
import CloudLedger.Usage.Account
import CloudLedger.Usage.Dating
import CloudLedger.Usage.Dialect

/-!
# Daily usage with timestamps

GCP writes an export a day, with or without the three columns that describe a project.  The start
time of a row gives its day, and a row without a line item is none.  Exports name no region.
-/

namespace CloudLedger.Usage.Gcp

open Table Text

inductive Column where
  | accountId
  | lineItem
  | startTime
  | endTime
  | project
  | measurement1
  | measurement1TotalConsumption
  | measurement1Units
  | credit1
  | credit1Amount
  | credit1Currency
  | cost
  | currency
  | projectNumber
  | projectId
  | projectName
  | projectLabels
  | description
deriving DecidableEq

/-- All columns in the order of the export. -/
def Column.all : List Column :=
  [.accountId, .lineItem, .startTime, .endTime, .project, .measurement1,
    .measurement1TotalConsumption, .measurement1Units, .credit1, .credit1Amount, .credit1Currency,
    .cost, .currency, .projectNumber, .projectId, .projectName, .projectLabels, .description]

def Column.name : Column → String
  | .accountId => "Account ID"
  | .lineItem => "Line Item"
  | .startTime => "Start Time"
  | .endTime => "End Time"
  | .project => "Project"
  | .measurement1 => "Measurement1"
  | .measurement1TotalConsumption => "Measurement1 Total Consumption"
  | .measurement1Units => "Measurement1 Units"
  | .credit1 => "Credit1"
  | .credit1Amount => "Credit1 Amount"
  | .credit1Currency => "Credit1 Currency"
  | .cost => "Cost"
  | .currency => "Currency"
  | .projectNumber => "Project Number"
  | .projectId => "Project ID"
  | .projectName => "Project Name"
  | .projectLabels => "Project Labels"
  | .description => "Description"

instance : Columns Column where
  all := Column.all
  name := Column.name

def account (record : Record Column) : Account :=
  .choose ⟨record .projectNumber, record .projectId⟩ ⟨record .accountId, record .accountId⟩

variable {α : Type} [Amount α]

/-- The report of a line item, given the day in place of one that cannot be read. -/
def report? (today : Period) (record : Record Column) : Option (Report α) :=
  if isBlankText (record .lineItem) then none
  else
    let account := account record
    some (.derived ⟨.gcp, account.number, trim (record .description), ""⟩ account.name
      (periodOfTimestamp today (record .startTime)) (trim (record .measurement1Units))
      (.ofCells (record .measurement1TotalConsumption) (record .cost)))

def dialect (c : Configuration) : Dialect α where
  provider := .gcp
  Column := Column
  columns := inferInstance
  width := ⟨15, 18, by decide, by decide⟩
  report? := report? c.today

end CloudLedger.Usage.Gcp
