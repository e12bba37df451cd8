import CloudLedger.Report

/-!
# Fields of a written report

State files and archives both write a report as twelve named fields in one order.  `Report.content`
takes a report apart into the contents of its fields, and `Report.ofContents?` puts it together
again.
-/

namespace CloudLedger

inductive Field where
  | id
  | accountNumber
  | accountName
  | day
  | month
  | year
  | service
  | region
  | provider
  | usage
  | unit
  | cost
deriving DecidableEq

namespace Field

/-- All fields in the order that they are written in. -/
def all : List Field :=
  [.id, .accountNumber, .accountName, .day, .month, .year, .service, .region, .provider, .usage,
    .unit, .cost]

/-- The name that a field is written under. -/
def name : Field → String
  | .id => "ID"
  | .accountNumber => "Account Number"
  | .accountName => "Account Name"
  | .day => "Day"
  | .month => "Month"
  | .year => "Year"
  | .service => "Service Type"
  | .region => "Region"
  | .provider => "Provider"
  | .usage => "Usage Quantity"
  | .unit => "Unit Of Measurement"
  | .cost => "Cost"

def ofName? (s : String) : Option Field := all.find? fun f ↦ f.name = s

end Field

inductive Content where
  | text (s : String)
  | provider (p : Provider)
  | whole (n : Int)
  | amount (x : Float)
deriving DecidableEq

namespace Content

def text? : Content → Option String
  | .text s => some s
  | _ => none

def provider? : Content → Option Provider
  | .provider p => some p
  | _ => none

def whole? : Content → Option Int
  | .whole n => some n
  | _ => none

def amount? : Content → Option Float
  | .amount x => some x
  | _ => none

end Content

namespace Report

def content (r : Report Float) : Field → Content
  | .id => .text r.id.digest
  | .accountNumber => .text r.line.account
  | .accountName => .text r.accountName
  | .day => .whole r.period.day.toNat
  | .month => .whole r.period.month.toNat
  | .year => .whole r.period.year.toInt
  | .service => .text r.line.service
  | .region => .text r.line.region
  | .provider => .provider r.line.provider
  | .usage => .amount r.measures.usage
  | .unit => .text r.unit
  | .cost => .amount r.measures.cost

/-- The report with these contents, unless one is missing or of the wrong kind. -/
def ofContents? (contents : Field → Option Content) : Option (Report Float) := do
  let text (f : Field) := (contents f).bind Content.text?
  let whole (f : Field) := (contents f).bind Content.whole?
  let amount (f : Field) := (contents f).bind Content.amount?
  let period : Period :=
    ⟨.ofInt (← whole .day), .ofInt (← whole .month), .ofInt (← whole .year)⟩
  let line : Line :=
    ⟨← (contents .provider).bind Content.provider?, ← text .accountNumber, ← text .service,
      ← text .region⟩
  return ⟨⟨← text .id⟩, line, ← text .accountName, period, ← text .unit,
    ⟨← amount .usage, ← amount .cost⟩⟩

end Report

end CloudLedger
