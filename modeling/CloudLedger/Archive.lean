import CloudLedger.Amount.Layout
import CloudLedger.Field
import CloudLedger.Files.Disk
import CloudLedger.Store
import CloudLedger.Table.Csv

/-!
# The archive

The reports of a run are archived in a folder as one comma-separated table a month, with the fields'
names as its header.  A later run of the same month puts a new table in the place of the old one.
-/

namespace CloudLedger.Archive

open Files Table Text

def cell : Content → String
  | .text s => s
  | .provider p => p.tag
  | .whole n => intNumeral n
  | .amount x => Amount.Layout.sheet.text x

def header : Row := Field.all.map Field.name

def row (r : Report Float) : Row := Field.all.map fun f ↦ cell (r.content f)

/-- The table of some reports; without reports it is empty. -/
def table (reports : List (Report Float)) : List UInt8 :=
  if reports = [] then [] else Csv.write (header :: reports.map row)

def fileName (period : Period) : String :=
  intNumeral period.year.toInt ++ "-" ++ period.monthWord ++ "-normalized-billing-data.csv"

def path (folder : FilePath) (period : Period) : FilePath := folder.join (fileName period)

def draftPath (path : FilePath) : FilePath := path.withExtension "csv.tmp"

/-- Write the table of a month and give its path. -/
def write {σ : Type} (folder : FilePath) (period : Period) (reports : List (Report Float)) :
    EStateM Fault (σ × Disk) FilePath := do
  let target := path folder period
  onDisk (.file folder) (DiskOp.makeFolders folder)
  onDisk .sheet (DiskOp.write (draftPath target) (table reports))
  onDisk (.file target) (DiskOp.move (draftPath target) target)
  return target

end CloudLedger.Archive
