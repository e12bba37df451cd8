import CloudLedger.Table.Cleaning

/-!
# Named columns

The first row of a cleaned export names its columns.  A record is a row read by these names: for
every column that the provider is known to have it gives the cell under that name, or nothing if the
export does not have the column.  Where the columns stand does not matter.
-/

namespace CloudLedger.Table

open Text

/-- The columns that a kind of record has. -/
class Columns (C : Type) where
  all : List C
  name : C → String

/-- A cell for every column. -/
abbrev Record (C : Type) := C → String

/-- A character that marks the start of a text. -/
def textMark : Char := '\uFEFF'

/-- Drop all such marks at the front. -/
def dropTextMarks (s : String) : String := String.ofList (s.toList.dropWhile (· = textMark))

def columnNames : Row → List String
  | [] => []
  | first :: rest => trim (dropTextMarks first) :: rest.map trim

/-- The cell under a name, or nothing. -/
def cellUnder (names : List String) (row : Row) (name : String) : String :=
  ((names.zip row).lookup name).getD ""

variable {C : Type} [Columns C]

def Record.ofRow (names : List String) (row : Row) : Record C :=
  fun column ↦ cellUnder names row (Columns.name column)

/-- Whether some column of the record is named twice, so that its cell is not determined. -/
def isAmbiguous (C : Type) [Columns C] (names : List String) : Bool :=
  (Columns.all (C := C)).any fun column ↦ 1 < names.count (Columns.name column)

/-- The records of a header and the rows below it.  Rows shorter than the header are no records. -/
def recordsUnder (names : List String) (rows : List Row) : List (Record C) :=
  if isAmbiguous C names then []
  else (rows.filter fun row ↦ names.length ≤ row.length).map (Record.ofRow names)

/-- The records of a cleaned export; there must be one. -/
def records (C : Type) [Columns C] (provider : Provider) (rows : List Row) :
    Except Fault (List (Record C)) :=
  let found := recordsUnder (columnNames (rows.headD [])) rows.tail
  if found = [] then .error (.noValidRows provider) else .ok found

end CloudLedger.Table
