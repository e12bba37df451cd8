import CloudLedger.Fault
import CloudLedger.Table.Csv
import CloudLedger.Text.Blank

/-!
# Cleaning

Exports are untidy: banners stand above the header, blank lines between rows and short sums below
them.  A `Width` says how many cells a row may have.  `RowStream.next` hands out acceptable rows one
by one, and `RowStream.clean` cleans a whole export at once; the two differ in rows that are too
long, which the first passes over and the second cuts.
-/

namespace CloudLedger.Table

open Text

/-- The least and the greatest number of cells of a row. -/
structure Width where
  least : Nat
  most : Nat
  most_pos : 0 < most
  least_le : least ≤ most
deriving DecidableEq

namespace Width

/-- The width with these bounds; without a least one, rows have exactly the greatest number. -/
def of (most : Nat) (least? : Option Nat) : Except Fault Width :=
  let least := least?.getD most
  if hpos : 0 < most then
    if hle : least ≤ most then .ok ⟨least, most, hpos, hle⟩
    else .error (.configuration (.widthsReversed least most))
  else .error (.configuration .zeroWidth)

/-- Whether a number of cells is within the bounds. -/
def fits (w : Width) (cells : Nat) : Bool := w.least ≤ cells && cells ≤ w.most

end Width

/-- Whether some cell of a row is not blank. -/
def hasText (row : Row) : Bool := row.any fun cell ↦ !isBlankText cell

/-- Whether a row can be handed out as it is. -/
def Width.admits (w : Width) (row : Row) : Bool := hasText row && w.fits row.length

/-- Rows in order, and the fault that breaks them off, if one does. -/
structure RowStream where
  rows : List Row
  failure : Option Fault := none

namespace RowStream

/-- The rows of a comma-separated text. -/
def ofBytes (bytes : List UInt8) : RowStream := { rows := Csv.read bytes }

/-- The next acceptable row and the source that is left, or nothing at the end. -/
def next (w : Width) (s : RowStream) : Except Fault (Option (Row × RowStream)) :=
  match s.rows.dropWhile fun row ↦ !w.admits row with
  | row :: rest => .ok (some (row, { s with rows := rest }))
  | [] => match s.failure with
    | some fault => .error fault
    | none => .ok none

theorem length_lt_of_next {w : Width} {s rest : RowStream} {row : Row}
    (h : s.next w = .ok (some (row, rest))) : rest.rows.length < s.rows.length := by
  have hle : (s.rows.dropWhile fun row ↦ !w.admits row).length ≤ s.rows.length :=
    (List.dropWhile_suffix _).length_le
  unfold next at h
  split at h
  · rename_i first others heq
    rw [heq] at hle
    cases h
    exact hle
  · split at h <;> cases h

/-- Take rows one by one until the source ends; how it ended comes last. -/
def takeAll (w : Width) (s : RowStream) : List Row × Option Fault :=
  match h : s.next w with
  | .error fault => ([], some fault)
  | .ok none => ([], none)
  | .ok (some (row, rest)) =>
    have := length_lt_of_next h
    let (rows, ending) := rest.takeAll w
    (row :: rows, ending)
termination_by s.rows.length

/-- Clean all rows: drop blank ones, then short ones, and cut long ones. -/
def clean (w : Width) (s : RowStream) : Except Fault (List Row) :=
  match s.failure with
  | some fault => .error fault
  | none =>
    let filled := s.rows.filter hasText
    let kept := (filled.filter fun row ↦ w.least ≤ row.length).map (List.take w.most)
    if s.rows = [] then .error (.exhausted .reading)
    else if filled = [] then .error (.exhausted .droppingBlank)
    else if kept = [] then .error (.exhausted .droppingShort)
    else .ok kept

end RowStream

end CloudLedger.Table
