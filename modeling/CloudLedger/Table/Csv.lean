import CloudLedger.Text.Utf8

/-!
# Comma-separated tables

Exports arrive and archives leave as comma-separated text.  Rows end at a line feed, a carriage
return or both; empty lines are no rows.  A quote is special as the first character of a cell only;
within quotes it is written twice, and what follows the closing quote still belongs to the cell.

Tables are read and written byte by byte, and each cell is decoded on its own, so that damaged
characters stay within their cell.
-/

namespace CloudLedger.Table

/-- The cells of a row. -/
abbrev Row := List String

namespace Csv

open Text

/-- A comma, which divides cells. -/
def comma : UInt8 := 0x2C

def quote : UInt8 := 0x22

def lineFeed : UInt8 := 0x0A

def carriageReturn : UInt8 := 0x0D

/-- Whether a byte ends a row. -/
def endsRow (b : UInt8) : Bool := b = lineFeed || b = carriageReturn

/-- The mark that some programs put at the start of a text. -/
def byteOrderMark : List UInt8 := [0xEF, 0xBB, 0xBF]

/-- Where in a table the reader is. -/
inductive Position where
  | rowStart
  | cellStart
  | plain
  | quoted
  /-- After a quote within quotes, which closes the cell unless another one follows. -/
  | closing
deriving DecidableEq

/-- The row under way: its finished cells and the bytes of the next one, both latest first. -/
structure Draft where
  cells : List (List UInt8) := []
  cell : List UInt8 := []

namespace Draft

/-- Add a byte to the cell under way. -/
def push (d : Draft) (b : UInt8) : Draft := { d with cell := b :: d.cell }

def close (d : Draft) : Draft := { cells := d.cell.reverse :: d.cells }

def row (d : Draft) : List (List UInt8) := d.close.cells.reverse

end Draft

/-- What a byte does outside quotes: divide cells, end the row or belong to the cell. -/
inductive Effect where
  | divide
  | finish
  | keep

/-- The effect of a byte that stands outside quotes. -/
def effect (b : UInt8) : Effect :=
  if b = comma then .divide else if endsRow b then .finish else .keep

/-- The rows of a text, as bytes, given the reader's position and the row under way. -/
def readFrom : Position → Draft → List UInt8 → List (List (List UInt8))
  | .rowStart, _, [] => []
  | _, d, [] => [d.row]
  | .quoted, d, b :: bs =>
    if b = quote then readFrom .closing d bs else readFrom .quoted (d.push b) bs
  | position, d, b :: bs =>
    if b = quote ∧ position ≠ .plain then
      if position = .closing then readFrom .quoted (d.push b) bs else readFrom .quoted d bs
    else match effect b with
      | .divide => readFrom .cellStart d.close bs
      | .keep => readFrom .plain (d.push b) bs
      | .finish =>
        if position = .rowStart then readFrom .rowStart d bs else d.row :: readFrom .rowStart {} bs

/-- Drop the mark at the start of a text. -/
def dropMark (bs : List UInt8) : List UInt8 :=
  if byteOrderMark.isPrefixOf bs then bs.drop byteOrderMark.length else bs

def read (bs : List UInt8) : List Row :=
  (readFrom .rowStart {} (dropMark bs)).map fun row ↦ row.map Utf8.decodeLossy

/-- Whether a byte makes quotes around its cell necessary. -/
def needsQuotes (b : UInt8) : Bool := b = comma || b = quote || endsRow b

/-- Write a cell, in quotes where they are necessary. -/
def writeCell (cell : List UInt8) : List UInt8 :=
  if cell.any needsQuotes then
    quote :: cell.flatMap (fun b ↦ if b = quote then [quote, quote] else [b]) ++ [quote]
  else cell

/-- Write a row and the line feed that ends it. -/
def writeRow (row : Row) : List UInt8 :=
  [comma].intercalate (row.map fun cell ↦ writeCell (Utf8.encode cell)) ++ [lineFeed]

def write (rows : List Row) : List UInt8 := rows.flatMap writeRow

end Csv

end CloudLedger.Table
