import CloudLedger.Calendar.Reference
import CloudLedger.Calendar.Timestamp
import CloudLedger.Period

/-!
# Dates of line items

A line item is billed to the day in its cells, given as three numbers or as a timestamp.  What the
cells do not give is taken from the reference day: each of three numbers on its own, a timestamp as
a whole.  A timestamp counts for the day written in it, whatever the day was elsewhere.
-/

namespace CloudLedger.Usage

open Calendar Text

/-- The number in a cell, if it lies between two bounds. -/
def numberIn? (low high : Nat) (cell : String) : Option Nat :=
  (readUnsigned? (trimChars cell.toList)).filter fun n ↦ low ≤ n && n ≤ high

/-- The year in a cell, if it lies between 1 and 9999.  Unlike a day or a month it is read with a
sign, so that a negative year is a number, and one that lies out of bounds. -/
def yearIn? (cell : String) : Option Int :=
  (readSigned? (trimChars cell.toList)).filter fun n ↦ 1 ≤ n && n ≤ 9999

/-- The period given by three cells, with the parts of a day in place of those that are missing. -/
def periodOfCells (today : Period) (day month year : String) : Period where
  day := ((numberIn? 1 31 day).map UInt32.ofNat).getD today.day
  month := ((numberIn? 1 12 month).map UInt32.ofNat).getD today.month
  year := ((yearIn? year).map Int32.ofInt).getD today.year

/-- The day of a timestamp, with a day in place of one that cannot be read. -/
def periodOfTimestamp (today : Period) (cell : String) : Period :=
  ((Timestamp.read? cell).map fun stamp ↦ Period.ofDate stamp.date).getD today

end CloudLedger.Usage
