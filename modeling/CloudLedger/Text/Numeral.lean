/-!
# Decimal numerals

Days, months and years are written as decimal numerals, in exports, in file names and in the bytes
that an identity is derived from.  A numeral is read into a word of 32 bits, with an optional sign
and any number of leading zeros; one whose number does not fit in the word is not read at all.
-/

namespace CloudLedger.Text

def isDigit (c : Char) : Bool := '0' ≤ c && c ≤ '9'

def digitValue (c : Char) : Nat := c.toNat - '0'.toNat

/-- The number that a row of digits denotes. -/
def digitsValue (ds : List Char) : Nat := ds.foldl (fun n d ↦ 10 * n + digitValue d) 0

/-- Read digits alone; at least one is needed. -/
def readDigits? (cs : List Char) : Option Nat :=
  if cs ≠ [] ∧ cs.all isDigit then some (digitsValue cs) else none

/-- The greatest unsigned number of 32 bits. -/
def greatestUnsigned : Nat := 0xFFFFFFFF

/-- The greatest signed number of 32 bits. -/
def greatestSigned : Nat := 0x7FFFFFFF

/-- Read further digits of a number, which must never exceed a limit on the way. -/
def readOn? (limit : Nat) : Nat → List Char → Option Nat
  | n, [] => some n
  | n, d :: ds =>
    let next := 10 * n + digitValue d
    if isDigit d ∧ next ≤ limit then readOn? limit next ds else none

/-- Read digits up to a limit; at least one is needed. -/
def readWithin? (limit : Nat) (cs : List Char) : Option Nat :=
  if cs = [] then none else readOn? limit 0 cs

/-- Read an unsigned numeral, before which a plus sign may stand. -/
def readUnsigned? : List Char → Option Nat
  | '+' :: cs => readWithin? greatestUnsigned cs
  | cs => readWithin? greatestUnsigned cs

/-- Read a signed numeral.  There is one more number below zero than above it. -/
def readSigned? : List Char → Option Int
  | '-' :: cs => (readWithin? (greatestSigned + 1) cs).map fun n : Nat ↦ -(n : Int)
  | '+' :: cs => (readWithin? greatestSigned cs).map fun n : Nat ↦ (n : Int)
  | cs => (readWithin? greatestSigned cs).map fun n : Nat ↦ (n : Int)

/-- The decimal numeral of a natural number. -/
def natNumeral (n : Nat) : String := String.ofList (Nat.toDigits 10 n)

/-- The decimal numeral of an integer, with a minus sign when it is negative. -/
def intNumeral (n : Int) : String :=
  if n < 0 then "-" ++ natNumeral n.natAbs else natNumeral n.natAbs

/-- Pad on the left with zeros to at least `width` characters, keeping a sign in front. -/
def zeroPadded (width : Nat) (n : Int) : String :=
  let sign := if n < 0 then "-" else ""
  let digits := natNumeral n.natAbs
  sign ++ String.ofList (List.replicate (width - sign.length - digits.length) '0') ++ digits

end CloudLedger.Text
