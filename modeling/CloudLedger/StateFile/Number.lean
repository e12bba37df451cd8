import CloudLedger.StateFile.Scan

/-!
# Numbers in a state file

A number is gathered digit by digit in 64 bits.  Once a further digit does not fit, the digits
before the point only raise the exponent and those after it are dropped.  A number with a point or
an exponent is then the gathered significand, rounded, times or over a power of ten, rounded again;
this is not always the floating-point number nearest to the text.
-/

namespace CloudLedger.StateFile

/-- A number as it stands in a document. -/
inductive Number where
  | whole (n : Int)
  | real (x : Float)

/-- The greatest significand that is gathered, which has 64 bits. -/
def greatestSignificand : Nat := 18446744073709551615

/-- The greatest significand of a whole number with a minus sign. -/
def greatestNegated : Nat := 9223372036854775808

/-- The greatest exponent whose power of ten is a floating-point number. -/
def greatestPower : Nat := 308

/-- The greatest exponent that is read as a number. -/
def greatestExponent : Nat := 2147483647

def digitOf (b : UInt8) : Nat := b.toNat - 0x30

/-- Gather digits as long as the significand fits, and give back the digits that are left. -/
def gather (significand : Nat) : List UInt8 → Nat × List UInt8
  | [] => (significand, [])
  | b :: bs =>
    let next := 10 * significand + digitOf b
    if next ≤ greatestSignificand then gather next bs else (significand, b :: bs)

/-- The floating-point number of a significand. -/
def rounded (significand : Nat) : Float := significand.toUInt64.toFloat

def powerOfTen (n : Nat) : Float := Float.ofScientific 1 false n

/-- Scale a number by a power of ten, in at most `steps` divisions by the greatest power. -/
def scale (x : Float) (exponent : Int) : Nat → Except DocumentFault Float
  | 0 => .ok x
  | steps + 1 =>
    if exponent.natAbs ≤ greatestPower then
      if 0 ≤ exponent then
        let scaled := x * powerOfTen exponent.natAbs
        if scaled.isInf then .error .malformed else .ok scaled
      else .ok (x / powerOfTen exponent.natAbs)
    else if x == 0 then .ok x
    else if 0 ≤ exponent then .error .malformed
    else scale (x / powerOfTen greatestPower) (exponent + greatestPower) steps

/-- The number of a significand and an exponent.  Each division lowers the exponent's size by the
greatest power. -/
def assemble (significand : Nat) (exponent : Int) : Except DocumentFault Float :=
  scale (rounded significand) exponent (exponent.natAbs / greatestPower + 1)

/-- Read an exponent after its letter and finish the number. -/
def exponent (significand : Nat) (start : Int) (bs : List UInt8) :
    Except DocumentFault (Scanned Float) := do
  let (negative, unsigned) := match bs with
    | b :: rest => if b = byteOf '-' then (true, rest) else if b = byteOf '+' then (false, rest)
      else (false, bs)
    | [] => (false, [])
  let digits := unsigned.takeWhile isDigitByte
  let rest := unsigned.dropWhile isDigitByte
  let n := digits.foldl (fun n b ↦ 10 * n + digitOf b) 0
  if digits = [] then .error (if rest = [] then .unfinished else .malformed)
  else if n ≤ greatestExponent then
    let x ← assemble significand (if negative then start - n else start + n)
    .ok (x, rest)
  else if significand ≠ 0 ∧ !negative then .error .malformed
  else .ok (0, rest)

/-- Whether a byte is the letter before an exponent. -/
def isExponentLetter (b : UInt8) : Bool := b = byteOf 'e' || b = byteOf 'E'

/-- Finish a number whose digits have been read. -/
def tail (significand : Nat) (start : Int) : List UInt8 → Except DocumentFault (Scanned Float)
  | [] => do return (← assemble significand start, [])
  | b :: bs =>
    if isExponentLetter b then exponent significand start bs
    else do return (← assemble significand start, b :: bs)

/-- Read the digits after the point and finish the number. -/
def fraction (significand : Nat) (start : Int) (bs : List UInt8) :
    Except DocumentFault (Scanned Float) :=
  let digits := bs.takeWhile isDigitByte
  let rest := bs.dropWhile isDigitByte
  if digits = [] then .error (if rest = [] then .unfinished else .malformed)
  else
    let (gathered, dropped) := gather significand digits
    tail gathered (start - (digits.length - dropped.length : Nat)) rest

/-- Give a number without a sign the sign that stands before it.  A whole number that the sign takes
out of its range is kept as a floating-point number. -/
def signed (negative : Bool) (significand : Nat) : Number :=
  if negative then
    if 0 < significand ∧ significand ≤ greatestNegated then .whole (-significand)
    else .real (-(rounded significand))
  else .whole significand

/-- Read a number after its sign. -/
def unsignedNumber (negative : Bool) (bs : List UInt8) :
    Except DocumentFault (Scanned Number) := do
  let digits := bs.takeWhile isDigitByte
  let rest := bs.dropWhile isDigitByte
  let (significand, extra) := gather 0 digits
  let sign (x : Float) : Number := .real (if negative then -x else x)
  if digits = [] then .error (if rest = [] then .unfinished else .malformed)
  else if digits.head? = some 0x30 ∧ 1 < digits.length then .error .malformed
  else match rest with
    | b :: after =>
      if b = byteOf '.' then
        let (x, rest) ← fraction significand extra.length after
        .ok (sign x, rest)
      else if extra ≠ [] ∨ isExponentLetter b then
        let (x, rest) ← tail significand extra.length rest
        .ok (sign x, rest)
      else .ok (signed negative significand, rest)
    | [] =>
      if extra ≠ [] then
        let x ← assemble significand extra.length
        .ok (sign x, [])
      else .ok (signed negative significand, [])

def number : List UInt8 → Except DocumentFault (Scanned Number)
  | [] => .error .unfinished
  | b :: bs => if b = byteOf '-' then unsignedNumber true bs else unsignedNumber false (b :: bs)

def startsNumber (b : UInt8) : Bool := b = byteOf '-' || isDigitByte b

def Number.toFloat : Number → Float
  | .whole n => if n < 0 then -(rounded n.natAbs) else rounded n.natAbs
  | .real x => x

/-- Pass over the digits of an exponent, which must be there. -/
def skipExponent (bs : List UInt8) : Except DocumentFault (Scanned Unit) :=
  let unsigned := match bs with
    | b :: rest => if b = byteOf '-' ∨ b = byteOf '+' then rest else bs
    | [] => []
  if unsigned.takeWhile isDigitByte = [] then .error .malformed
  else .ok ((), unsigned.dropWhile isDigitByte)

/-- Pass over an exponent, if there is one. -/
def skipTail : List UInt8 → Except DocumentFault (Scanned Unit)
  | [] => .ok ((), [])
  | b :: bs => if isExponentLetter b then skipExponent bs else .ok ((), b :: bs)

/-- Pass over a number after its sign, however large it is. -/
def skipNumber (bs : List UInt8) : Except DocumentFault (Scanned Unit) :=
  let digits := bs.takeWhile isDigitByte
  let rest := bs.dropWhile isDigitByte
  if digits = [] then .error .malformed
  else if digits.head? = some 0x30 ∧ 1 < digits.length then .error .malformed
  else match rest with
    | b :: after =>
      if b = byteOf '.' then
        if after.takeWhile isDigitByte = [] then .error .malformed
        else skipTail (after.dropWhile isDigitByte)
      else skipTail rest
    | [] => .ok ((), [])

end CloudLedger.StateFile
