import CloudLedger.Text.Blank
import CloudLedger.Text.Numeral

/-!
# Reading measures

A cell holds a measure if it is a decimal with an optional sign, an optional point and an optional
exponent, or the name of an infinity or of "not a number".  `readNumber?` reads such a text to the
nearest floating-point number; `readMeasure` puts zero for whatever is not a finite number, so that
a damaged cell never spoils a sum.
-/

namespace CloudLedger.Amount

open Text

/-- The decimal `significand * 10 ^ exponent` as it stands in a text, before any rounding. -/
structure Written where
  significand : Nat
  exponent : Int
deriving DecidableEq

def Written.toFloat (w : Written) : Float :=
  Float.ofScientific w.significand (decide (w.exponent < 0)) w.exponent.natAbs

/-- Split off an optional sign; the flag tells a minus sign. -/
def splitSign : List Char → Bool × List Char
  | '-' :: cs => (true, cs)
  | '+' :: cs => (false, cs)
  | cs => (false, cs)

/-- An exponent that is large enough: the digits after those that reach it do not count. -/
def ampleExponent : Nat := 65536

/-- The number that the digits of an exponent denote. -/
def exponentValue (ds : List Char) : Nat :=
  ds.foldl (fun n d ↦ if n < ampleExponent then 10 * n + digitValue d else n) 0

def readExponent? (cs : List Char) : Option Int :=
  let (negative, ds) := splitSign cs
  if ds ≠ [] ∧ ds.all isDigit then
    some (if negative then -(exponentValue ds : Int) else exponentValue ds)
  else none

/-- Read what follows the digits of a number: nothing, or an exponent. -/
def readTail? : List Char → Option Int
  | [] => some 0
  | c :: cs => if c = 'e' ∨ c = 'E' then readExponent? cs else none

/-- Read a decimal without a sign.  One digit is needed, before or after the point. -/
def readWritten? (cs : List Char) : Option Written :=
  let whole := cs.takeWhile isDigit
  let rest := cs.dropWhile isDigit
  let (fraction, tail) := match rest with
    | '.' :: r => (r.takeWhile isDigit, r.dropWhile isDigit)
    | r => ([], r)
  if whole = [] ∧ fraction = [] then none
  else (readTail? tail).map fun e ↦ ⟨digitsValue (whole ++ fraction), e - fraction.length⟩

/-- The names of the numbers that are not finite, in lower case. -/
def namedNumber? (cs : List Char) : Option Float :=
  let name := String.ofList (cs.map Char.toLower)
  if name = "inf" ∨ name = "infinity" then some (1.0 / 0.0)
  else if name = "nan" then some (0.0 / 0.0)
  else none

def readNumber? (cs : List Char) : Option Float :=
  let (negative, rest) := splitSign cs
  let magnitude := (namedNumber? rest).or ((readWritten? rest).map Written.toFloat)
  magnitude.map fun x ↦ if negative then -x else x

/-- Read the measure in a cell; whatever is not a finite number counts as zero. -/
def readMeasure (cell : String) : Float :=
  match readNumber? (trimChars cell.toList) with
  | some x => if x.isFinite then x else 0.0
  | none => 0.0

end CloudLedger.Amount
