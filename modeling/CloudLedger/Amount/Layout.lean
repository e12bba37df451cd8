import CloudLedger.Amount.Shortest
import CloudLedger.Text.Numeral

/-!
# The text of a measure

Numbers from `1e-5` up to `1e16` are written positionally with at least one digit after the point,
all others with one digit before the point and an exponent.  A `Layout` holds what the two files
decide differently: the mark before a positive exponent and the texts of the numbers that are not
finite.
-/

namespace CloudLedger.Amount

open Text

/-- The decisions of a file format about the text of a number. -/
structure Layout where
  /-- The mark before an exponent that is not negative. -/
  exponentMark : String
  undefined : String
  infinity : String
  minusInfinity : String

/-- State files write a plus sign before an exponent and have no text for numbers that are not
finite. -/
def Layout.state : Layout := ⟨"e+", "null", "null", "null"⟩

/-- Exports write an exponent without a plus sign and name the numbers that are not finite. -/
def Layout.sheet : Layout := ⟨"e", "NaN", "inf", "-inf"⟩

/-- A row of zeros. -/
def zeros (n : Nat) : String := String.ofList (List.replicate n '0')

def Layout.decimal (l : Layout) (d : Decimal) : String :=
  let digits := (natNumeral d.digits).toList
  let point : Int := digits.length + d.exponent
  if 0 < point ∧ point ≤ 16 then
    if 0 ≤ d.exponent then String.ofList digits ++ zeros d.exponent.toNat ++ ".0"
    else String.ofList (digits.take point.toNat) ++ "." ++ String.ofList (digits.drop point.toNat)
  else if -5 < point ∧ point ≤ 0 then "0." ++ zeros (-point).toNat ++ String.ofList digits
  else
    let fraction := if digits.length = 1 then "" else "." ++ String.ofList (digits.drop 1)
    let exponent := point - 1
    let mark := if exponent < 0 then "e" else l.exponentMark
    String.ofList (digits.take 1) ++ fraction ++ mark ++ intNumeral exponent

def Layout.text (l : Layout) (x : Float) : String :=
  match view x with
  | .undefined => l.undefined
  | .infinite false => l.infinity
  | .infinite true => l.minusInfinity
  | .finite b =>
    let magnitude := if b.significand = 0 then "0.0" else l.decimal b.shortest
    if b.negative then "-" ++ magnitude else magnitude

end CloudLedger.Amount
