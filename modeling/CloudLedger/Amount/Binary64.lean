/-!
# The numbers behind floating-point measures

A measure is kept as a binary floating-point number of 64 bits.  `view` takes its bits apart: a
finite number is a sign, a significand and a power of two, and the others are the infinities and
"not a number".  The text of a measure is chosen on this exact value, never on a rounded one.
-/

namespace CloudLedger.Amount

/-- The finite number `significand * 2 ^ exponent`, negated when `negative` holds. -/
structure Binary where
  /-- Whether the number carries a minus sign; a zero may. -/
  negative : Bool
  significand : Nat
  exponent : Int
deriving DecidableEq

/-- What a floating-point number denotes. -/
inductive View where
  | undefined
  | infinite (negative : Bool)
  | finite (value : Binary)
deriving DecidableEq

/-- The number of fractions, which is the least significand of a number whose first bit is implied.
-/
def fractions : Nat := 4503599627370496

/-- The number of exponent fields.  The last one marks the numbers that are not finite. -/
def exponentFields : Nat := 2048

/-- The power of two of the numbers whose exponent field is zero. -/
def leastExponent : Int := -1074

/-- Take the bits of a floating-point number apart. -/
def view (x : Float) : View :=
  let bits := x.toBits.toNat
  let fraction := bits % fractions
  let field := bits / fractions % exponentFields
  let negative := decide (bits / fractions / exponentFields = 1)
  if field = exponentFields - 1 then
    if fraction = 0 then .infinite negative else .undefined
  else if field = 0 then .finite ⟨negative, fraction, leastExponent⟩
  else .finite ⟨negative, fractions + fraction, leastExponent + (field - 1)⟩

end CloudLedger.Amount
