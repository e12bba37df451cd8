import CloudLedger.Amount.Binary64

/-!
# The shortest decimal of a number

All reals of a certain interval round to the same floating-point number.  The decimal that is
written for it is the point of the coarsest decimal grid that meets this interval, and of two points
on that grid the one nearer to the number, or the even one halfway.  It has the fewest digits that
read back, and its last digit is not zero.

The interval ends halfway to the neighbouring numbers.  The ends belong to it exactly if the
significand is even, because a half goes to the even neighbour.  The neighbour below a power of two
is twice as near as the one above.
-/

namespace CloudLedger.Amount

/-- The decimal `digits * 10 ^ exponent`. -/
structure Decimal where
  digits : Nat
  exponent : Int
deriving DecidableEq

/-- The reals that round to one number, in units of `2 ^ scale`. -/
structure Interval where
  low : Nat
  value : Nat
  high : Nat
  scale : Int
  /-- Whether the ends round to the number too. -/
  closed : Bool

def Binary.interval (b : Binary) : Interval where
  low := if b.significand = fractions ∧ leastExponent < b.exponent then
      4 * b.significand - 1 else 4 * b.significand - 2
  value := 4 * b.significand
  high := 4 * b.significand + 2
  scale := b.exponent - 2
  closed := b.significand % 2 = 0

/-- The point nearest to the number on the grid of the multiples of `10 ^ k`, if one of the number's
two neighbours on the grid lies in the interval. -/
def Interval.onGrid? (i : Interval) (k : Int) : Option Decimal :=
  let up := Nat.pow 2 i.scale.toNat * Nat.pow 10 (-k).toNat
  let down := Nat.pow 2 (-i.scale).toNat * Nat.pow 10 k.toNat
  let within (d : Nat) : Bool :=
    if i.closed then i.low * up ≤ d * down && d * down ≤ i.high * up
    else i.low * up < d * down && d * down < i.high * up
  let below := i.value * up / down
  match within below, within (below + 1) with
  | false, false => none
  | true, false => some ⟨below, k⟩
  | false, true => some ⟨below + 1, k⟩
  | true, true =>
    let value := 2 * (i.value * up)
    let middle := (2 * below + 1) * down
    if value < middle ∨ (value = middle ∧ below % 2 = 0) then some ⟨below, k⟩
    else some ⟨below + 1, k⟩

/-- A power of ten above the number: the grids from there on are too coarse to meet the interval. -/
def Binary.coarsest (b : Binary) : Int :=
  ((b.exponent + b.significand.log2 + 1) * 30103) / 100000 + 2

/-- The shortest decimal of a positive number.  Twenty-two grids suffice: seventeen digits always
read back. -/
def Binary.shortest (b : Binary) : Decimal :=
  ((List.range 22).findSome? fun (n : Nat) ↦
    b.interval.onGrid? (b.coarsest - n)).getD ⟨0, 0⟩

end CloudLedger.Amount
