/-
  ValueFlow.Decimal.Shortest

  The shortest decimal that stands for a binary number.

  The reals that round to a number form an interval from halfway to the number
  below to halfway to the number above; its ends belong to it if the significand is
  even. The shortest decimal is the multiple in this interval of the greatest
  possible power of ten, and of two such multiples the nearer one.
-/

import ValueFlow.Decimal.Double

namespace ValueFlow
namespace Double

/-- Whether the number below is half as far away as the number above. -/
def isNarrowBelow (x : Double) : Bool :=
  x.significand == significandLimit / 2 && x.exponent != leastExponent

/-- Numbers in quarters of the last bit: how many a multiple of the power of ten `grid`
    has, and how many the last bit counts, on one scale. -/
def gridUnits (x : Double) (grid : Int) : Nat × Nat :=
  (Nat.shiftLeft (Nat.pow 10 grid.toNat) (2 - x.exponent).toNat,
    Nat.shiftLeft (Nat.pow 10 (-grid).toNat) (x.exponent - 2).toNat)

/-- Whether `count` multiples of a unit round to the number, with quarters of the last bit
    on the scale of that unit. -/
def isRoundedFrom (x : Double) (unit quarter count : Nat) : Bool :=
  let low := (4 * x.significand - if x.isNarrowBelow then 1 else 2) * quarter
  let high := (4 * x.significand + 2) * quarter
  if x.significand % 2 = 0 then low ≤ count * unit && count * unit ≤ high
  else low < count * unit && count * unit < high

/-- The multiple of a power of ten that rounds to the number: the nearer one of two, and
    the even one of two equally near ones. -/
def multiple? (x : Double) (grid : Int) : Option Nat :=
  let (unit, quarter) := x.gridUnits grid
  let exact := 4 * x.significand * quarter
  let below := exact / unit
  match x.isRoundedFrom unit quarter below, x.isRoundedFrom unit quarter (below + 1) with
  | true, true => some (Double.roundQuotient exact unit)
  | true, false => some below
  | false, true => some (below + 1)
  | false, false => none

/-- The powers of ten that the last digit of a number can have, the greatest first. -/
def grids : List Int := (List.range 640).map fun (i : Nat) => 308 - (i : Int)

/-- The digits of the magnitude as a whole number, and the power of ten it is times. -/
def shortest (x : Double) : Nat × Int :=
  (grids.findSome? fun grid => (x.multiple? grid).map fun count => (count, grid)).getD (0, 0)

end Double
end ValueFlow
