/-
  ValueFlow.Decimal.Double

  Finite binary numbers of 64 bits: a significand of at most 53 bits times a power
  of two.

  Each operation gives the number nearest to the exact result, the even one of two
  that are equally near, and none if the result is beyond the largest number. A
  decimal is read in two such steps: first as many leading digits as fit in 64
  bits, then the product or quotient with a power of ten.
-/

import ValueFlow.Text.Decimal

namespace ValueFlow

/-- A number: `significand * 2 ^ exponent`, with its sign. -/
structure Double where
  negative : Bool
  significand : Nat
  exponent : Int
deriving DecidableEq, Repr

namespace Double

/-- The exponent of the smallest numbers. -/
def leastExponent : Int := -1074

/-- The exponent of the largest numbers. -/
def greatestExponent : Int := 971

/-- Significands are below this. -/
def significandLimit : Nat := 0x20000000000000

/-- Zero, with a sign. -/
def zero (negative : Bool) : Double := ⟨negative, 0, leastExponent⟩

/-- Whether the number is zero, of either sign. -/
def isZero (x : Double) : Bool := x.significand == 0

/-! ## Exact values -/

/-- The magnitude is this over `denominator`. -/
def numerator (x : Double) : Nat := Nat.shiftLeft x.significand x.exponent.toNat

/-- The magnitude is `numerator` over this. -/
def denominator (x : Double) : Nat := Nat.shiftLeft 1 (-x.exponent).toNat

/-! ## Rounding -/

/-- A quotient rounded to a whole number, a half to the even neighbour. -/
def roundQuotient (numerator denominator : Nat) : Nat :=
  let quotient := numerator / denominator
  let twice := 2 * (numerator % denominator)
  if twice < denominator then quotient
  else if denominator < twice then quotient + 1
  else quotient + quotient % 2

/-- The exponent that leaves 53 bits before the point of a ratio, or the least one if
    the ratio is smaller. -/
def exponentFor (numerator denominator : Nat) : Int :=
  -- With this exponent there are 53 or 54 bits.
  let estimate : Int := (numerator.log2 : Int) - denominator.log2 - 53
  let whole := Nat.shiftLeft numerator (-estimate).toNat
    / Nat.shiftLeft denominator estimate.toNat
  let exponent := if whole < significandLimit then estimate else estimate + 1
  if exponent < leastExponent then leastExponent else exponent

/-- The number nearest to a ratio. -/
def ofRatio? (negative : Bool) (numerator denominator : Nat) : Option Double :=
  if numerator = 0 then some (zero negative)
  else
    let exponent := exponentFor numerator denominator
    let significand := roundQuotient (Nat.shiftLeft numerator (-exponent).toNat)
      (Nat.shiftLeft denominator exponent.toNat)
    -- Rounding up can give one bit more.
    let x : Double :=
      if significand = significandLimit then ⟨negative, significandLimit / 2, exponent + 1⟩
      else ⟨negative, significand, exponent⟩
    if x.exponent ≤ greatestExponent then some x else none

/-- The product. -/
def times? (x y : Double) : Option Double :=
  ofRatio? (x.negative != y.negative) (x.numerator * y.numerator)
    (x.denominator * y.denominator)

/-- The quotient by a number other than zero. -/
def over? (x y : Double) : Option Double :=
  ofRatio? (x.negative != y.negative) (x.numerator * y.denominator)
    (x.denominator * y.numerator)

/-! ## Reading decimals -/

/-- Powers of ten up to this one are numbers. -/
def tenPowerLimit : Nat := 308

/-- A power of ten. -/
def tenPower? (power : Nat) : Option Double := ofRatio? false (Nat.pow 10 power) 1

/-- The number times a power of ten. Below the least power of ten that has a number of
    its own, the number is divided several times, at most `bound` times. -/
def timesTenPower? : Nat → Double → Int → Option Double
  | 0, x, _ => some (zero x.negative)
  | bound + 1, x, power =>
    if power.natAbs ≤ tenPowerLimit then do
      let ten ← tenPower? power.natAbs
      if 0 ≤ power then x.times? ten else x.over? ten
    else if x.isZero then some x
    else if 0 ≤ power then none
    else do
      let ten ← tenPower? tenPowerLimit
      timesTenPower? bound (← x.over? ten) (power + tenPowerLimit)

/-- Appends digits to a number as long as it fits in 64 bits, and gives the digits that
    are left. -/
def appendDigits : Nat → List Char → Nat × List Char
  | value, [] => (value, [])
  | value, digit :: rest =>
    let next := 10 * value + (digit.toNat - '0'.toNat)
    if next < 0x10000000000000000 then appendDigits next rest else (value, digit :: rest)

/-- The number written with these digits before and after the point, times a power of
    ten. -/
def ofDecimal? (negative : Bool) (whole fraction : List Char) (power : Int) :
    Option Double := do
  let (leading, wholeLeft) := appendDigits 0 whole
  let (leading, fractionLeft) := appendDigits leading fraction
  let power := power + wholeLeft.length - (fraction.length - fractionLeft.length : Nat)
  let x ← ofRatio? negative leading 1
  -- Three divisions take any number of 64 bits to zero.
  x.timesTenPower? 4 power

end Double
end ValueFlow
