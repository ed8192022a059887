/-
  ValueFlow.Text.Decimal

  Decimal digits and their value.
-/

namespace ValueFlow
namespace Text

/-- Whether a character is a decimal digit. -/
def isDigit (c : Char) : Bool := '0' ≤ c && c ≤ '9'

/-- The value of decimal digits. -/
def digitsValue (digits : List Char) : Nat :=
  digits.foldl (fun n c => 10 * n + (c.toNat - '0'.toNat)) 0

end Text
end ValueFlow
