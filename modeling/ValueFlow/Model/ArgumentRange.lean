/-
  ValueFlow.Model.ArgumentRange

  Ranges of argument positions, written `Argument[i]` or `Argument[i..j]`.

  Position -1 is the receiver. Both ends fit in 32 bits with sign. Between the
  numbers stand up to two points, and the second number may be missing.
-/

import ValueFlow.Text.Decimal

namespace ValueFlow

/-- Argument positions from `first` to `last`, both included. -/
structure ArgumentRange where
  first : Int
  last : Int
deriving DecidableEq, Repr, Ord

namespace ArgumentRange

/-- How the text of every range starts. -/
def opening : String := "Argument["

/-- An integer of 32 bits with sign. -/
def Fits (value : Int) : Prop := -0x80000000 ≤ value ∧ value < 0x80000000

instance decidableFits (value : Int) : Decidable (Fits value) :=
  inferInstanceAs (Decidable (_ ∧ _))

/-- A value, if it fits. -/
def int32? (value : Int) : Option Int := if Fits value then some value else none

/-- A number with its sign. -/
def signed (negative : Bool) (magnitude : Nat) : Int :=
  if negative then -magnitude else magnitude

/-- Drops at most `count` points. -/
def dropPoints : Nat → List Char → List Char
  | count + 1, '.' :: cs => dropPoints count cs
  | _, cs => cs

/-- The second number of a range, with the closing bracket after it: absent, or
    digits whose value fits. -/
def last? (first : Int) (cs : List Char) : Option Int :=
  let digits := cs.takeWhile Text.isDigit
  if cs.dropWhile Text.isDigit = [']'] then
    if digits.isEmpty then some first else int32? (Text.digitsValue digits)
  else none

/-- The range that digits and what follows them stand for, after a sign or none. -/
def numbers? (negative : Bool) (cs : List Char) : Option ArgumentRange :=
  let digits := cs.takeWhile Text.isDigit
  if digits.isEmpty then none
  else do
    let first ← int32? (signed negative (Text.digitsValue digits))
    let last ← last? first (dropPoints 2 (cs.dropWhile Text.isDigit))
    some ⟨first, last⟩

/-- Reads a range. -/
def parse? (text : String) : Option ArgumentRange :=
  if opening.toList.isPrefixOf text.toList then
    let cs := text.toList.drop opening.toList.length
    let negative := cs.head? == some '-'
    numbers? negative (if negative then cs.drop 1 else cs)
  else none

/-- How a range is shown. -/
def text (range : ArgumentRange) : String :=
  if range.first = range.last then opening ++ toString range.first ++ "]"
  else opening ++ toString range.first ++ ".." ++ toString range.last ++ "]"

/-- Number of positions. -/
def count (range : ArgumentRange) : Nat :=
  (range.last + 1 - range.first).toNat

/-- The leading positions, at most `limit` of them. -/
def leading (range : ArgumentRange) (limit : Nat) : List Int :=
  (List.range (min limit range.count)).map fun (i : Nat) => range.first + i

/-- All positions in increasing order. -/
def positions (range : ArgumentRange) : List Int :=
  range.leading range.count

end ArgumentRange
end ValueFlow
