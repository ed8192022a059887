/-
  ValueFlow.Json.Basic

  JSON values and their text.

  An object keeps its fields in order, repeated names included, because a reader
  refuses some repetitions. A number without fraction and exponent that fits in
  64 bits, signed or not, is an integer; any other number is a binary one.
-/

import ValueFlow.Decimal.Shortest
import ValueFlow.Sorted
import ValueFlow.Text.Quoted

namespace ValueFlow

/-- A JSON value. -/
inductive Json where
  | null
  | bool (value : Bool)
  | int (value : Int)
  | real (value : Double)
  | str (value : String)
  | arr (items : List Json)
  | obj (fields : List (String × Json))
deriving Repr

namespace Json

/-! ## Strings in text -/

/-- How a character stands in a JSON string: only the quote, the backslash and
    control characters are escaped. -/
def textChar (c : Char) : List Char :=
  if c = '"' then ['\\', '"']
  else if c = '\\' then ['\\', '\\']
  else if c = '\n' then ['\\', 'n']
  else if c = '\r' then ['\\', 'r']
  else if c = '\t' then ['\\', 't']
  else if c = '\x08' then ['\\', 'b']
  else if c = '\x0c' then ['\\', 'f']
  else if c.toNat < 0x20 then
    let digits := Text.hexDigits c.toNat
    "\\u".toList ++ List.replicate (4 - digits.length) '0' ++ digits
  else [c]

/-- A string between quotes. -/
def textString (s : String) : String :=
  String.ofList ('"' :: s.toList.flatMap textChar ++ ['"'])

/-! ## Numbers in text -/

/-- Whole digits times a power of ten: with a point if the first digit stands from the
    fifth place after the point to the sixteenth before it, else with an exponent. -/
def decimalText (digits : List Char) (power : Int) : List Char :=
  let zeros (count : Int) := List.replicate count.toNat '0'
  let lead := power + digits.length - 1
  if lead < -5 ∨ 15 < lead then
    let sign := if lead < 0 then '-' else '+'
    let fraction := if digits.length ≤ 1 then [] else '.' :: digits.drop 1
    digits.take 1 ++ fraction ++ 'e' :: sign :: Nat.toDigits 10 lead.natAbs
  else if lead < 0 then '0' :: '.' :: zeros (-lead - 1) ++ digits
  else if 0 ≤ power then digits ++ zeros power ++ ['.', '0']
  else digits.take (lead + 1).toNat ++ '.' :: digits.drop (lead + 1).toNat

/-- A binary number by its shortest decimal. -/
def realText (value : Double) : String :=
  let sign := if value.negative then ['-'] else []
  let (digits, power) := value.shortest
  let magnitude := if value.isZero then "0.0".toList
    else decimalText (Nat.toDigits 10 digits) power
  String.ofList (sign ++ magnitude)

/-! ## Without blanks -/

mutual

/-- The value without any blank between tokens. -/
def compact : Json → String
  | .null => "null"
  | .bool true => "true"
  | .bool false => "false"
  | .int value => toString value
  | .real value => realText value
  | .str value => textString value
  | .arr items => "[" ++ compactItems items ++ "]"
  | .obj fields => "\x7b" ++ compactFields fields ++ "\x7d"

/-- The items of an array, separated by commas. -/
def compactItems : List Json → String
  | [] => ""
  | [item] => compact item
  | item :: second :: rest => compact item ++ "," ++ compactItems (second :: rest)

/-- The fields of an object, separated by commas. -/
def compactFields : List (String × Json) → String
  | [] => ""
  | [(name, value)] => textString name ++ ":" ++ compact value
  | (name, value) :: second :: rest =>
    textString name ++ ":" ++ compact value ++ "," ++ compactFields (second :: rest)

end

/-! ## Over several lines -/

/-- A line end followed by the indentation of a nesting level. -/
def newline (level : Nat) : String :=
  "\n" ++ String.ofList (List.replicate (2 * level) ' ')

mutual

/-- The value with one item or field on a line, two blanks for each level. -/
def prettyAt (level : Nat) : Json → String
  | .null => "null"
  | .bool true => "true"
  | .bool false => "false"
  | .int value => toString value
  | .real value => realText value
  | .str value => textString value
  | .arr [] => "[]"
  | .arr (item :: rest) =>
    "[" ++ prettyItems (level + 1) (item :: rest) ++ newline level ++ "]"
  | .obj [] => "\x7b\x7d"
  | .obj (field :: rest) =>
    "\x7b" ++ prettyFields (level + 1) (field :: rest) ++ newline level ++ "\x7d"

/-- The items of an array, each on its line. -/
def prettyItems (level : Nat) : List Json → String
  | [] => ""
  | [item] => newline level ++ prettyAt level item
  | item :: second :: rest =>
    newline level ++ prettyAt level item ++ "," ++ prettyItems level (second :: rest)

/-- The fields of an object, each on its line. -/
def prettyFields (level : Nat) : List (String × Json) → String
  | [] => ""
  | [(name, value)] => newline level ++ textString name ++ ": " ++ prettyAt level value
  | (name, value) :: second :: rest =>
    newline level ++ textString name ++ ": " ++ prettyAt level value ++ ","
      ++ prettyFields level (second :: rest)

end

/-- The value over several lines, from the outermost level. -/
def pretty (value : Json) : String :=
  prettyAt 0 value

/-! ## One field of a name -/

mutual

/-- The value with the last of all fields of one name in an object, in the order of their
    names. -/
def canonical : Json → Json
  | .null => .null
  | .bool value => .bool value
  | .int value => .int value
  | .real value => .real value
  | .str value => .str value
  | .arr items => .arr (canonicalItems items)
  | .obj fields => .obj (canonicalFields fields)

/-- The items of an array. -/
def canonicalItems : List Json → List Json
  | [] => []
  | item :: rest => canonical item :: canonicalItems rest

/-- The fields of an object. -/
def canonicalFields : List (String × Json) → List (String × Json)
  | [] => []
  | (name, value) :: rest =>
    let later := canonicalFields rest
    match Sorted.find? name later with
    | some _ => later
    | none => Sorted.put name (canonical value) later

end

/-! ## Encoding -/

/-- Null in place of an absent value. -/
def ofOption {α : Type} (encode : α → Json) : Option α → Json
  | none => .null
  | some a => encode a

/-- An array of encoded members. -/
def ofList {α : Type} (encode : α → Json) (items : List α) : Json :=
  .arr (items.map encode)

end Json
end ValueFlow
