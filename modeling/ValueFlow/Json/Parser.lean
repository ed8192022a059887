/-
  ValueFlow.Json.Parser

  Reading JSON text strictly: no blanks but the four of the format, no leading
  zeros, no raw control characters, no lone surrogates, no number beyond the
  largest binary one, nothing after the value, and at most 127 values inside one
  another.

  A shape says which fields of the records in a text are read. The others are passed
  over: they have to be well formed, but surrogates, size and nesting are free there.
-/

import ValueFlow.Json.Basic
import ValueFlow.Json.Shape
import ValueFlow.Text.Decimal

namespace ValueFlow
namespace Json
namespace Parser

/-- The blanks of the format: space, tab and the two line ends. -/
def isBlank (c : Char) : Bool := c == ' ' || c == '\t' || c == '\n' || c == '\r'

/-- Drops blanks. -/
def skipBlanks (cs : List Char) : List Char := cs.dropWhile isBlank

/-- The text after a fixed word. -/
def expect? (word : List Char) (cs : List Char) : Option (List Char) :=
  if word.isPrefixOf cs then some (cs.drop word.length) else none

/-! ## Numbers -/

/-- A number as it is written. -/
structure Numeral where
  negative : Bool
  /-- Digits before the point. -/
  whole : List Char
  /-- Digits after the point, if there is one. -/
  fraction : List Char
  exponent : Option Int
deriving DecidableEq, Repr

/-- Digits after a decimal point; at least one is needed. -/
def fraction? : List Char → Option (List Char × List Char)
  | '.' :: cs =>
    let digits := cs.takeWhile Text.isDigit
    if digits.isEmpty then none else some (digits, cs.dropWhile Text.isDigit)
  | cs => some ([], cs)

/-- An exponent with its sign; at least one digit is needed. -/
def exponent? : List Char → Option (Option Int × List Char)
  | [] => some (none, [])
  | mark :: cs =>
    if mark = 'e' ∨ mark = 'E' then
      let (negative, cs) := match cs with
        | '+' :: rest => (false, rest)
        | '-' :: rest => (true, rest)
        | _ => (false, cs)
      let digits := cs.takeWhile Text.isDigit
      let magnitude : Int := Text.digitsValue digits
      if digits.isEmpty then none
      else some (some (if negative then -magnitude else magnitude), cs.dropWhile Text.isDigit)
    else some (none, mark :: cs)

/-- A number without leading zeros. -/
def numeral? (cs : List Char) : Option (Numeral × List Char) := do
  let (negative, cs) := match cs with
    | '-' :: rest => (true, rest)
    | _ => (false, cs)
  let whole := cs.takeWhile Text.isDigit
  if whole.isEmpty then none
  else if whole.length > 1 && whole.head? == some '0' then none
  else do
    let (fraction, cs) ← fraction? (cs.dropWhile Text.isDigit)
    let (exponent, cs) ← exponent? cs
    some (⟨negative, whole, fraction, exponent⟩, cs)

/-- Whether an integer fits in 64 bits, signed or unsigned. -/
def fits64 (value : Int) : Bool :=
  -0x8000000000000000 ≤ value && value < 0x10000000000000000

/-- The value of a number, unless it is too large. A negative zero is not an integer. -/
def Numeral.value? (numeral : Numeral) : Option Json :=
  let magnitude : Int := Text.digitsValue numeral.whole
  let value := if numeral.negative then -magnitude else magnitude
  let isWhole := numeral.fraction.isEmpty && numeral.exponent.isNone
  if isWhole && fits64 value && !(numeral.negative && magnitude == 0) then some (.int value)
  else
    (Double.ofDecimal? numeral.negative numeral.whole numeral.fraction
      (numeral.exponent.getD 0)).map .real

/-- The value of a number and what follows it. -/
def number? (cs : List Char) : Option (Json × List Char) := do
  let (numeral, cs) ← numeral? cs
  (numeral.value?).map fun value => (value, cs)

/-! ## Strings -/

/-- The value of a hexadecimal digit. -/
def hexValue? (c : Char) : Option Nat :=
  if '0' ≤ c ∧ c ≤ '9' then some (c.toNat - '0'.toNat)
  else if 'a' ≤ c ∧ c ≤ 'f' then some (c.toNat - 'a'.toNat + 10)
  else if 'A' ≤ c ∧ c ≤ 'F' then some (c.toNat - 'A'.toNat + 10)
  else none

/-- Four hexadecimal digits. -/
def hex4? : List Char → Option (Nat × List Char)
  | a :: b :: c :: d :: cs => do
    let a ← hexValue? a
    let b ← hexValue? b
    let c ← hexValue? c
    let d ← hexValue? d
    some (((a * 16 + b) * 16 + c) * 16 + d, cs)
  | _ => none

/-- The character escaped by number, after `\u`; two surrogates make one. -/
def unicodeEscape? (cs : List Char) : Option (Char × List Char) := do
  let (unit, cs) ← hex4? cs
  if 0xDC00 ≤ unit ∧ unit ≤ 0xDFFF then none
  else if 0xD800 ≤ unit ∧ unit ≤ 0xDBFF then do
    let cs ← expect? ['\\', 'u'] cs
    let (low, cs) ← hex4? cs
    if 0xDC00 ≤ low ∧ low ≤ 0xDFFF then
      some (Char.ofNat (0x10000 + (unit - 0xD800) * 0x400 + (low - 0xDC00)), cs)
    else none
  else some (Char.ofNat unit, cs)

/-- The character escaped by what follows a backslash. -/
def escape? : List Char → Option (Char × List Char)
  | '"' :: cs => some ('"', cs)
  | '\\' :: cs => some ('\\', cs)
  | '/' :: cs => some ('/', cs)
  | 'b' :: cs => some ('\x08', cs)
  | 'f' :: cs => some ('\x0c', cs)
  | 'n' :: cs => some ('\n', cs)
  | 'r' :: cs => some ('\r', cs)
  | 't' :: cs => some ('\t', cs)
  | 'u' :: cs => unicodeEscape? cs
  | _ => none

/-- The rest of a string, after its opening quote; `acc` holds what was read, the
    latest first. -/
def stringRest? : Nat → List Char → List Char → Option (String × List Char)
  | 0, _, _ => none
  | _ + 1, _, [] => none
  | fuel + 1, acc, c :: cs =>
    if c = '"' then some (String.ofList acc.reverse, cs)
    else if c = '\\' then
      match escape? cs with
      | some (c, cs) => stringRest? fuel (c :: acc) cs
      | none => none
    else if c.toNat < 0x20 then none
    else stringRest? fuel (c :: acc) cs

/-- A string with its quotes. -/
def string? : List Char → Option (String × List Char)
  | '"' :: cs => stringRest? (cs.length + 1) [] cs
  | _ => none

/-! ## Passing over values -/

/-- What follows a string, after its opening quote. Surrogates need not be paired. -/
def skipString? : Nat → List Char → Option (List Char)
  | 0, _ => none
  | _ + 1, [] => none
  | fuel + 1, c :: cs =>
    if c = '"' then some cs
    else if c = '\\' then
      match cs with
      | 'u' :: cs =>
        match hex4? cs with
        | some (_, cs) => skipString? fuel cs
        | none => none
      | cs =>
        match escape? cs with
        | some (_, cs) => skipString? fuel cs
        | none => none
    else if c.toNat < 0x20 then none
    else skipString? fuel cs

/-- What is next while a value is passed over. -/
inductive Awaited where
  | value
  /-- The first item or field, or the end, of what was just opened. -/
  | first
  /-- What follows an item or field. -/
  | after
deriving DecidableEq, Repr

/-- What follows a field name with its colon. -/
def skipName? (cs : List Char) : Option (List Char) :=
  match skipBlanks cs with
  | '"' :: cs => do
    let cs ← skipString? (cs.length + 1) cs
    expect? [':'] (skipBlanks cs)
  | _ => none

/-- What follows a value without parts. -/
def skipScalar? : List Char → Option (List Char)
  | '"' :: cs => skipString? (cs.length + 1) cs
  | 'n' :: cs => expect? "ull".toList cs
  | 't' :: cs => expect? "rue".toList cs
  | 'f' :: cs => expect? "alse".toList cs
  | cs => (numeral? cs).map (·.2)

/-- What follows a value. Only its form counts: nesting has no limit, and numbers may be
    of any size. `opened` says of each open array and object, from the inside out,
    whether it is an object. -/
def skipUpTo : Nat → List Bool → Awaited → List Char → Option (List Char)
  | 0, _, _, _ => none
  | fuel + 1, opened, .value, cs =>
    match skipBlanks cs with
    | '[' :: cs => skipUpTo fuel (false :: opened) .first cs
    | '\x7b' :: cs => skipUpTo fuel (true :: opened) .first cs
    | cs =>
      match skipScalar? cs with
      | some cs => skipUpTo fuel opened .after cs
      | none => none
  | fuel + 1, opened, .first, cs =>
    match opened, skipBlanks cs with
    | false :: opened, ']' :: cs => skipUpTo fuel opened .after cs
    | true :: opened, '\x7d' :: cs => skipUpTo fuel opened .after cs
    | true :: _, cs =>
      match skipName? cs with
      | some cs => skipUpTo fuel opened .value cs
      | none => none
    | _, cs => skipUpTo fuel opened .value cs
  | _ + 1, [], .after, cs => some cs
  | fuel + 1, inObject :: opened, .after, cs =>
    match inObject, skipBlanks cs with
    | false, ']' :: cs => skipUpTo fuel opened .after cs
    | true, '\x7d' :: cs => skipUpTo fuel opened .after cs
    | false, ',' :: cs => skipUpTo fuel (false :: opened) .value cs
    | true, ',' :: cs =>
      match skipName? cs with
      | some cs => skipUpTo fuel (true :: opened) .value cs
      | none => none
    | _, _ => none

/-- What follows a value. -/
def skip? (cs : List Char) : Option (List Char) :=
  skipUpTo (3 * cs.length + 3) [] .value cs

/-! ## Values -/

mutual

/-- A value; `depth` is how many more may be nested, `fuel` bounds the tokens. -/
def value? : Nat → Nat → Shape → List Char → Option (Json × List Char)
  | 0, _, _, _ => none
  | fuel + 1, depth, shape, cs =>
    match skipBlanks cs with
    | '"' :: cs => do
      let (s, cs) ← string? ('"' :: cs)
      some (.str s, cs)
    | '[' :: cs =>
      if depth ≤ 1 then none
      else
        match skipBlanks cs with
        | ']' :: cs => some (.arr [], cs)
        | cs => do
          let (items, cs) ← items? fuel (depth - 1) shape 0 cs
          some (.arr items, cs)
    | '\x7b' :: cs =>
      if depth ≤ 1 then none
      else
        match skipBlanks cs with
        | '\x7d' :: cs => some (.obj [], cs)
        | cs => do
          let (fields, cs) ← fields? fuel (depth - 1) shape cs
          some (.obj fields, cs)
    | 'n' :: cs => (expect? "ull".toList cs).map fun cs => (.null, cs)
    | 't' :: cs => (expect? "rue".toList cs).map fun cs => (.bool true, cs)
    | 'f' :: cs => (expect? "alse".toList cs).map fun cs => (.bool false, cs)
    | cs => number? cs

/-- The items of an array from a place on, and its closing bracket. -/
def items? : Nat → Nat → Shape → Nat → List Char → Option (List Json × List Char)
  | 0, _, _, _, _ => none
  | fuel + 1, depth, shape, place, cs => do
    let (item, cs) ← value? fuel depth (shape.item place) cs
    match skipBlanks cs with
    | ',' :: cs => do
      let (items, cs) ← items? fuel depth shape (place + 1) cs
      some (item :: items, cs)
    | ']' :: cs => some ([item], cs)
    | _ => none

/-- The fields of an object and its closing brace. -/
def fields? : Nat → Nat → Shape → List Char → Option (List (String × Json) × List Char)
  | 0, _, _, _ => none
  | fuel + 1, depth, shape, cs => do
    let (name, cs) ← string? (skipBlanks cs)
    let cs ← expect? [':'] (skipBlanks cs)
    let (read, cs) ← field? fuel depth shape name cs
    match skipBlanks cs with
    | ',' :: cs => do
      let (fields, cs) ← fields? fuel depth shape cs
      some (read ++ fields, cs)
    | '\x7d' :: cs => some (read, cs)
    | _ => none

/-- The field of a name, unless it is passed over. -/
def field? : Nat → Nat → Shape → String → List Char →
    Option (List (String × Json) × List Char)
  | 0, _, _, _, _ => none
  | fuel + 1, depth, shape, name, cs =>
    match shape.field? name with
    | none => (skip? cs).map fun cs => ([], cs)
    | some shape => do
      let (value, cs) ← value? fuel depth shape cs
      some ([(name, value)], cs)

end

end Parser

/-- Values may be nested below this depth. -/
def nestingLimit : Nat := 128

/-- The parts of a shape in the value written by a text, if the text is one value and
    nothing else. -/
def parseAs? (shape : Shape) (text : String) : Option Json :=
  let cs := text.toList
  match Parser.value? (3 * cs.length + 3) nestingLimit shape cs with
  | some (value, rest) => if (Parser.skipBlanks rest).isEmpty then some value else none
  | none => none

/-- The value written by a text, if the text is one value and nothing else. -/
def parse? (text : String) : Option Json := parseAs? .whole text

end Json
end ValueFlow
