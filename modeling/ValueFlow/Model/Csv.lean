/-
  ValueFlow.Model.Csv

  Lines of comma-separated fields.

  A field that starts with a quote ends at the next quote and may contain commas;
  without a next quote it is read like any other field, up to the next comma. There
  is no way to write a quote inside a quoted field.
-/

import ValueFlow.Model.Error
import ValueFlow.Text.Split

namespace ValueFlow
namespace Csv

/-- The first field of a line and what follows it. -/
def field : List Char → List Char × List Char
  | '"' :: cs =>
    if cs.contains '"' then
      (cs.takeWhile (· != '"'), (cs.dropWhile (· != '"')).drop 1)
    else
      -- The quote is never closed, so it is an ordinary character.
      (('"' :: cs).takeWhile (· != ','), ('"' :: cs).dropWhile (· != ','))
  | cs => (cs.takeWhile (· != ','), cs.dropWhile (· != ','))

/-- The fields of a line, at most `bound + 1` of them; what follows a field has to
    be a comma or the end. -/
def fieldsUpTo : Nat → List Char → Except ModelError (List (List Char))
  | bound, cs =>
    match field cs with
    | (value, []) => .ok [value]
    | (value, c :: rest) =>
      match bound with
      | 0 => .error (.afterQuote (String.ofList (c :: rest)))
      | bound + 1 =>
        if c = ',' then (fieldsUpTo bound rest).map fun values => value :: values
        else .error (.afterQuote (String.ofList (c :: rest)))

/-- Drops carriage returns at the end of a line. -/
def dropReturns (cs : List Char) : List Char :=
  (cs.reverse.dropWhile (· == '\r')).reverse

/-- The fields of a line; a blank line has none. -/
def fields (line : List Char) : Except ModelError (List String) :=
  let cs := dropReturns line
  if (Text.trim cs).isEmpty then .ok []
  else (fieldsUpTo cs.length cs).map fun values => values.map String.ofList

/-- Reads the rows of lines that are counted from `number`; blank lines are skipped,
    and the first mistake ends it. -/
def rowsFrom {α : Type} (origin : String) (row : List String → Except ModelError α) :
    Nat → List (List Char) → Except ModelError (List α)
  | _, [] => .ok []
  | number, line :: rest =>
    match fields line with
    | .error reason => .error (.row origin number reason)
    | .ok [] => rowsFrom origin row (number + 1) rest
    | .ok (first :: others) =>
      match row (first :: others) with
      | .error reason => .error (.row origin number reason)
      | .ok a => (rowsFrom origin row (number + 1) rest).map fun rows => a :: rows

/-- Reads the rows of a table, whose first line is a header. -/
def rows {α : Type} (origin : String) (row : List String → Except ModelError α)
    (text : String) : Except ModelError (List α) :=
  rowsFrom origin row 2 ((Text.lines text.toList).drop 1)

end Csv
end ValueFlow
