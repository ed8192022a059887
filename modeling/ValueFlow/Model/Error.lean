/-
  ValueFlow.Model.Error

  What can be wrong with model tables.
-/

namespace ValueFlow

/-- Why a model table cannot be loaded. -/
inductive ModelError where
  /-- The file cannot be read. -/
  | unreadable
  /-- Text follows a closing quote; `rest` starts right after it. -/
  | afterQuote (rest : String)
  | columnCount (expected actual : Nat)
  | unknownKind (text : String)
  | badBoolean (text : String)
  /-- A mistake on a line of a table, counted from one. -/
  | row (origin : String) (line : Nat) (reason : ModelError)
  | badPath (path : String)
deriving DecidableEq, Repr

/-- The text of an error. -/
def ModelError.message : ModelError → String
  | .unreadable => "IO error"
  | .afterQuote rest => "parsing error (Eof) near '" ++ rest ++ "'"
  | .columnCount expected actual =>
    "expected " ++ toString expected ++ " columns, found " ++ toString actual
  | .unknownKind text => "unknown flow kind '" ++ text ++ "'"
  | .badBoolean text => "invalid boolean '" ++ text ++ "'"
  | .row origin line reason => origin ++ ":" ++ toString line ++ ": " ++ reason.message
  | .badPath path =>
    "cannot load models from " ++ path ++ ": expected a directory, flows.csv or sinks.csv"

end ValueFlow
