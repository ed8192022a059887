/-
  ValueFlow.Command.Error

  What can go wrong in a run of the program.
-/

import ValueFlow.Flow.Error
import ValueFlow.Model.Error

namespace ValueFlow

/-- Why a run fails. -/
inductive CommandError where
  | badArguments (detail : String)
  /-- A pattern cannot be read. -/
  | badPattern
  /-- A file cannot be written. -/
  | unwritable
  | tree (error : TreeError)
  | models (error : ModelError)
  | flow (error : FlowError)
deriving DecidableEq, Repr

/-- The text of an error. -/
def CommandError.message : CommandError → String
  | .badArguments detail => "bad arguments: " ++ detail
  | .badPattern => "invalid pattern"
  | .unwritable => "file cannot be written"
  | .tree error => error.message
  | .models error => error.message
  | .flow error => error.message

end ValueFlow
