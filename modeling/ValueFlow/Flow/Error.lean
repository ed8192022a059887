/-
  ValueFlow.Flow.Error

  What can go wrong in a flow analysis.
-/

import ValueFlow.Flow.Graph

namespace ValueFlow

/-- Why a flow analysis has no answer. -/
inductive FlowError where
  | tree (error : TreeError)
  /-- An element is no node, for each of these reasons. -/
  | views (errors : List ViewError)
  | graph (error : GraphError)
  /-- A global flow was asked about before its unit was scanned. -/
  | notScanned
deriving DecidableEq, Repr

/-- The text of an error. -/
def FlowError.message : FlowError → String
  | .tree error => "tree error: " ++ error.message
  | .views errors => ViewError.messages errors
  | .graph error => error.message
  | .notScanned => "global data flow queried before its scan"

end ValueFlow
