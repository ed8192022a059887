/-
  ValueFlow.Flow.Reaching

  Which reads of a variable see the value that it has after a definition.
-/

import ValueFlow.CompilationUnit

namespace ValueFlow
namespace CompilationUnit

/-- The closest statement around an element. -/
def enclosingStatement? (u : CompilationUnit) (id : ElementId) : Option ElementId :=
  (u.tree.ancestors id).find? (u.tree.isKind Kind.isStatement)

/-- Whether an assignment hides earlier values from a read: its statement stands in a
    block that contains the read. -/
def hides (u : CompilationUnit) (assignment read : ElementId) : Bool :=
  match (u.enclosingStatement? assignment).bind u.parent? with
  | some block => u.tree.isKind Kind.isBlock block && u.contains block read
  | none => false

/-- Whether an assignment stands between a definition and a read and hides it. -/
def cutsOff (u : CompilationUnit) (definition read assignment : ElementId) : Bool :=
  assignment != definition && u.isBefore definition assignment && u.isBefore assignment read
    && u.hides assignment read

/-- The reads of a variable that see its value right after a definition. -/
def readsReaching (u : CompilationUnit) (variableId definition : ElementId) : List ElementId :=
  let assignments := u.assignmentsTo variableId
  (u.readsOf variableId).filter fun read =>
    u.isBefore definition read && !assignments.any (u.cutsOff definition read)

/-- The variable that an identifier defines, and the element after which its new value
    can be seen. -/
def definition? (u : CompilationUnit) (id : ElementId) : Option (ElementId × ElementId) :=
  match u.parent? id with
  | none => none
  | some parent =>
    match u.kind? parent with
    | some (.localVar _ name _) => if name = id then some (parent, parent) else none
    | some (.assign target _) =>
      if target = id then (u.variableOf? id).map fun variableId => (variableId, parent)
      else none
    | _ => none

end CompilationUnit
end ValueFlow
