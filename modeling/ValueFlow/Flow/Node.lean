/-
  ValueFlow.Flow.Node

  Nodes of a flow: the elements of a program that a value can be in.
-/

import ValueFlow.CompilationUnit

namespace ValueFlow

/-- An element that carries a value. Expressions come before parameters, then the
    element decides. -/
inductive Node where
  | expression (id : ElementId)
  | parameter (id : ElementId)
deriving DecidableEq, Repr, Ord

/-- An element that was taken for something that it is not. -/
structure ViewError where
  id : ElementId
  expected : String
  actual : String
deriving DecidableEq, Repr

/-- The text of an error. -/
def ViewError.message (error : ViewError) : String :=
  "element " ++ error.id.text ++ " is a " ++ error.actual ++ ", expected " ++ error.expected

/-- The texts of several errors. -/
def ViewError.messages (errors : List ViewError) : String :=
  "; ".intercalate (errors.map ViewError.message)

namespace Node

/-- The element of a node. -/
def id : Node → ElementId
  | .expression id => id
  | .parameter id => id

/-- How a node is shown. -/
def text : Node → String
  | .expression id => "expr" ++ id.text
  | .parameter id => "param" ++ id.text

/-- Whether the node is a parameter. -/
def isParameter : Node → Bool
  | .parameter _ => true
  | .expression _ => false

/-- The element of an expression node. -/
def expression? : Node → Option ElementId
  | .expression id => some id
  | .parameter _ => none

/-- The element of a parameter node. -/
def parameter? : Node → Option ElementId
  | .parameter id => some id
  | .expression _ => none

/-! ## Elements as nodes -/

/-- What an element is called when it is not what was expected. -/
def actualName (u : CompilationUnit) (id : ElementId) : String :=
  ((u.kind? id).map Kind.name).getD "missing element"

/-- The element as an expression node. -/
def ofExpression (u : CompilationUnit) (id : ElementId) : Except ViewError Node :=
  if u.tree.isKind Kind.isExpression id then .ok (.expression id)
  else .error ⟨id, "expression", actualName u id⟩

/-- The element as a parameter node. -/
def ofParameter (u : CompilationUnit) (id : ElementId) : Except ViewError Node :=
  if u.tree.isKind Kind.isParameter id then .ok (.parameter id)
  else .error ⟨id, "parameter", actualName u id⟩

/-- The element as a node of either kind, or why it is none. -/
def ofElement (u : CompilationUnit) (id : ElementId) : Except (List ViewError) Node :=
  match ofExpression u id with
  | .ok node => .ok node
  | .error asExpression =>
    match ofParameter u id with
    | .ok node => .ok node
    | .error asParameter => .error [asExpression, asParameter]

/-- The element as a node of either kind. -/
def ofElement? (u : CompilationUnit) (id : ElementId) : Option Node :=
  (ofElement u id).toOption

/-- Whether the element is what the node takes it for. A unit may hold a statement or a
    parameter where an expression is expected, and flows go through it all the same. -/
def fits (node : Node) (u : CompilationUnit) : Bool :=
  ofElement? u node.id == some node

/-- All nodes of a unit, attached or not, in the order of the elements. -/
def all (u : CompilationUnit) : List Node :=
  u.tree.ids.filterMap (ofElement? u)

/-- The attached nodes of a unit in source order. -/
def attached (u : CompilationUnit) : List Node :=
  u.attached.filterMap (ofElement? u)

/-! ## What a node is and where it stands -/

/-- The kind of an expression node. -/
def expressionKind? (u : CompilationUnit) (node : Node) : Option Kind :=
  node.expression?.bind u.kind?

/-- Whether the node is a call. -/
def isCall (u : CompilationUnit) (node : Node) : Bool :=
  (node.expressionKind? u).any Kind.isCall

/-- The signature of a resolved call. -/
def callSignature? (u : CompilationUnit) (node : Node) : Option Signature :=
  (node.expressionKind? u).bind Kind.callSignature?

/-- The value of a literal. -/
def literal? (u : CompilationUnit) (node : Node) : Option Literal :=
  match node.expressionKind? u with
  | some (.literal value _) => some value
  | _ => none

/-- The call that the node is an argument of, and at which place. -/
def argumentOf? (u : CompilationUnit) (node : Node) : Option (ElementId × Nat) := do
  let id ← node.expression?
  let call ← u.parent? id
  let kind ← u.kind? call
  let place ← kind.callArguments.idxOf? id
  some (call, place)

/-- The method call that the node is the receiver of. -/
def receiverOf? (u : CompilationUnit) (node : Node) : Option ElementId := do
  let id ← node.expression?
  let call ← u.parent? id
  match u.kind? call with
  | some (.call (some select) _ _ _) => if select = id then some call else none
  | _ => none

/-- Whether the node is the value of a return statement, possibly inside
    parentheses. -/
def isReturned (u : CompilationUnit) (node : Node) : Bool :=
  match node.expression? with
  | none => false
  | some id =>
    match (u.tree.parentOutsideParens? id).bind u.kind? with
    | some (.ret (some value)) => u.tree.insideParens value == id
    | _ => false

/-- The method that the node belongs to. -/
def enclosingMethod? (u : CompilationUnit) : Node → Option ElementId
  | .parameter id => (u.parameterPosition? id).map (·.1)
  | .expression id => u.tree.enclosingMethod? id

end Node
end ValueFlow
