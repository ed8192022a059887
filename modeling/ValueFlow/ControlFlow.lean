/-
  ValueFlow.ControlFlow

  The control flow between the statements of a method.

  Points are the entry, the exit and every statement that is not a block. Edges
  are listed in the order in which the statements are met. What can be reached
  may be cut at conditions: a barrier refuses one outcome of a branching
  statement.
-/

import ValueFlow.CompilationUnit

namespace ValueFlow

/-- Why control passes from a point to another. -/
inductive Branch where
  | ifTrue
  | ifFalse
  | jump
  | sequence
deriving DecidableEq, Repr

/-- A point of the control flow. -/
inductive Point where
  | entry
  | exit
  | statement (id : ElementId)
deriving DecidableEq, Repr

/-- A branching statement and its condition. -/
structure Guard where
  statement : ElementId
  condition : ElementId
deriving DecidableEq, Repr

/-- Control may pass from one point to another. -/
structure FlowEdge where
  source : Point
  target : Point
  branch : Branch
deriving DecidableEq, Repr

/-- The control flow of a method: statements and edges as they are met. -/
structure ControlFlow where
  statements : List ElementId
  edges : List FlowEdge
deriving DecidableEq, Repr

/-- Open ends: points from which control goes on to the next statement. -/
abbrev OpenEnds := List (Point × Branch)

namespace ControlFlow

/-- Adds one edge. -/
def addEdge (flow : ControlFlow) (source target : Point) (branch : Branch) : ControlFlow :=
  { flow with edges := flow.edges ++ [⟨source, target, branch⟩] }

/-- Lets all open ends go on at a point. -/
def connect (flow : ControlFlow) (ends : OpenEnds) (target : Point) : ControlFlow :=
  ends.foldl (fun flow e => flow.addEdge e.1 target e.2) flow

/-- Adds a statement that follows the open ends. -/
def addStatement (flow : ControlFlow) (id : ElementId) (ends : OpenEnds) : ControlFlow :=
  { flow with statements := flow.statements ++ [id] }.connect ends (.statement id)

/-- Lets the open ends of a loop body go back to the loop: whatever the last branch was,
    that is a jump. -/
def goBack (flow : ControlFlow) (ends : OpenEnds) (loop : ElementId) : ControlFlow :=
  ends.foldl (fun flow e => flow.addEdge e.1 (.statement loop) .jump) flow

/-- Ends a method at a return statement. -/
def leave (flow : ControlFlow) (id : ElementId) : ControlFlow :=
  flow.addEdge (.statement id) .exit .jump

/-- Adds a statement and all inside it, down to `bound` levels; the result has the
    ends that are open after it. -/
def addUpTo (tree : Tree) : Nat → ElementId → OpenEnds → ControlFlow →
    Except TreeError (ControlFlow × OpenEnds)
  | 0, id, _, _ => .error (.elementNotFound id)
  | bound + 1, id, ends, flow =>
    match tree.kind? id with
    | none => .error (.elementNotFound id)
    | some (.block statements) =>
      statements.foldlM (fun state inner => addUpTo tree bound inner state.2 state.1) (flow, ends)
    | some (.ifElse _ thenBranch elseBranch) => do
      let flow := flow.addStatement id ends
      let (flow, thenEnds) ← addUpTo tree bound thenBranch [(.statement id, .ifTrue)] flow
      match elseBranch with
      | some elseBranch =>
        let (flow, elseEnds) ← addUpTo tree bound elseBranch [(.statement id, .ifFalse)] flow
        .ok (flow, thenEnds ++ elseEnds)
      | none => .ok (flow, thenEnds ++ [(.statement id, .ifFalse)])
    | some (.whileLoop _ body) => do
      let flow := flow.addStatement id ends
      let (flow, bodyEnds) ← addUpTo tree bound body [(.statement id, .ifTrue)] flow
      .ok (flow.goBack bodyEnds id, [(.statement id, .ifFalse)])
    | some (.ret _) =>
      -- Nothing is open after a return.
      .ok ((flow.addStatement id ends).leave id, [])
    | some (.localVar ..) => .ok (flow.addStatement id ends, [(.statement id, .sequence)])
    | some (.exprStmt _) => .ok (flow.addStatement id ends, [(.statement id, .sequence)])
    | some other => .error (.unexpectedElement id "statement" other.name)

/-- The control flow of a method declaration; without a body the entry leads
    straight to the exit. -/
def build (u : CompilationUnit) (method : ElementId) : Except TreeError ControlFlow :=
  match u.kind? method with
  | none => .error (.elementNotFound method)
  | some (.method _ _ body) => do
    let start : OpenEnds := [(.entry, .sequence)]
    let (flow, ends) ← match body with
      | some body => addUpTo u.tree u.size body start ⟨[], []⟩
      | none => .ok (⟨[], []⟩, start)
    .ok (flow.connect ends .exit)
  | some other => .error (.unexpectedElement method "method" other.name)

/-! ## Reachable statements and expressions -/

/-- The condition that decides where control goes from a point. -/
def guardAt (u : CompilationUnit) : Point → Option Guard
  | .statement id => ((u.kind? id).bind Kind.condition?).map fun condition => ⟨id, condition⟩
  | _ => none

/-- Whether a barrier cuts an edge: it is one outcome of a guard that is refused. -/
def isCut (u : CompilationUnit) (barrier : Guard → Bool → Bool) (edge : FlowEdge) : Bool :=
  match edge.branch, guardAt u edge.source with
  | .ifTrue, some guard => barrier guard true
  | .ifFalse, some guard => barrier guard false
  | _, _ => false

/-- Where control may go from a point. -/
def next (flow : ControlFlow) (u : CompilationUnit) (barrier : Guard → Bool → Bool)
    (point : Point) : List Point :=
  (flow.edges.filter fun edge => edge.source == point && !isCut u barrier edge).map (·.target)

/-- The points that control can reach from the entry. -/
def reachablePoints (flow : ControlFlow) (u : CompilationUnit)
    (barrier : Guard → Bool → Bool) : List Point :=
  Search.closure (flow.next u barrier) (flow.statements.length + 2) [.entry]

/-- The statements that control can reach, in increasing order. -/
def reachableStatements (flow : ControlFlow) (u : CompilationUnit)
    (barrier : Guard → Bool → Bool) : List ElementId :=
  Sorted.ofList ((flow.reachablePoints u barrier).filterMap fun
    | .statement id => some id
    | _ => none)

/-- The expressions among some elements and below them, but not below statements. -/
def expressionsUpTo (tree : Tree) : Nat → ElementId → List ElementId
  | 0, _ => []
  | bound + 1, id =>
    match tree.kind? id with
    | none => []
    | some kind =>
      if kind.isStatement then []
      else
        (if kind.isExpression then [id] else [])
          ++ kind.children.flatMap (expressionsUpTo tree bound)

/-- The expressions that a statement evaluates itself. -/
def ownExpressions (u : CompilationUnit) (statement : ElementId) : List ElementId :=
  (u.tree.children statement).flatMap (expressionsUpTo u.tree u.size)

/-- The expressions of the statements that control can reach, in increasing order. -/
def reachableExpressions (flow : ControlFlow) (u : CompilationUnit)
    (barrier : Guard → Bool → Bool) : List ElementId :=
  Sorted.ofList ((flow.reachableStatements u barrier).flatMap (ownExpressions u))

/-- Whether an element is a statement of the method. -/
def containsStatement (flow : ControlFlow) (id : ElementId) : Bool :=
  flow.statements.contains id

/-! ## As a graph -/

/-- How a branch is shown. -/
def branchText : Branch → String
  | .ifTrue => "<true>"
  | .ifFalse => "<false>"
  | .jump => "<jmp>"
  | .sequence => "<seq>"

/-- The colour of a branch. -/
def branchColor : Branch → String
  | .ifTrue => "green"
  | .ifFalse => "red"
  | .jump => "blue"
  | .sequence => "black"

/-- The place of a point: entry, exit, then the statements as they are met. -/
def place (flow : ControlFlow) : Point → Nat
  | .entry => 0
  | .exit => 1
  | .statement id => flow.statements.idxOf id + 2

/-- The control flow as a graph to be written. -/
def digraph (flow : ControlFlow) : Digraph where
  vertices := (["<ENTRY>", "<EXIT>"] ++ flow.statements.map ElementId.text).map
    fun label => ⟨label, "shape=box"⟩
  edges := flow.edges.map fun edge =>
    ⟨flow.place edge.source, flow.place edge.target, some (branchText edge.branch),
      "color=" ++ branchColor edge.branch⟩

end ControlFlow
end ValueFlow
