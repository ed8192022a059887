/-
  ValueFlow.Flow.Explore

  Following a value forward: the nodes it flows to next, and the graph of all nodes
  it can get to.

  An explorer goes depth first, the last successor first, and numbers vertices in
  the order in which they are met. Nodes explored before are not explored again, so
  that explorations from several nodes share their work.
-/

import ValueFlow.Flow.Graph
import ValueFlow.Flow.Reaching
import ValueFlow.Flow.Spec

namespace ValueFlow

/-! ## Successors -/

/-- The nodes that a value gets into from a node: some always, the others if the
    specification has a step there. -/
structure Onward where
  always : List Node
  ifStep : List Node

namespace Onward

/-- No nodes. -/
def nowhere : Onward := ⟨[], []⟩

/-- The receiver and the arguments of a call but for one. -/
def otherOperands (operands : List ElementId) (id : ElementId) : List Node :=
  (operands.filter (· != id)).map .expression

/-- Later reads of the variable behind an operand, if the call changes what is in it:
    the operand is the receiver, or another operand flows into it. -/
def updatedReads (spec : FlowSpec) (cx : FlowContext) (id call : ElementId)
    (select : Option ElementId) (operands : List ElementId) : List Node :=
  let updated := select == some id
    || operands.any fun other =>
      other != id && spec.isStep cx (.expression other) (.expression id)
  match updated, cx.unit.variableOf? id with
  | true, some variableId => (cx.unit.readsReaching variableId call).map .expression
  | _, _ => []

/-- Where the value of an expression goes from the element that contains it. -/
def intoParent (spec : FlowSpec) (cx : FlowContext) (id parent : ElementId) : Kind → Onward
  | .localVar _ name initializer =>
    if initializer = some id then ⟨[.expression name], []⟩ else nowhere
  | .assign target value =>
    if value = id then ⟨[.expression target, .expression parent], []⟩ else nowhere
  | .parens _ => ⟨[.expression parent], []⟩
  | .cast _ _ => ⟨[.expression parent], []⟩
  | .ternary condition _ _ _ =>
    if condition = id then ⟨[], [.expression parent]⟩ else ⟨[.expression parent], []⟩
  | .call select _ _ arguments =>
    let operands := select.toList ++ arguments
    ⟨updatedReads spec cx id parent select operands,
      .expression parent :: otherOperands operands id⟩
  | .construct _ _ arguments => ⟨[], .expression parent :: otherOperands arguments id⟩
  | kind => if kind.isExpression then ⟨[], [.expression parent]⟩ else nowhere

end Onward

/-- The nodes that the value of a node flows to next. A definition is seen by the reads
    that it reaches. -/
def FlowSpec.successors (spec : FlowSpec) (cx : FlowContext) : Node → List Node
  | .parameter id => (cx.unit.readsReaching id id).map .expression
  | .expression id =>
    let reads := match cx.unit.definition? id with
      | some (variableId, definition) =>
        (cx.unit.readsReaching variableId definition).map Node.expression
      | none => []
    let onward := match cx.unit.parent? id with
      | some parent =>
        match cx.unit.kind? parent with
        | some kind => Onward.intoParent spec cx id parent kind
        | none => .nowhere
      | none => .nowhere
    reads ++ onward.always ++ onward.ifStep.filter (spec.isStep cx (.expression id))

/-- The successors that are no barriers. -/
def FlowSpec.openSuccessors (spec : FlowSpec) (cx : FlowContext) (node : Node) : List Node :=
  (spec.successors cx node).filter fun next => !spec.isBarrier cx next

/-! ## Explorer -/

/-- A graph under exploration and the nodes explored so far. -/
structure Explorer where
  graph : FlowGraph
  explored : List Node
deriving DecidableEq, Repr

namespace Explorer

/-- An explorer that has seen nothing. -/
def new : Explorer := ⟨.empty, []⟩

/-- Adds the edges from a vertex to nodes, in order, with vertices as needed. -/
def linkAll (graph : FlowGraph) (source : VertexId) (nodes : List Node) : FlowGraph :=
  nodes.foldl
    (fun graph node =>
      let (graph, target) := graph.intern node
      graph.link source node target)
    graph

/-- Explores one node, given the nodes it flows to. -/
def visit (explorer : Explorer) (node : Node) (next : List Node) : Explorer :=
  let (graph, source) := explorer.graph.intern node
  ⟨linkAll graph source next, node :: explorer.explored⟩

/-- Explores pending nodes, the first one first, and what they lead to; `bound` limits
    the number of nodes explored. -/
def run (spec : FlowSpec) (cx : FlowContext) : Nat → Explorer → List Node → Explorer
  | 0, explorer, _ => explorer
  | bound + 1, explorer, pending =>
    match pending.dropWhile (fun node => decide (node ∈ explorer.explored)) with
    | [] => explorer
    | node :: rest =>
      let next := spec.openSuccessors cx node
      -- The last successor is looked at first.
      run spec cx bound (explorer.visit node next) (next.reverse ++ rest)

/-- Explores all that a node flows to; the result has the vertex of the node. -/
def explore (spec : FlowSpec) (cx : FlowContext) (explorer : Explorer) (node : Node) :
    Explorer × VertexId :=
  let (graph, root) := explorer.graph.intern node
  (run spec cx (2 * cx.unit.size + 1) { explorer with graph := graph } [node], root)

/-- Explores from several nodes in turn. -/
def exploreAll (spec : FlowSpec) (cx : FlowContext) (explorer : Explorer)
    (nodes : List Node) : Explorer :=
  nodes.foldl (fun explorer node => (explorer.explore spec cx node).1) explorer

end Explorer
end ValueFlow
