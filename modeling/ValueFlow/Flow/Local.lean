/-
  ValueFlow.Flow.Local

  Flows inside a method body: the paths from a source to the sinks it reaches.

  A path follows edges of the explored graph, repeats no node, and stays, after its
  first node, within what the control flow reaches without passing a barrier guard.
-/

import ValueFlow.Flow.Error
import ValueFlow.Flow.Explore
import ValueFlow.Flow.Marks

namespace ValueFlow

/-! ## Paths -/

/-- The flow graph of a source, restricted to what reaches a sink. -/
structure SinkSummary where
  graph : FlowGraph
  root : VertexId
  /-- Every path from the root to a sink, the root first. -/
  paths : List (List Node)
deriving DecidableEq, Repr

namespace SinkSummary

/-- Whether control gets to a node; parameters are not in question. -/
def admits (reachable : List ElementId) : Node → Bool
  | .expression id => reachable.contains id
  | .parameter _ => true

/-- Whether a path may go through a vertex: it is the root, or control gets there. -/
def isOpen (root : VertexId) (reachable : List ElementId) (id : VertexId) (node : Node) :
    Bool :=
  id == root || admits reachable node

/-- The paths to sinks that start with `trail`, the latest vertex first, and go on at a
    vertex; at most `bound` vertices are added. -/
def pathsFrom (graph : FlowGraph) (isSink : Node → Bool) (root : VertexId)
    (reachable : List ElementId) : Nat → List (VertexId × Node) → VertexId → List (List Node)
  | 0, _, _ => []
  | bound + 1, trail, id =>
    match graph.node? id with
    | none => []
    | some node =>
      if isOpen root reachable id node then
        -- A path that ends here comes before those that go on.
        let trail := (id, node) :: trail
        (if isSink node then [(trail.map (·.2)).reverse] else [])
          ++ (graph.targets id).flatMap fun next =>
            if trail.any (fun step => step.1 == next) then []
            else pathsFrom graph isSink root reachable bound trail next
      else []

/-- All paths from a root to sinks. -/
def compute (graph : FlowGraph) (isSink : Node → Bool) (root : VertexId)
    (reachable : List ElementId) : SinkSummary :=
  ⟨graph, root, pathsFrom graph isSink root reachable graph.size [] root⟩

/-- The node of the root. -/
def rootNode? (summary : SinkSummary) : Option Node := summary.graph.node? summary.root

/-- The sinks that are reached, in increasing order. -/
def sinks (summary : SinkSummary) : List Node :=
  Sorted.ofList (summary.paths.filterMap List.getLast?)

/-- The nodes of all paths, in increasing order. -/
def participants (summary : SinkSummary) : List Node :=
  Sorted.ofList summary.paths.flatten

/-- Whether no sink is reached. -/
def isEmpty (summary : SinkSummary) : Bool := summary.paths.isEmpty

end SinkSummary

/-! ## From one node -/

/-- The expressions of the node's method that control reaches without passing a barrier
    guard; none outside a method. -/
def reachableExpressions (spec : FlowSpec) (cx : FlowContext) (node : Node) :
    Except TreeError (List ElementId) :=
  match node.enclosingMethod? cx.unit with
  | none => .ok []
  | some method => do
    let flow ← ControlFlow.build cx.unit method
    .ok (flow.reachableExpressions cx.unit (spec.isBarrierGuard cx))

/-- The sinks that a node flows to in its method, if it is a source and reaches one. -/
def findSinks (spec : FlowSpec) (cx : FlowContext) (start : Node) :
    Except FlowError (Option SinkSummary) :=
  if spec.isSource cx start then
    match reachableExpressions spec cx start with
    | .error error => .error (.tree error)
    | .ok reachable =>
      let (explorer, root) := Explorer.new.explore spec cx start
      let summary := SinkSummary.compute explorer.graph (spec.isSink cx) root reachable
      .ok (if summary.isEmpty then none else some summary)
  else .ok none

/-! ## In a unit -/

/-- All flows inside the methods of a unit. -/
structure LocalFlows where
  sources : List Node
  sinks : List Node
  participants : List Node
  /-- Paths in the order in which they are found. -/
  paths : List (List Node)
deriving DecidableEq, Repr

namespace LocalFlows

/-- No flows. -/
def empty : LocalFlows := ⟨[], [], [], []⟩

/-- Adds the flows of one source. -/
def add (flows : LocalFlows) (start : Node) (summary : SinkSummary) : LocalFlows where
  sources := Sorted.insert start flows.sources
  sinks := Sorted.insertAll flows.sinks summary.sinks
  participants := Sorted.insertAll flows.participants summary.participants
  paths := flows.paths ++ summary.paths

/-- The nodes that flows are looked for from: the parameters, then the expressions. -/
def starts (u : CompilationUnit) : List Node :=
  u.parameters.map .parameter ++ u.expressions.map .expression

/-- The flows from every parameter and expression of the unit. -/
def compute (spec : FlowSpec) (cx : FlowContext) : Except FlowError LocalFlows :=
  (starts cx.unit).foldlM
    (fun flows start => do
      match ← findSinks spec cx start with
      | none => .ok flows
      | some summary => .ok (flows.add start summary))
    empty

/-- The roles of nodes in the flows. -/
def marks (flows : LocalFlows) : FlowMarks where
  isSource := flows.sources.contains
  isSink := flows.sinks.contains
  isParticipant := flows.participants.contains

end LocalFlows
end ValueFlow
