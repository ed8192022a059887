/-
  ValueFlow.Flow.Prune

  From the graph of a scan to the nodes that take part in a flow from a source to a
  sink.

  First the edges that only the widening added are dropped. Then, for each source, a
  walk drops the edges from returned values to calls that were not entered on the way.
  What remains are the nodes between the source and a sink.
-/

import ValueFlow.Flow.Scan

namespace ValueFlow
namespace Prune

/-! ## Steps of the widening -/

/-- Whether an edge stays: it is not from an argument to its call, or the specification
    has that step. -/
def isKept (spec : FlowSpec) (cx : FlowContext) (source target : Node) : Bool :=
  !isCallStep cx.unit source target || spec.isStep cx source target

/-- Drops the edges of a vertex that do not stay. -/
def dropAt (spec : FlowSpec) (cx : FlowContext) (graph : FlowGraph) (id : VertexId) :
    FlowGraph :=
  match graph.node? id with
  | none => graph
  | some node => graph.filterEdges id (isKept spec cx node)

/-- Drops the edges of the widening from pending vertices, the first one first, and from
    what these still lead to; `bound` limits the number of vertices. -/
def dropUpTo (spec : FlowSpec) (cx : FlowContext) :
    Nat → FlowGraph → List VertexId → List VertexId → FlowGraph
  | 0, graph, _, _ => graph
  | bound + 1, graph, visited, pending =>
    match pending.dropWhile (fun id => decide (id ∈ visited)) with
    | [] => graph
    | id :: rest =>
      -- Only the edges that stay are followed.
      let graph := dropAt spec cx graph id
      dropUpTo spec cx bound graph (id :: visited) (graph.targets id ++ rest)

/-- Drops the edges of the widening from all vertices that the sources still reach. -/
def dropCallSteps (spec : FlowSpec) (cx : FlowContext) (flow : ScannedFlow) : FlowGraph :=
  dropUpTo spec cx flow.graph.size flow.graph [] flow.sources

/-! ## Calls that were not entered -/

/-- A graph being walked, and the vertices walked so far. -/
structure Walk where
  graph : FlowGraph
  visited : List VertexId
deriving DecidableEq, Repr

/-- Whether a returned value may flow into a node after these calls were entered: the
    node is no method call, or one of them. -/
def mayReturnTo (u : CompilationUnit) (entered : List ElementId) (target : Node) : Bool :=
  match target with
  | .parameter _ => true
  | .expression id =>
    match u.kind? id with
    | some (.call ..) => entered.contains id
    | _ => true

/-- Drops the edges of a returned value to calls that were not entered, if any call
    was. -/
def dropReturns (u : CompilationUnit) (entered : List ElementId) (id : VertexId)
    (graph : FlowGraph) : FlowGraph :=
  match graph.node? id with
  | none => graph
  | some node =>
    if node.isReturned u && !entered.isEmpty then
      graph.filterEdges id (mayReturnTo u entered)
    else graph

/-- Walks on from a vertex, at most `bound` vertices deep. An argument enters its call for
    all that lies behind it. Each vertex is walked once, but its returns are dropped at
    every arrival. -/
def walkUpTo (u : CompilationUnit) : Nat → List ElementId → Walk → VertexId → Walk
  | 0, _, walk, _ => walk
  | bound + 1, entered, walk, id =>
    -- The argument's own call is entered only for what lies behind the vertex.
    let graph := dropReturns u entered id walk.graph
    if walk.visited.contains id then { walk with graph := graph }
    else
      let call := ((graph.node? id).bind (Node.argumentOf? u)).map (·.1)
      let entered := call.toList ++ entered
      -- The targets are those of this moment, even if a later arrival here drops some.
      (graph.targets id).foldl (walkUpTo u bound entered) ⟨graph, id :: walk.visited⟩

/-- The copy of a graph for one source, without returns to calls that were not
    entered. -/
def forSource (u : CompilationUnit) (graph : FlowGraph) (source : VertexId) : FlowGraph :=
  (walkUpTo u (graph.size + 1) [] ⟨graph.copy, []⟩ source).graph

/-! ## Participants -/

/-- The vertices asked about so far, and whether each of them leads to a sink. -/
abbrev Answers := List (VertexId × Bool)

/-- Whether a vertex leads to a sink, and the answers together with this one. A search
    that comes to a vertex known to lead to a sink is over. -/
def leadsToSink (graph : FlowGraph) (isSink : Node → Bool) (known : Answers)
    (id : VertexId) : Bool × Answers :=
  match Sorted.find? id known with
  | some leads => (leads, known)
  | none =>
    let leads := Search.meets graph.targets
      (fun other => Sorted.find? other known == some true || (graph.node? other).any isSink)
      graph.size [] [id]
    (leads, Sorted.put id leads known)

/-- The vertices that lead to a sink among those of a queue and what they go on to, the
    first one first; where no sink can be reached, nothing is gone on to. At most `bound`
    vertices are looked at. -/
def leadingUpTo (graph : FlowGraph) (isSink : Node → Bool) :
    Nat → Answers → List VertexId → List VertexId → List VertexId
  | 0, _, _, _ => []
  | bound + 1, known, visited, queue =>
    match queue.dropWhile (fun id => decide (id ∈ visited)) with
    | [] => []
    | id :: rest =>
      let (leads, known) := leadsToSink graph isSink known id
      if leads then
        id :: leadingUpTo graph isSink bound known (id :: visited) (rest ++ graph.targets id)
      else leadingUpTo graph isSink bound known (id :: visited) rest

/-- The vertices between a source and the sinks. -/
def between (graph : FlowGraph) (isSink : Node → Bool) (source : VertexId) :
    List VertexId :=
  leadingUpTo graph isSink graph.size [] [] [source]

/-- The nodes that take part in a flow from a source to a sink, in increasing order. -/
def participants (spec : FlowSpec) (cx : FlowContext) (flow : ScannedFlow) : List Node :=
  let graph := dropCallSteps spec cx flow
  Sorted.ofList (flow.sources.flatMap fun source =>
    let copy := forSource cx.unit graph source
    (between copy (spec.isSink cx) source).filterMap copy.node?)

end Prune
end ValueFlow
