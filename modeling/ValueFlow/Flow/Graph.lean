/-
  ValueFlow.Flow.Graph

  Flow graphs: which node a value flows to from another one.

  A graph is a list of vertices, at most one for a node, and a vertex is known by
  its number in that list. A map leads from nodes back to their vertices. Edges are
  kept by target node, in increasing order. A frozen graph is a copy in which edges
  may still change, but no vertex is added.
-/

import ValueFlow.Flow.Node
import ValueFlow.Search
import ValueFlow.Sorted
import ValueFlow.Text.Digraph

namespace ValueFlow

/-- The number of a vertex. -/
structure VertexId where
  number : Nat
deriving DecidableEq, Repr, Ord

/-- How a vertex is shown. -/
def VertexId.text (id : VertexId) : String := "g" ++ toString id.number

/-- A node with its outgoing edges, by target node. -/
structure Vertex where
  node : Node
  edges : List (Node × VertexId)
deriving DecidableEq, Repr

/-- A flow graph. -/
structure FlowGraph where
  vertices : List Vertex
  /-- The vertex of each node, by increasing node. -/
  byNode : List (Node × VertexId)
  frozen : Bool
deriving DecidableEq, Repr

/-- Why a change of a flow graph is refused. -/
inductive GraphError where
  | vertexNotFound (id : VertexId)
  | frozenGraph (node : Node)
  /-- The source has an edge to another vertex of the same node. -/
  | conflictingEdge (source : VertexId) (node : Node)
deriving DecidableEq, Repr

/-- The text of an error. -/
def GraphError.message : GraphError → String
  | .vertexNotFound id => "graph not found: " ++ id.text
  | .frozenGraph node => "cannot create a graph for " ++ node.text ++ " in a frozen arena"
  | .conflictingEdge source node =>
    "graph " ++ source.text ++ " already has an edge to " ++ node.text ++ " with another graph"

namespace FlowGraph

/-- A graph without vertices. -/
def empty : FlowGraph := ⟨[], [], false⟩

/-- A frozen copy. -/
def copy (graph : FlowGraph) : FlowGraph := { graph with frozen := true }

/-- Number of vertices. -/
def size (graph : FlowGraph) : Nat := graph.vertices.length

/-- Whether there is no vertex. -/
def isEmpty (graph : FlowGraph) : Bool := graph.vertices.isEmpty

/-- The vertices of nodes that a unit has, in order: those that are found again by asking
    for each node of the unit. -/
def listed (graph : FlowGraph) (u : CompilationUnit) : List Vertex :=
  graph.vertices.filter fun vertex => vertex.node.fits u

/-- Number of edges. -/
def edgeCount (graph : FlowGraph) : Nat :=
  (graph.vertices.flatMap (·.edges)).length

/-- All vertices in order. -/
def ids (graph : FlowGraph) : List VertexId :=
  (List.range graph.size).map VertexId.mk

/-- The vertex of a node. -/
def find? (graph : FlowGraph) (node : Node) : Option VertexId :=
  Sorted.find? node graph.byNode

/-- The vertex with this number. -/
def vertex? (graph : FlowGraph) (id : VertexId) : Option Vertex :=
  graph.vertices[id.number]?

/-- The node of a vertex. -/
def node? (graph : FlowGraph) (id : VertexId) : Option Node :=
  (graph.vertex? id).map (·.node)

/-- The vertices that a vertex has edges to, by increasing node. -/
def targets (graph : FlowGraph) (id : VertexId) : List VertexId :=
  ((graph.vertex? id).map fun vertex => vertex.edges.map (·.2)).getD []

/-- The nodes that a vertex has edges to, in increasing order. -/
def targetNodes (graph : FlowGraph) (id : VertexId) : List Node :=
  ((graph.vertex? id).map fun vertex => vertex.edges.map (·.1)).getD []

/-- The vertex of a node, added if there is none. -/
def intern (graph : FlowGraph) (node : Node) : FlowGraph × VertexId :=
  match graph.find? node with
  | some id => (graph, id)
  | none =>
    let id : VertexId := ⟨graph.size⟩
    ({ graph with
        vertices := graph.vertices ++ [⟨node, []⟩]
        byNode := Sorted.put node id graph.byNode }, id)

/-- Changes the edges of a vertex. -/
def modifyEdges (graph : FlowGraph) (id : VertexId)
    (change : List (Node × VertexId) → List (Node × VertexId)) : FlowGraph :=
  { graph with
    vertices := graph.vertices.modify id.number fun vertex =>
      { vertex with edges := change vertex.edges } }

/-! ## Checked operations -/

/-- The node of a vertex that has to exist. -/
def node (graph : FlowGraph) (id : VertexId) : Except GraphError Node :=
  match graph.node? id with
  | some node => .ok node
  | none => .error (.vertexNotFound id)

/-- The edges of a vertex that has to exist. -/
def edges (graph : FlowGraph) (id : VertexId) : Except GraphError (List VertexId) :=
  match graph.vertex? id with
  | some vertex => .ok (vertex.edges.map (·.2))
  | none => .error (.vertexNotFound id)

/-- The vertex of a node; a frozen graph does not add one. -/
def vertexFor (graph : FlowGraph) (node : Node) : Except GraphError (FlowGraph × VertexId) :=
  match graph.find? node with
  | some id => .ok (graph, id)
  | none => if graph.frozen then .error (.frozenGraph node) else .ok (graph.intern node)

/-- Adds an edge; the result tells whether it is new. The target is looked up before
    the source. -/
def addEdge (graph : FlowGraph) (source target : VertexId) :
    Except GraphError (FlowGraph × Bool) := do
  let node ← graph.node target
  match graph.vertex? source with
  | none => .error (.vertexNotFound source)
  | some vertex =>
    match Sorted.find? node vertex.edges with
    | some there =>
      if there = target then .ok (graph, false) else .error (.conflictingEdge source node)
    | none => .ok (graph.modifyEdges source (Sorted.put node target), true)

/-- Removes an edge; the result tells whether there was one. -/
def removeEdge (graph : FlowGraph) (source target : VertexId) :
    Except GraphError (FlowGraph × Bool) := do
  let node ← graph.node target
  match graph.vertex? source with
  | none => .error (.vertexNotFound source)
  | some vertex =>
    if Sorted.find? node vertex.edges = some target then
      .ok (graph.modifyEdges source (Sorted.erase node), true)
    else .ok (graph, false)

/-! ## Edges between nodes -/

/-- Adds an edge between two vertices of the graph, by the node of the target. -/
def link (graph : FlowGraph) (source : VertexId) (node : Node) (target : VertexId) :
    FlowGraph :=
  graph.modifyEdges source (Sorted.put node target)

/-- Keeps the edges of a vertex whose target node passes a test. -/
def filterEdges (graph : FlowGraph) (id : VertexId) (keep : Node → Bool) : FlowGraph :=
  graph.modifyEdges id fun edges => edges.filter fun edge => keep edge.1

/-! ## As a graph -/

/-- The flow graph as a graph to be written. -/
def digraph (graph : FlowGraph) : Digraph where
  vertices := graph.vertices.map fun vertex => ⟨vertex.node.text, ""⟩
  edges := graph.vertices.zipIdx.flatMap fun (vertex, place) =>
    vertex.edges.map fun edge => ⟨place, edge.2.number, none, ""⟩

end FlowGraph
end ValueFlow
