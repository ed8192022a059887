/-
  ValueFlow.Flow.Scan

  The flow graph of a whole unit, joined across calls.

  Every attached node is explored in source order into one graph. The steps are
  widened for that: an argument also flows into its call. What is met behind a node
  is registered by the role that it plays in a call, and joined at once with what
  was registered before in the opposite role: arguments get edges to the parameters
  of the declaration that the call names, and returned values get edges back to the
  calls of their method.
-/

import ValueFlow.Flow.Explore
import ValueFlow.Flow.Resolve

namespace ValueFlow

/-- Whether `target` is the call that `source` is an argument of. -/
def isCallStep (u : CompilationUnit) (source target : Node) : Bool :=
  match source.argumentOf? u, target.expression? with
  | some (call, _), some id => call == id
  | _, _ => false

/-- The specification that a scan explores with: no sinks, and arguments flow into
    their calls. -/
def FlowSpec.widened (spec : FlowSpec) : FlowSpec :=
  { spec with
    isSink := fun _ _ => false
    isExtraStep := fun cx source target =>
      spec.isExtraStep cx source target || isCallStep cx.unit source target }

/-! ## Roles in calls -/

namespace Node

/-- The declaration that a call names. -/
def calledDeclaration? (u : CompilationUnit) (node : Node) : Option Signature :=
  (node.callSignature? u).map u.declarationOf

/-- The declaration that the call of an argument names, and the place of the
    argument. -/
def argumentSlot? (u : CompilationUnit) (node : Node) : Option (Signature × Nat) := do
  let (call, place) ← node.argumentOf? u
  let signature ← (u.kind? call).bind Kind.callSignature?
  some (u.declarationOf signature, place)

/-- The method that declares a parameter, and the place of the parameter. -/
def parameterSlot? (u : CompilationUnit) (node : Node) : Option (Signature × Nat) := do
  let id ← node.parameter?
  let (method, place) ← u.parameterPosition? id
  let signature ← u.methodSignature? method
  some (signature, place)

/-- The method whose value a returned node is. -/
def returnedFrom? (u : CompilationUnit) (node : Node) : Option Signature :=
  if node.isReturned u then (node.enclosingMethod? u).bind u.methodSignature? else none

end Node

/-- What a node has to do with the calls of a declared method. -/
inductive CallRole where
  /-- It is a call that names the declaration. -/
  | call (declaration : Signature)
  /-- It is the argument at a place of such a call. -/
  | argument (slot : Signature × Nat)
  /-- It is the parameter at a place of the method. -/
  | parameter (slot : Signature × Nat)
  /-- It is a value that the method returns. -/
  | returned (method : Signature)
deriving DecidableEq, Repr

namespace CallRole

/-- The role of the nodes that values go to from a node in this role. -/
def passesTo? : CallRole → Option CallRole
  | .argument slot => some (.parameter slot)
  | .returned method => some (.call method)
  | _ => none

/-- The role of the nodes that values come from into a node in this role. -/
def takesFrom? : CallRole → Option CallRole
  | .parameter slot => some (.argument slot)
  | .call declaration => some (.returned declaration)
  | _ => none

/-- The roles in which a node is registered when it is met. -/
def ofNode (u : CompilationUnit) (node : Node) : List CallRole :=
  (node.calledDeclaration? u).toList.map .call
    ++ (node.argumentSlot? u).toList.map .argument
    ++ (node.returnedFrom? u).toList.map .returned

end CallRole

/-! ## Accumulator -/

/-- A scan on its way: the graph so far, the vertices met by the roles that they
    play, and the vertices of sources in increasing order. -/
structure Accumulator where
  explorer : Explorer
  registry : List (CallRole × VertexId)
  sources : List VertexId
deriving DecidableEq, Repr

namespace Accumulator

/-- A scan that has seen nothing. -/
def new : Accumulator := ⟨.new, [], []⟩

/-- The graph so far. -/
def graph (acc : Accumulator) : FlowGraph := acc.explorer.graph

/-- The vertices registered in a role. -/
def inRole (acc : Accumulator) (role : Option CallRole) : List VertexId :=
  (acc.registry.filter fun entry => some entry.1 == role).map (·.2)

/-- Adds an edge by the node of its target. -/
def join (acc : Accumulator) (source target : VertexId) : Accumulator :=
  match acc.graph.node? target with
  | none => acc
  | some node =>
    { acc with explorer := { acc.explorer with graph := acc.graph.link source node target } }

/-- Registers a vertex in a role and joins it with the vertices in the opposite
    role. -/
def register (acc : Accumulator) (id : VertexId) (role : CallRole) : Accumulator :=
  let acc := { acc with registry := acc.registry.insert (role, id) }
  let acc := (acc.inRole role.takesFrom?).foldl (fun acc source => acc.join source id) acc
  (acc.inRole role.passesTo?).foldl (fun acc target => acc.join id target) acc

/-- Registers a vertex in all roles that its node has. -/
def registerAll (u : CompilationUnit) (acc : Accumulator) (id : VertexId) : Accumulator :=
  match acc.graph.node? id with
  | none => acc
  | some node => (CallRole.ofNode u node).foldl (fun acc role => acc.register id role) acc

/-- Registers pending vertices, the first one first, and what they lead to; `bound`
    limits the number of vertices. -/
def connectUpTo (u : CompilationUnit) :
    Nat → Accumulator → List VertexId → List VertexId → Accumulator
  | 0, acc, _, _ => acc
  | bound + 1, acc, visited, pending =>
    match pending.dropWhile (fun id => decide (id ∈ visited)) with
    | [] => acc
    | id :: rest =>
      -- The edges that come with the roles of the vertex are followed, too.
      let acc := acc.registerAll u id
      connectUpTo u bound acc (id :: visited) ((acc.graph.targets id).reverse ++ rest)

/-- Registers a vertex and all that it leads to. -/
def connect (u : CompilationUnit) (acc : Accumulator) (root : VertexId) : Accumulator :=
  acc.connectUpTo u acc.graph.size [] [root]

/-- Notes a vertex if its node is a source. -/
def recordSource (spec : FlowSpec) (cx : FlowContext) (acc : Accumulator) (node : Node)
    (id : VertexId) : Accumulator :=
  if spec.isSource cx node then { acc with sources := Sorted.insert id acc.sources } else acc

/-- Scans one node. A parameter is registered before what it leads to; one that no
    method declares is left out. -/
def scanNode (spec : FlowSpec) (cx : FlowContext) (acc : Accumulator) (node : Node) :
    Accumulator :=
  let explored := acc.explorer.explore spec.widened cx node
  let opened := { acc with explorer := explored.1 }
  match node with
  | .expression _ => (opened.recordSource spec cx node explored.2).connect cx.unit explored.2
  | .parameter id =>
    match (Node.parameter id).parameterSlot? cx.unit with
    | none => acc
    | some slot =>
      ((opened.register explored.2 (.parameter slot)).recordSource spec cx node explored.2).connect
        cx.unit explored.2

end Accumulator

/-- A scanned unit: its graph, and the vertices of its sources in increasing order. -/
structure ScannedFlow where
  graph : FlowGraph
  sources : List VertexId
deriving DecidableEq, Repr

namespace ScannedFlow

/-- Scans nodes in the given order. -/
def ofNodes (spec : FlowSpec) (cx : FlowContext) (nodes : List Node) : ScannedFlow :=
  let acc := nodes.foldl (Accumulator.scanNode spec cx) .new
  ⟨acc.graph, acc.sources⟩

/-- Scans the attached nodes of a unit in source order. -/
def ofUnit (spec : FlowSpec) (cx : FlowContext) : ScannedFlow :=
  ofNodes spec cx (Node.attached cx.unit)

end ScannedFlow
end ValueFlow
