/-
  ValueFlow.Proofs.GraphOperations

  What any sequence of operations makes of flow graphs.

  A program holds several graphs, adds vertices and edges to them, removes edges and makes
  frozen copies, with vertices that it got from any of them. Whatever it does, the map
  from nodes to vertices agrees with the vertices, and every edge is kept under the node
  of its target. So adding an edge never finds another vertex of the same node in its
  place, and an operation that is refused has nothing to take back.
-/

import ValueFlow.Proofs.Except
import ValueFlow.Proofs.FlowGraph

namespace ValueFlow
namespace FlowGraph

/-! ## Edges by vertices -/

section Targets

variable {graph : FlowGraph} {source target : VertexId} {node child : Node}

theorem node_eq_ok_iff {id : VertexId} : graph.node id = .ok node ↔ graph.node? id = some node := by
  rw [FlowGraph.node]
  cases graph.node? id with
  | none => simp
  | some other => simp

theorem lt_size_iff {id : VertexId} :
    id.number < graph.size ↔ ∃ node, graph.node? id = some node := by
  rw [← mem_ids_iff, ids, List.mem_map]
  refine ⟨fun h => ⟨id.number, List.mem_range.mpr h, rfl⟩, ?_⟩
  rintro ⟨number, hnumber, rfl⟩
  exact List.mem_range.mp hnumber

/-- The edge to a vertex is found under its node, if it is there at all. -/
theorem WellFormed.find?_edges (h : graph.WellFormed) {vertex : Vertex}
    (hvertex : graph.vertex? source = some vertex) (hchild : graph.node? target = some child) :
    Sorted.find? child vertex.edges =
      if target ∈ graph.targets source then some target else none := by
  have hincreasing := h.increasing_edges hvertex
  have htargets : target ∈ graph.targets source ↔ (child, target) ∈ vertex.edges := by
    rw [targets, hvertex]
    simp only [Option.map_some, Option.getD_some, List.mem_map]
    refine ⟨?_, fun hedge => ⟨_, hedge, rfl⟩⟩
    rintro ⟨edge, hedge, rfl⟩
    have hresolved := h.resolved source vertex hvertex edge hedge
    cases hchild.symm.trans hresolved
    exact hedge
  split
  · next hmem => exact (Sorted.find?_eq_some_iff hincreasing).mpr (htargets.mp hmem)
  · next hnot =>
    cases hfind : Sorted.find? child vertex.edges with
    | none => rfl
    | some there =>
      -- What is under the node of the target is a vertex of this node.
      have hedge := (Sorted.find?_eq_some_iff hincreasing).mp hfind
      have hthere := h.resolved source vertex hvertex _ hedge
      cases h.unique _ _ _ hthere hchild
      exact absurd (htargets.mpr hedge) hnot

theorem WellFormed.mem_targets_link (h : graph.WellFormed) (hnode : graph.node? source = some node)
    (hchild : graph.node? target = some child) {a b : VertexId} :
    b ∈ (graph.link source child target).targets a ↔
      b ∈ graph.targets a ∨ (a = source ∧ b = target) := by
  cases ha : graph.node? a with
  | none =>
    have hne : a ≠ source := by
      rintro rfl
      cases ha.symm.trans hnode
    rw [targets_of_node?_none ha, targets_of_node?_none (by rwa [node?_link])]
    simp [hne]
  | some x =>
    rw [(h.link hnode hchild).mem_targets_iff (by rwa [node?_link]), h.mem_targets_iff ha]
    simp only [h.mem_children_link hnode, node?_link]
    constructor
    · rintro ⟨other, hold | ⟨rfl, rfl⟩, hb⟩
      · exact Or.inl ⟨other, hold, hb⟩
      · exact Or.inr ⟨h.unique _ _ _ ha hnode, h.unique _ _ _ hb hchild⟩
    · rintro (⟨other, hold, hb⟩ | ⟨rfl, rfl⟩)
      · exact ⟨other, Or.inl hold, hb⟩
      · cases ha.symm.trans hnode
        exact ⟨child, Or.inr ⟨rfl, rfl⟩, hchild⟩

theorem WellFormed.mem_targets_filterEdges (h : graph.WellFormed)
    (hnode : graph.node? source = some node) (hchild : graph.node? target = some child)
    {a b : VertexId} :
    b ∈ (graph.filterEdges source (· != child)).targets a ↔
      b ∈ graph.targets a ∧ ¬ (a = source ∧ b = target) := by
  cases ha : graph.node? a with
  | none =>
    rw [targets_of_node?_none ha, targets_of_node?_none (by rwa [node?_filterEdges])]
    simp
  | some x =>
    rw [(h.filterEdges hnode).mem_targets_iff (by rwa [node?_filterEdges]), h.mem_targets_iff ha]
    simp only [h.children_filterEdges hnode, node?_filterEdges]
    constructor
    · rintro ⟨other, hother, hb⟩
      split at hother
      · obtain ⟨hold, hne⟩ := List.mem_filter.mp hother
        refine ⟨⟨other, hold, hb⟩, ?_⟩
        rintro ⟨-, rfl⟩
        cases hb.symm.trans hchild
        simp at hne
      · next hx =>
        refine ⟨⟨other, hother, hb⟩, ?_⟩
        rintro ⟨rfl, -⟩
        exact hx (Option.some.inj (ha.symm.trans hnode))
    · rintro ⟨⟨other, hold, hb⟩, hnot⟩
      refine ⟨other, ?_, hb⟩
      split
      · next hx =>
        refine List.mem_filter.mpr ⟨hold, bne_iff_ne.mpr ?_⟩
        rintro rfl
        exact hnot ⟨h.unique _ _ _ (hx ▸ ha) hnode, h.unique _ _ _ hb hchild⟩
      · exact hold

/-- Changes that agree on the edges of the vertex give the same graph. -/
theorem modifyEdges_eq_of_edges {id : VertexId}
    {change other : List (Node × VertexId) → List (Node × VertexId)}
    (h : ∀ vertex, graph.vertex? id = some vertex → change vertex.edges = other vertex.edges) :
    graph.modifyEdges id change = graph.modifyEdges id other := by
  have hvertices :
      (graph.modifyEdges id change).vertices = (graph.modifyEdges id other).vertices := by
    refine List.ext_getElem? fun number => ?_
    have hleft := vertex?_modifyEdges graph id ⟨number⟩ change
    have hright := vertex?_modifyEdges graph id ⟨number⟩ other
    rw [vertex?] at hleft hright
    rw [hleft, hright]
    refine Option.map_congr fun vertex hvertex => ?_
    split
    · next heq => rw [h vertex (heq ▸ hvertex)]
    · rfl
  rw [modifyEdges, modifyEdges] at hvertices ⊢
  simpa using hvertices

/-- Without the edge that was added, the graph is as it was. -/
theorem WellFormed.filterEdges_link (h : graph.WellFormed)
    (hchild : graph.node? target = some child) (hnot : target ∉ graph.targets source) :
    (graph.link source child target).filterEdges source (· != child) = graph := by
  have hback : ∀ vertex, graph.vertex? source = some vertex →
      (Sorted.put child target vertex.edges).filter (fun edge => edge.1 != child) =
        vertex.edges := by
    intro vertex hvertex
    have hput : Sorted.Increasing ((Sorted.put child target vertex.edges).map (·.1)) := by
      rw [Sorted.map_fst_put]
      exact Sorted.increasing_insert (h.increasing_edges hvertex)
    rw [← Sorted.erase_eq_filter hput, Sorted.erase_put]
    rw [h.find?_edges hvertex hchild, if_neg hnot]
  calc (graph.link source child target).filterEdges source (· != child)
      = graph.modifyEdges source
          fun edges => (Sorted.put child target edges).filter fun edge => edge.1 != child := by
        simp only [FlowGraph.link, FlowGraph.filterEdges, FlowGraph.modifyEdges,
          List.modify_modify_eq]
        rfl
    _ = graph.modifyEdges source id := modifyEdges_eq_of_edges hback
    _ = graph := by
        simp only [FlowGraph.modifyEdges, id_eq]
        rw [show (fun vertex : Vertex => vertex) = id from rfl, List.modify_id]

end Targets

/-! ## What the operations do -/

/-- A graph differs from another one in its edges, which the relation tells, and in
    nothing else. -/
structure Rewired (graph next : FlowGraph) (edge : VertexId → VertexId → Prop) : Prop where
  node? : ∀ id, next.node? id = graph.node? id
  find? : ∀ node, next.find? node = graph.find? node
  frozen : next.frozen = graph.frozen
  targets : ∀ a b, b ∈ next.targets a ↔ edge a b

section Operations

variable {graph : FlowGraph} {source target : VertexId} {node child : Node}

/-- Either the ends of an edge are vertices, or one of them is reported as missing: the
    target, which is looked up first, or the source. -/
theorem ends_or_missing (graph : FlowGraph) (source target : VertexId) :
    (∃ node child, graph.node? source = some node ∧ graph.node? target = some child) ∨
      ∃ missing, graph.node? missing = none ∧ (missing = source ∨ missing = target) ∧
        graph.addEdge source target = .error (.vertexNotFound missing) ∧
        graph.removeEdge source target = .error (.vertexNotFound missing) := by
  cases htarget : graph.node? target with
  | none =>
    refine Or.inr ⟨target, htarget, Or.inr rfl, ?_⟩
    rw [addEdge, removeEdge, FlowGraph.node, htarget]
    exact ⟨rfl, rfl⟩
  | some child =>
    cases hsource : graph.node? source with
    | none =>
      refine Or.inr ⟨source, hsource, Or.inl rfl, ?_⟩
      rw [node?, Option.map_eq_none_iff] at hsource
      rw [addEdge, removeEdge, node_eq_ok_iff.mpr htarget, hsource]
      exact ⟨rfl, rfl⟩
    | some node => exact Or.inl ⟨node, child, rfl, rfl⟩

/-- Between two vertices an edge is added unless it is there. -/
theorem WellFormed.addEdge_eq (h : graph.WellFormed) (hnode : graph.node? source = some node)
    (hchild : graph.node? target = some child) :
    graph.addEdge source target =
      if target ∈ graph.targets source then .ok (graph, false)
      else .ok (graph.link source child target, true) := by
  obtain ⟨vertex, hvertex, -⟩ := node?_eq_some_iff.mp hnode
  rw [addEdge, node_eq_ok_iff.mpr hchild, hvertex]
  simp only [bind, Except.bind, h.find?_edges hvertex hchild]
  by_cases hmem : target ∈ graph.targets source
  · simp only [if_pos hmem, ↓reduceIte]
  · simp only [if_neg hmem]
    rfl

/-- Between two vertices the edge is removed if it is there. -/
theorem WellFormed.removeEdge_eq (h : graph.WellFormed) (hnode : graph.node? source = some node)
    (hchild : graph.node? target = some child) :
    graph.removeEdge source target =
      if target ∈ graph.targets source then .ok (graph.filterEdges source (· != child), true)
      else .ok (graph, false) := by
  obtain ⟨vertex, hvertex, -⟩ := node?_eq_some_iff.mp hnode
  have herase : graph.modifyEdges source (Sorted.erase child) =
      graph.filterEdges source (· != child) :=
    modifyEdges_eq_of_edges fun _ hother => Sorted.erase_eq_filter (h.increasing_edges hother)
  rw [removeEdge, node_eq_ok_iff.mpr hchild, hvertex]
  simp only [bind, Except.bind, h.find?_edges hvertex hchild, herase]
  by_cases hmem : target ∈ graph.targets source
  · simp only [if_pos hmem, ↓reduceIte]
  · simp only [if_neg hmem, reduceCtorEq, ↓reduceIte]

/-- Adding or removing an edge fails for an end that is no vertex, and for nothing else. -/
theorem WellFormed.edge_error (h : graph.WellFormed) {error : GraphError}
    (herror : graph.addEdge source target = .error error ∨
      graph.removeEdge source target = .error error) :
    ∃ missing, (missing = source ∨ missing = target) ∧ graph.size ≤ missing.number ∧
      error = .vertexNotFound missing := by
  rcases graph.ends_or_missing source target with
    ⟨node, child, hnode, hchild⟩ | ⟨missing, hnone, hend, hadd, hremove⟩
  · rw [h.addEdge_eq hnode hchild, h.removeEdge_eq hnode hchild] at herror
    rcases herror with herror | herror <;> split at herror <;> cases herror
  · refine ⟨missing, hend, ?_, ?_⟩
    · by_contra hlt
      obtain ⟨node, hnode⟩ := lt_size_iff.mp (Nat.lt_of_not_le hlt)
      cases hnone.symm.trans hnode
    · rcases herror with herror | herror
      · cases hadd.symm.trans herror
        rfl
      · cases hremove.symm.trans herror
        rfl

/-- Between two vertices an edge can be added and removed. -/
theorem WellFormed.edge_ok (h : graph.WellFormed) (hsource : source.number < graph.size)
    (htarget : target.number < graph.size) :
    (∃ next added, graph.addEdge source target = .ok (next, added)) ∧
      ∃ next removed, graph.removeEdge source target = .ok (next, removed) := by
  obtain ⟨node, hnode⟩ := lt_size_iff.mp hsource
  obtain ⟨child, hchild⟩ := lt_size_iff.mp htarget
  rw [h.addEdge_eq hnode hchild, h.removeEdge_eq hnode hchild]
  by_cases hmem : target ∈ graph.targets source
  · simp [hmem]
  · simp [hmem]

/-- An added edge is there and no other one came. -/
theorem WellFormed.addEdge_ok (h : graph.WellFormed) {next : FlowGraph} {added : Bool}
    (hadd : graph.addEdge source target = .ok (next, added)) :
    next.WellFormed ∧
      Rewired graph next (fun a b => b ∈ graph.targets a ∨ (a = source ∧ b = target)) ∧
      (added = true ↔ target ∉ graph.targets source) ∧ (added = false → next = graph) := by
  rcases graph.ends_or_missing source target with
    ⟨node, child, hnode, hchild⟩ | ⟨missing, -, -, herror, -⟩
  · rw [h.addEdge_eq hnode hchild] at hadd
    split at hadd
    · next hmem =>
      cases hadd
      refine ⟨h, ⟨fun _ => rfl, fun _ => rfl, rfl, fun a b => ?_⟩, by simp [hmem], fun _ => rfl⟩
      refine ⟨Or.inl, ?_⟩
      rintro (hold | ⟨rfl, rfl⟩)
      · exact hold
      · exact hmem
    · next hnot =>
      cases hadd
      exact ⟨h.link hnode hchild, ⟨fun id => node?_link graph source child target id,
        fun _ => rfl, rfl, fun a b => h.mem_targets_link hnode hchild⟩, by simp [hnot], by simp⟩
  · cases herror.symm.trans hadd

/-- A removed edge is gone and all others stay. -/
theorem WellFormed.removeEdge_ok (h : graph.WellFormed) {next : FlowGraph} {removed : Bool}
    (hremove : graph.removeEdge source target = .ok (next, removed)) :
    next.WellFormed ∧
      Rewired graph next (fun a b => b ∈ graph.targets a ∧ ¬ (a = source ∧ b = target)) ∧
      (removed = true ↔ target ∈ graph.targets source) ∧ (removed = false → next = graph) := by
  rcases graph.ends_or_missing source target with
    ⟨node, child, hnode, hchild⟩ | ⟨missing, -, -, -, herror⟩
  · rw [h.removeEdge_eq hnode hchild] at hremove
    split at hremove
    · next hmem =>
      cases hremove
      exact ⟨h.filterEdges hnode, ⟨fun id => node?_filterEdges graph source _ id,
        fun _ => rfl, rfl, fun a b => h.mem_targets_filterEdges hnode hchild⟩,
        by simp [hmem], by simp⟩
    · next hnot =>
      cases hremove
      refine ⟨h, ⟨fun _ => rfl, fun _ => rfl, rfl, fun a b => ⟨fun hold => ⟨hold, ?_⟩, And.left⟩⟩,
        by simp [hnot], fun _ => rfl⟩
      rintro ⟨rfl, rfl⟩
      exact hnot hold
  · cases herror.symm.trans hremove

/-- Removing an edge that was added gives back the graph itself. -/
theorem WellFormed.removeEdge_of_addEdge (h : graph.WellFormed) {next : FlowGraph}
    (hadd : graph.addEdge source target = .ok (next, true)) :
    next.removeEdge source target = .ok (graph, true) := by
  obtain ⟨hnext, hrewired, htrue, -⟩ := h.addEdge_ok hadd
  rcases graph.ends_or_missing source target with
    ⟨node, child, hnode, hchild⟩ | ⟨missing, -, -, herror, -⟩
  · have hnot := htrue.mp rfl
    rw [h.addEdge_eq hnode hchild, if_neg hnot] at hadd
    cases hadd
    have hmem : target ∈ (graph.link source child target).targets source :=
      (hrewired.targets source target).mpr (Or.inr ⟨rfl, rfl⟩)
    rw [hnext.removeEdge_eq (by rwa [node?_link]) (by rwa [node?_link]), if_pos hmem,
      h.filterEdges_link hchild hnot]
  · cases herror.symm.trans hadd

end Operations

/-! ## Sequences of operations -/

/-- A change of one graph, with any nodes and vertices. -/
inductive Change where
  | vertexFor (node : Node)
  | addEdge (source target : VertexId)
  | removeEdge (source target : VertexId)

/-- The changed graph, or why the change is refused. -/
def Change.result (graph : FlowGraph) : Change → Except GraphError FlowGraph
  | .vertexFor node => (graph.vertexFor node).map (·.1)
  | .addEdge source target => (graph.addEdge source target).map (·.1)
  | .removeEdge source target => (graph.removeEdge source target).map (·.1)

/-- The graph after a change that may have been refused. -/
def Change.after (change : Change) (graph : FlowGraph) : FlowGraph :=
  match change.result graph with
  | .ok next => next
  | .error _ => graph

/-- What is done with graphs that are known by their places. -/
inductive Operation where
  | modify (place : Nat) (change : Change)
  /-- A frozen copy gets the next place. -/
  | copy (place : Nat)

/-- The graphs after an operation. -/
def Operation.after (graphs : List FlowGraph) : Operation → List FlowGraph
  | .modify place change => graphs.modify place change.after
  | .copy place => graphs ++ (graphs[place]?.map FlowGraph.copy).toList

/-- The graphs that operations make of an empty one. -/
def afterAll (operations : List Operation) : List FlowGraph :=
  operations.foldl Operation.after [.empty]

section Run

variable {graph : FlowGraph}

/-- No change makes a graph ill-formed. -/
theorem WellFormed.change (h : graph.WellFormed) {change : Change} {next : FlowGraph}
    (hresult : change.result graph = .ok next) : next.WellFormed := by
  cases change with
  | vertexFor node =>
    obtain ⟨⟨made, id⟩, hmade, rfl⟩ := map_eq_ok_iff.mp hresult
    rw [vertexFor] at hmade
    split at hmade
    · cases hmade
      exact h
    · split at hmade
      · cases hmade
      · have hwf := h.intern node
        rwa [Except.ok.inj hmade] at hwf
  | addEdge source target =>
    obtain ⟨⟨made, added⟩, hmade, rfl⟩ := map_eq_ok_iff.mp hresult
    exact (h.addEdge_ok hmade).1
  | removeEdge source target =>
    obtain ⟨⟨made, removed⟩, hmade, rfl⟩ := map_eq_ok_iff.mp hresult
    exact (h.removeEdge_ok hmade).1

/-- A change is refused for a vertex that is not there or because the graph is frozen. -/
theorem WellFormed.change_error (h : graph.WellFormed) {change : Change} {error : GraphError}
    (hresult : change.result graph = .error error) :
    (∃ id, error = .vertexNotFound id ∧ graph.size ≤ id.number) ∨
      ∃ node, error = .frozenGraph node ∧ graph.frozen = true ∧ graph.find? node = none := by
  cases change with
  | vertexFor node =>
    have hmade := map_eq_error_iff.mp hresult
    rw [vertexFor] at hmade
    split at hmade
    · cases hmade
    · next hfind =>
      split at hmade
      · next hfrozen =>
        cases hmade
        exact Or.inr ⟨node, rfl, hfrozen, hfind⟩
      · cases hmade
  | addEdge source target =>
    obtain ⟨missing, -, hsize, herror⟩ := h.edge_error (Or.inl (map_eq_error_iff.mp hresult))
    exact Or.inl ⟨missing, herror, hsize⟩
  | removeEdge source target =>
    obtain ⟨missing, -, hsize, herror⟩ := h.edge_error (Or.inr (map_eq_error_iff.mp hresult))
    exact Or.inl ⟨missing, herror, hsize⟩

theorem WellFormed.after (h : graph.WellFormed) (change : Change) :
    (change.after graph).WellFormed := by
  rw [Change.after]
  split
  · next hresult => exact h.change hresult
  · exact h

/-- One operation keeps all graphs well-formed. -/
theorem wellFormed_after {graphs : List FlowGraph} (h : ∀ graph ∈ graphs, graph.WellFormed)
    (operation : Operation) : ∀ graph ∈ operation.after graphs, graph.WellFormed := by
  intro graph hgraph
  cases operation with
  | modify place change =>
    obtain ⟨i, hi⟩ := List.mem_iff_getElem?.mp hgraph
    rw [Operation.after, List.getElem?_modify] at hi
    obtain ⟨old, hold, rfl⟩ := Option.map_eq_some_iff.mp hi
    have hwf := h old (List.mem_of_getElem? hold)
    split
    · exact hwf.after change
    · exact hwf
  | copy place =>
    rw [Operation.after] at hgraph
    rcases List.mem_append.mp hgraph with hold | hnew
    · exact h graph hold
    · obtain ⟨old, hold, rfl⟩ := Option.map_eq_some_iff.mp (Option.mem_toList.mp hnew)
      exact (h old (List.mem_of_getElem? hold)).copy

/-- So do all operations, one after another. -/
theorem wellFormed_afterAll (operations : List Operation) :
    ∀ graph ∈ afterAll operations, graph.WellFormed := by
  suffices h : ∀ graphs : List FlowGraph, (∀ graph ∈ graphs, graph.WellFormed) →
      ∀ graph ∈ operations.foldl Operation.after graphs, graph.WellFormed by
    refine h [.empty] fun graph hgraph => ?_
    rw [List.mem_singleton.mp hgraph]
    exact .empty
  induction operations with
  | nil => exact fun graphs h => h
  | cons operation operations ih => exact fun graphs h => ih _ (wellFormed_after h operation)

/-- The targets of a vertex stand in the order of their nodes. -/
theorem WellFormed.pairwise_edges (h : graph.WellFormed) {id : VertexId} {targets : List VertexId}
    (hedges : graph.edges id = .ok targets) :
    targets.Pairwise fun a b =>
      ∃ x y, graph.node a = .ok x ∧ graph.node b = .ok y ∧ compare x y = .lt := by
  rw [FlowGraph.edges] at hedges
  split at hedges
  · next vertex hvertex =>
    cases hedges
    have hnode : ∀ edge ∈ vertex.edges, graph.node edge.2 = .ok edge.1 := fun edge hedge =>
      node_eq_ok_iff.mpr (h.resolved id vertex hvertex edge hedge)
    rw [List.pairwise_map]
    refine (List.pairwise_map.mp (h.increasing_edges hvertex)).imp_of_mem ?_
    intro a b ha hb hlt
    exact ⟨a.1, b.1, hnode a ha, hnode b hb, hlt⟩
  · cases hedges

/-- Whatever was done with graphs, in each of them a node is found exactly if it has a
    vertex, edges are kept under the nodes of their targets and in their order. So an edge
    between two vertices can always be added or removed, this changes the one edge and tells
    whether it did, and removing undoes adding. A change is refused only for a vertex that is
    not there or for a new node of a frozen graph, and then nothing has changed. -/
theorem graphs_stay_consistent (operations : List Operation) (graph : FlowGraph)
    (hgraph : graph ∈ afterAll operations) :
    (∀ node id, graph.find? node = some id ↔ id.number < graph.size ∧ graph.node id = .ok node) ∧
      (∀ id vertex, graph.vertex? id = some vertex → ∀ edge ∈ vertex.edges,
        edge.2.number < graph.size ∧ graph.node edge.2 = .ok edge.1) ∧
      (∀ id targets, graph.edges id = .ok targets → targets.Pairwise fun a b =>
        ∃ x y, graph.node a = .ok x ∧ graph.node b = .ok y ∧ compare x y = .lt) ∧
      (∀ source target other node,
        graph.addEdge source target ≠ .error (.conflictingEdge other node)) ∧
      (∀ source target, source.number < graph.size → target.number < graph.size →
        (∃ next added, graph.addEdge source target = .ok (next, added)) ∧
          ∃ next removed, graph.removeEdge source target = .ok (next, removed)) ∧
      (∀ source target next added, graph.addEdge source target = .ok (next, added) →
        (added = true ↔ target ∉ graph.targets source ∧ target ∈ next.targets source) ∧
          (added = false ↔ next = graph) ∧
          Rewired graph next (fun a b => b ∈ graph.targets a ∨ (a = source ∧ b = target)) ∧
          (added = true → next.removeEdge source target = .ok (graph, true))) ∧
      (∀ source target next removed, graph.removeEdge source target = .ok (next, removed) →
        (removed = true ↔ target ∈ graph.targets source) ∧ (removed = false ↔ next = graph) ∧
          Rewired graph next (fun a b => b ∈ graph.targets a ∧ ¬ (a = source ∧ b = target))) ∧
      (∀ change error, Change.result graph change = .error error → change.after graph = graph ∧
        ((∃ id, error = .vertexNotFound id ∧ graph.size ≤ id.number) ∨
          ∃ node, error = .frozenGraph node ∧ graph.frozen = true ∧ graph.find? node = none)) := by
  have h := wellFormed_afterAll operations graph hgraph
  refine ⟨fun node id => ?_, fun id vertex hvertex edge hedge => ?_,
    fun id targets hedges => h.pairwise_edges hedges, fun source target other node herror => ?_,
    fun source target hsource htarget => h.edge_ok hsource htarget,
    fun source target next added hadd => ?_, fun source target next removed hremove => ?_,
    fun change error hresult => ⟨?_, h.change_error hresult⟩⟩
  · rw [node_eq_ok_iff, h.find?_eq_some_iff]
    exact ⟨fun hnode => ⟨lt_size_of_node? hnode, hnode⟩, And.right⟩
  · have hnode := h.resolved id vertex hvertex edge hedge
    exact ⟨lt_size_of_node? hnode, node_eq_ok_iff.mpr hnode⟩
  · obtain ⟨missing, -, -, hconflict⟩ := h.edge_error (Or.inl herror)
    cases hconflict
  · obtain ⟨-, hrewired, htrue, hfalse⟩ := h.addEdge_ok hadd
    have hthere := (hrewired.targets source target).mpr (Or.inr ⟨rfl, rfl⟩)
    refine ⟨⟨fun hadded => ⟨htrue.mp hadded, hthere⟩, fun hnew => htrue.mpr hnew.1⟩,
      ⟨hfalse, fun hsame => ?_⟩, hrewired, fun hadded => ?_⟩
    · -- The edge is there afterwards, so it was there before.
      rw [hsame] at hthere
      exact Bool.eq_false_iff.mpr fun hadded => htrue.mp hadded hthere
    · rw [hadded] at hadd
      exact h.removeEdge_of_addEdge hadd
  · obtain ⟨-, hrewired, htrue, hfalse⟩ := h.removeEdge_ok hremove
    refine ⟨htrue, ⟨hfalse, fun hsame => Bool.eq_false_iff.mpr fun hremoved => ?_⟩, hrewired⟩
    have hgone := (hrewired.targets source target).mp (hsame ▸ htrue.mp hremoved)
    exact hgone.2 ⟨rfl, rfl⟩
  · rw [Change.after, hresult]

/-- A graph with an edge, its frozen copy without it, and two refused changes. -/
def copyAndRemove : List Operation :=
  [.modify 0 (.vertexFor (.expression ⟨3⟩)), .modify 0 (.vertexFor (.parameter ⟨1⟩)),
    .modify 0 (.addEdge ⟨0⟩ ⟨1⟩), .copy 0, .modify 1 (.removeEdge ⟨0⟩ ⟨1⟩),
    .modify 1 (.vertexFor (.expression ⟨7⟩)), .modify 0 (.addEdge ⟨1⟩ ⟨5⟩)]

/-- The frozen copy that they leave. -/
def copyWithoutEdge : FlowGraph where
  vertices := [⟨.expression ⟨3⟩, []⟩, ⟨.parameter ⟨1⟩, []⟩]
  byNode := [(.expression ⟨3⟩, ⟨0⟩), (.parameter ⟨1⟩, ⟨1⟩)]
  frozen := true

theorem graphs_stay_consistent_copyAndRemove :
    copyWithoutEdge ∈ afterAll copyAndRemove ∧
      (∀ node id, copyWithoutEdge.find? node = some id ↔
        id.number < copyWithoutEdge.size ∧ copyWithoutEdge.node id = .ok node) ∧
      ∃ next, copyWithoutEdge.addEdge ⟨0⟩ ⟨1⟩ = .ok (next, true) ∧
        next.removeEdge ⟨0⟩ ⟨1⟩ = .ok (copyWithoutEdge, true) := by
  have hmem : copyWithoutEdge ∈ afterAll copyAndRemove := by decide
  obtain ⟨hfind, -, -, -, -, hadd, -⟩ :=
    graphs_stay_consistent copyAndRemove copyWithoutEdge hmem
  have hadded : copyWithoutEdge.addEdge ⟨0⟩ ⟨1⟩ =
      .ok (copyWithoutEdge.link ⟨0⟩ (.parameter ⟨1⟩) ⟨1⟩, true) := by decide
  obtain ⟨-, -, -, hremove⟩ := hadd _ _ _ _ hadded
  exact ⟨hmem, hfind, _, hadded, hremove rfl⟩

end Run

end FlowGraph
end ValueFlow
