/-
  ValueFlow.Proofs.FlowGraph

  Flow graphs seen by their nodes.

  In a well-formed graph a node has one vertex, which the map from nodes to vertices
  knows. Edges are kept in the order of their target nodes, and the vertex of an edge is
  that of its node. Such a graph is known by its nodes and by the children of each:
  `intern`, `link` and `filterEdges` are described by what they do to these two.
-/

import ValueFlow.Flow.Graph
import ValueFlow.Proofs.Search
import ValueFlow.Proofs.Sorted

namespace ValueFlow
namespace FlowGraph

/-- The nodes that have a vertex. -/
def nodes (graph : FlowGraph) : List Node := graph.vertices.map (·.node)

/-- The nodes that a node has edges to, in increasing order. -/
def children (graph : FlowGraph) (node : Node) : List Node :=
  ((graph.find? node).map graph.targetNodes).getD []

/-- The vertex that is found for a node is the only one of this node, and edges go by
    increasing target node and lead to the vertex of that node. -/
structure WellFormed (graph : FlowGraph) : Prop where
  find?_eq_some_iff : ∀ {node id}, graph.find? node = some id ↔ graph.node? id = some node
  increasing : ∀ id, Sorted.Increasing (graph.targetNodes id)
  resolved : ∀ id vertex, graph.vertex? id = some vertex →
    ∀ edge ∈ vertex.edges, graph.node? edge.2 = some edge.1

/-! ## Vertices and nodes -/

theorem node?_eq_some_iff {graph : FlowGraph} {id : VertexId} {node : Node} :
    graph.node? id = some node ↔ ∃ vertex, graph.vertex? id = some vertex ∧ vertex.node = node := by
  rw [node?, Option.map_eq_some_iff]

theorem node?_eq_getElem? (graph : FlowGraph) (id : VertexId) :
    graph.node? id = graph.nodes[id.number]? := by
  rw [node?, vertex?, nodes, List.getElem?_map]

theorem mem_nodes_iff {graph : FlowGraph} {node : Node} :
    node ∈ graph.nodes ↔ ∃ id, graph.node? id = some node := by
  rw [List.mem_iff_getElem?]
  constructor
  · rintro ⟨i, hi⟩
    exact ⟨⟨i⟩, by rw [node?_eq_getElem?, hi]⟩
  · rintro ⟨id, hid⟩
    exact ⟨id.number, by rw [← node?_eq_getElem?, hid]⟩

theorem lt_size_of_node? {graph : FlowGraph} {id : VertexId} {node : Node}
    (h : graph.node? id = some node) : id.number < graph.size := by
  rw [node?_eq_getElem?] at h
  have hlt := (List.getElem?_eq_some_iff.mp h).1
  rwa [nodes, List.length_map] at hlt

theorem mem_ids_iff {graph : FlowGraph} {id : VertexId} :
    id ∈ graph.ids ↔ ∃ node, graph.node? id = some node := by
  rw [ids, List.mem_map]
  constructor
  · rintro ⟨i, hi, rfl⟩
    rw [List.mem_range] at hi
    have hlt : i < graph.nodes.length := by rwa [nodes, List.length_map]
    exact ⟨graph.nodes[i], by rw [node?_eq_getElem?]; exact List.getElem?_eq_getElem hlt⟩
  · rintro ⟨node, hnode⟩
    exact ⟨id.number, List.mem_range.mpr (lt_size_of_node? hnode), rfl⟩

theorem length_ids (graph : FlowGraph) : graph.ids.length = graph.size := by
  rw [ids, List.length_map, List.length_range]

theorem WellFormed.unique {graph : FlowGraph} (h : graph.WellFormed) (i j : VertexId)
    (node : Node) (hi : graph.node? i = some node) (hj : graph.node? j = some node) : i = j := by
  have hfind := h.find?_eq_some_iff.mpr hi
  rw [h.find?_eq_some_iff.mpr hj] at hfind
  exact (Option.some.inj hfind).symm

theorem WellFormed.find?_eq_none_iff {graph : FlowGraph} (h : graph.WellFormed) {node : Node} :
    graph.find? node = none ↔ node ∉ graph.nodes := by
  rw [Option.eq_none_iff_forall_ne_some, mem_nodes_iff, not_exists]
  exact forall_congr' fun id => not_congr h.find?_eq_some_iff

theorem WellFormed.increasing_edges {graph : FlowGraph} (h : graph.WellFormed) {id : VertexId}
    {vertex : Vertex} (hvertex : graph.vertex? id = some vertex) :
    Sorted.Increasing (vertex.edges.map (·.1)) := by
  have hall := h.increasing id
  rwa [targetNodes, hvertex] at hall

/-! ## Edges and children -/

theorem WellFormed.nodup_nodes {graph : FlowGraph} (h : graph.WellFormed) : graph.nodes.Nodup := by
  rw [List.nodup_iff_getElem?_ne_getElem?]
  intro i j hlt hj heq
  have hnode := List.getElem?_eq_getElem hj
  have hsame := h.unique ⟨i⟩ ⟨j⟩ graph.nodes[j] (by rw [node?_eq_getElem?, heq, hnode])
    (by rw [node?_eq_getElem?, hnode])
  have hplace : i = j := congrArg VertexId.number hsame
  omega

theorem WellFormed.children_eq {graph : FlowGraph} (h : graph.WellFormed) {node : Node}
    {id : VertexId} (hnode : graph.node? id = some node) :
    graph.children node = graph.targetNodes id := by
  rw [children, h.find?_eq_some_iff.mpr hnode]
  rfl

theorem WellFormed.children_of_not_mem {graph : FlowGraph} (h : graph.WellFormed) {node : Node}
    (hnode : node ∉ graph.nodes) : graph.children node = [] := by
  rw [children, h.find?_eq_none_iff.mpr hnode]
  rfl

theorem WellFormed.mem_nodes_of_mem_children {graph : FlowGraph} (h : graph.WellFormed)
    {node child : Node} (hchild : child ∈ graph.children node) : node ∈ graph.nodes := by
  by_contra hnot
  rw [h.children_of_not_mem hnot] at hchild
  cases hchild

theorem WellFormed.children_increasing {graph : FlowGraph} (h : graph.WellFormed) (node : Node) :
    Sorted.Increasing (graph.children node) := by
  rw [children]
  cases graph.find? node with
  | none => exact List.Pairwise.nil
  | some id => exact h.increasing id

/-- The edges of a vertex lead to the vertices of its children. -/
theorem WellFormed.mem_targets_iff {graph : FlowGraph} (h : graph.WellFormed) {id target : VertexId}
    {node : Node} (hnode : graph.node? id = some node) :
    target ∈ graph.targets id ↔
      ∃ child ∈ graph.children node, graph.node? target = some child := by
  rw [h.children_eq hnode]
  obtain ⟨vertex, hvertex, -⟩ := node?_eq_some_iff.mp hnode
  rw [targets, targetNodes, hvertex]
  simp only [Option.map_some, Option.getD_some, List.mem_map]
  constructor
  · rintro ⟨edge, hedge, rfl⟩
    exact ⟨edge.1, ⟨edge, hedge, rfl⟩, h.resolved id vertex hvertex edge hedge⟩
  · rintro ⟨-, ⟨edge, hedge, rfl⟩, htarget⟩
    exact ⟨edge, hedge, h.unique _ _ _ (h.resolved id vertex hvertex edge hedge) htarget⟩

/-- The targets of a vertex are the vertices of its children, in their order. -/
theorem WellFormed.targets_eq {graph : FlowGraph} (h : graph.WellFormed) {id : VertexId}
    {node : Node} (hnode : graph.node? id = some node) :
    (graph.targets id).map graph.node? = (graph.children node).map some := by
  rw [h.children_eq hnode]
  obtain ⟨vertex, hvertex, -⟩ := node?_eq_some_iff.mp hnode
  rw [targets, targetNodes, hvertex]
  simp only [Option.map_some, Option.getD_some, List.map_map]
  refine List.map_congr_left ?_
  intro edge hedge
  exact h.resolved id vertex hvertex edge hedge

/-- These vertices stand in the order of their nodes. -/
theorem WellFormed.pairwise_targets {graph : FlowGraph} (h : graph.WellFormed) {id : VertexId}
    {node : Node} (hnode : graph.node? id = some node) :
    (graph.targets id).Pairwise fun a b =>
      ∀ x ∈ graph.node? a, ∀ y ∈ graph.node? b, compare x y = .lt := by
  have hmap : ((graph.targets id).map graph.node?).Pairwise fun a b =>
      ∀ x ∈ a, ∀ y ∈ b, compare x y = .lt := by
    rw [h.targets_eq hnode, List.pairwise_map]
    refine (h.children_increasing node).imp ?_
    intro a b hlt x hx y hy
    cases hx
    cases hy
    exact hlt
  exact List.pairwise_map.mp hmap

theorem WellFormed.mem_nodes_of_child {graph : FlowGraph} (h : graph.WellFormed)
    {node child : Node} (hchild : child ∈ graph.children node) : child ∈ graph.nodes := by
  obtain ⟨id, hid⟩ := mem_nodes_iff.mp (h.mem_nodes_of_mem_children hchild)
  rw [h.children_eq hid] at hchild
  obtain ⟨vertex, hvertex, -⟩ := node?_eq_some_iff.mp hid
  rw [targetNodes, hvertex] at hchild
  simp only [Option.map_some, Option.getD_some, List.mem_map] at hchild
  obtain ⟨edge, hedge, rfl⟩ := hchild
  exact mem_nodes_iff.mpr ⟨edge.2, h.resolved id vertex hvertex edge hedge⟩

theorem targets_of_node?_none {graph : FlowGraph} {id : VertexId} (h : graph.node? id = none) :
    graph.targets id = [] := by
  rw [node?, Option.map_eq_none_iff] at h
  rw [targets, h]
  rfl

theorem WellFormed.target_mem_ids {graph : FlowGraph} (h : graph.WellFormed) {id target : VertexId}
    (htarget : target ∈ graph.targets id) : target ∈ graph.ids := by
  cases hnode : graph.node? id with
  | none => rw [targets_of_node?_none hnode] at htarget; cases htarget
  | some node =>
    obtain ⟨child, -, hchild⟩ := (h.mem_targets_iff hnode).mp htarget
    exact mem_ids_iff.mpr ⟨child, hchild⟩

/-! ## Reachable vertices and nodes -/

/-- Steps between vertices that follow steps from their nodes reach the vertices of what
    the nodes reach. -/
theorem WellFormed.reach_iff_of_step {graph : FlowGraph} (h : graph.WellFormed)
    {next : VertexId → List VertexId} {nextNodes : Node → List Node}
    (hmem : ∀ node, ∀ child ∈ nextNodes node, node ∈ graph.nodes)
    (hnext : ∀ id node, graph.node? id = some node → ∀ target, target ∈ next id ↔
      ∃ child ∈ nextNodes node, graph.node? target = some child)
    {id target : VertexId} {node : Node} (hnode : graph.node? id = some node) :
    Search.Reach next id target ↔
      ∃ other, Search.Reach nextNodes node other ∧ graph.node? target = some other := by
  refine ⟨?_, ?_⟩
  · intro hreach
    induction hreach with
    | refl => exact ⟨node, .refl, hnode⟩
    | tail _ hstep ih =>
      obtain ⟨middle, hmiddle, hid⟩ := ih
      obtain ⟨child, hchild, htarget⟩ := (hnext _ _ hid _).mp hstep
      exact ⟨child, hmiddle.tail hchild, htarget⟩
  · rintro ⟨other, hreach, htarget⟩
    induction hreach generalizing target with
    | refl =>
      rw [h.unique _ _ _ hnode htarget]
    | tail _ hstep ih =>
      obtain ⟨middle, hmiddle⟩ := mem_nodes_iff.mp (hmem _ _ hstep)
      exact (ih hmiddle).tail ((hnext _ _ hmiddle _).mpr ⟨_, hstep, htarget⟩)

/-- What a vertex reaches are the vertices of what its node reaches. -/
theorem WellFormed.reach_iff {graph : FlowGraph} (h : graph.WellFormed) {id target : VertexId}
    {node : Node} (hnode : graph.node? id = some node) :
    Search.Reach graph.targets id target ↔
      ∃ other, Search.Reach graph.children node other ∧ graph.node? target = some other :=
  h.reach_iff_of_step (fun _ _ hchild => h.mem_nodes_of_mem_children hchild)
    (fun _ _ hid _ => h.mem_targets_iff hid) hnode

/-- Nodes reached from a node of a graph belong to the graph. -/
theorem WellFormed.mem_nodes_of_reach {graph : FlowGraph} (h : graph.WellFormed)
    {node other : Node} (hreach : Search.Reach graph.children node other)
    (hnode : node ∈ graph.nodes) : other ∈ graph.nodes :=
  hreach.mem_of_closed (P := (· ∈ graph.nodes)) (fun _ _ _ hchild => h.mem_nodes_of_child hchild)
    hnode

/-! ## Changing the edges of a vertex -/

theorem vertex?_modifyEdges (graph : FlowGraph) (id other : VertexId)
    (change : List (Node × VertexId) → List (Node × VertexId)) :
    (graph.modifyEdges id change).vertex? other = (graph.vertex? other).map fun vertex =>
      if id = other then { vertex with edges := change vertex.edges } else vertex := by
  have hid : id.number = other.number ↔ id = other :=
    ⟨congrArg VertexId.mk, congrArg VertexId.number⟩
  rw [vertex?, modifyEdges, List.getElem?_modify]
  simp only [hid]
  rfl

@[simp] theorem node?_modifyEdges (graph : FlowGraph) (id other : VertexId)
    (change : List (Node × VertexId) → List (Node × VertexId)) :
    (graph.modifyEdges id change).node? other = graph.node? other := by
  rw [node?, node?, vertex?_modifyEdges, Option.map_map]
  congr 1
  funext vertex
  simp only [Function.comp_apply]
  split <;> rfl

theorem nodes_eq_of_node? {graph other : FlowGraph} (h : ∀ id, other.node? id = graph.node? id) :
    other.nodes = graph.nodes := by
  refine List.ext_getElem? ?_
  intro i
  rw [← node?_eq_getElem? other ⟨i⟩, ← node?_eq_getElem? graph ⟨i⟩, h]

@[simp] theorem nodes_modifyEdges (graph : FlowGraph) (id : VertexId)
    (change : List (Node × VertexId) → List (Node × VertexId)) :
    (graph.modifyEdges id change).nodes = graph.nodes :=
  nodes_eq_of_node? fun other => node?_modifyEdges graph id other change

theorem find?_modifyEdges (graph : FlowGraph) (id : VertexId)
    (change : List (Node × VertexId) → List (Node × VertexId)) (node : Node) :
    (graph.modifyEdges id change).find? node = graph.find? node := rfl

section ModifyEdges

variable {graph : FlowGraph} {id : VertexId}
  {change : List (Node × VertexId) → List (Node × VertexId)} {onNodes : List Node → List Node}

/-- The target nodes of a vertex change as its edges do, those of the others stay. -/
theorem targetNodes_modifyEdges
    (hchange : ∀ edges, (change edges).map (·.1) = onNodes (edges.map (·.1)))
    {node : Node} (hnode : graph.node? id = some node) (other : VertexId) :
    (graph.modifyEdges id change).targetNodes other =
      if id = other then onNodes (graph.targetNodes other) else graph.targetNodes other := by
  rw [targetNodes, targetNodes, vertex?_modifyEdges]
  split
  · next heq =>
    subst heq
    obtain ⟨vertex, hvertex, -⟩ := node?_eq_some_iff.mp hnode
    rw [hvertex]
    exact hchange vertex.edges
  · rw [Option.map_map]
    rfl

/-- A change that keeps edges in order and lets them lead to the vertices of their nodes
    keeps the graph well-formed. -/
theorem WellFormed.modifyEdges (h : graph.WellFormed)
    (hchange : ∀ edges, (change edges).map (·.1) = onNodes (edges.map (·.1)))
    (hincreasing : ∀ members, Sorted.Increasing members → Sorted.Increasing (onNodes members))
    (hresolved : ∀ vertex, graph.vertex? id = some vertex →
      ∀ edge ∈ change vertex.edges, graph.node? edge.2 = some edge.1)
    {node : Node} (hnode : graph.node? id = some node) :
    (graph.modifyEdges id change).WellFormed where
  find?_eq_some_iff := by
    intro other found
    rw [find?_modifyEdges, node?_modifyEdges]
    exact h.find?_eq_some_iff
  increasing other := by
    rw [targetNodes_modifyEdges hchange hnode]
    split
    · exact hincreasing _ (h.increasing other)
    · exact h.increasing other
  resolved other vertex hvertex edge hedge := by
    rw [vertex?_modifyEdges, Option.map_eq_some_iff] at hvertex
    obtain ⟨old, hold, rfl⟩ := hvertex
    rw [node?_modifyEdges]
    split at hedge
    · next heq =>
      subst heq
      exact hresolved old hold edge hedge
    · exact h.resolved other old hold edge hedge

theorem WellFormed.children_modifyEdges (h : graph.WellFormed)
    (hchange : ∀ edges, (change edges).map (·.1) = onNodes (edges.map (·.1)))
    {node : Node} (hnode : graph.node? id = some node) (other : Node) :
    (graph.modifyEdges id change).children other =
      if other = node then onNodes (graph.children other) else graph.children other := by
  rw [children, children, find?_modifyEdges]
  cases hfind : graph.find? other with
  | none =>
    have hne : other ≠ node := by
      rintro rfl
      exact h.find?_eq_none_iff.mp hfind (mem_nodes_iff.mpr ⟨id, hnode⟩)
    rw [if_neg hne]
    rfl
  | some found =>
    have hfound := h.find?_eq_some_iff.mp hfind
    simp only [Option.map_some, Option.getD_some]
    rw [targetNodes_modifyEdges hchange hnode]
    by_cases heq : other = node
    · subst heq
      rw [if_pos rfl, if_pos (h.unique _ _ _ hnode hfound)]
    · have hne : id ≠ found := by
        rintro rfl
        rw [hnode] at hfound
        exact heq (Option.some.inj hfound).symm
      rw [if_neg heq, if_neg hne]

end ModifyEdges

/-! ## Adding and filtering edges -/

section Link

variable {graph : FlowGraph} {source target : VertexId} {node child : Node}

@[simp] theorem node?_link (graph : FlowGraph) (source : VertexId) (child : Node)
    (target id : VertexId) : (graph.link source child target).node? id = graph.node? id :=
  node?_modifyEdges _ _ _ _

@[simp] theorem nodes_link (graph : FlowGraph) (source : VertexId) (child : Node)
    (target : VertexId) : (graph.link source child target).nodes = graph.nodes :=
  nodes_modifyEdges _ _ _

theorem WellFormed.link (h : graph.WellFormed) (hnode : graph.node? source = some node)
    (hchild : graph.node? target = some child) :
    (graph.link source child target).WellFormed := by
  refine h.modifyEdges (Sorted.map_fst_put child target)
    (fun _ => Sorted.increasing_insert) ?_ hnode
  intro vertex hvertex edge hedge
  rcases (Sorted.mem_put (h.increasing_edges hvertex)).mp hedge with rfl | ⟨-, hold⟩
  · exact hchild
  · exact h.resolved source vertex hvertex edge hold

/-- A new edge adds one child to one node. -/
theorem WellFormed.children_link (h : graph.WellFormed) (hnode : graph.node? source = some node)
    (other : Node) :
    (graph.link source child target).children other =
      if other = node then Sorted.insert child (graph.children other)
      else graph.children other :=
  h.children_modifyEdges (Sorted.map_fst_put child target) hnode other

theorem WellFormed.mem_children_link (h : graph.WellFormed)
    (hnode : graph.node? source = some node) {other x : Node} :
    x ∈ (graph.link source child target).children other ↔
      x ∈ graph.children other ∨ (other = node ∧ x = child) := by
  rw [h.children_link hnode]
  split
  · next heq => rw [Sorted.mem_insert]; simp [heq, or_comm]
  · next hne => simp [hne]

end Link

section FilterEdges

variable {graph : FlowGraph} {id : VertexId} {node : Node} {keep : Node → Bool}

theorem map_fst_filter (keep : Node → Bool) (edges : List (Node × VertexId)) :
    (edges.filter fun edge => keep edge.1).map (·.1) = (edges.map (·.1)).filter keep := by
  rw [List.filter_map]
  rfl

@[simp] theorem node?_filterEdges (graph : FlowGraph) (id : VertexId) (keep : Node → Bool)
    (other : VertexId) : (graph.filterEdges id keep).node? other = graph.node? other :=
  node?_modifyEdges _ _ _ _

theorem WellFormed.filterEdges (h : graph.WellFormed) (hnode : graph.node? id = some node) :
    (graph.filterEdges id keep).WellFormed := by
  refine h.modifyEdges (map_fst_filter keep) (fun _ hmembers => hmembers.filter keep) ?_ hnode
  intro vertex hvertex edge hedge
  exact h.resolved id vertex hvertex edge (List.mem_filter.mp hedge).1

/-- Filtering edges filters the children of one node. -/
theorem WellFormed.children_filterEdges (h : graph.WellFormed)
    (hnode : graph.node? id = some node) (other : Node) :
    (graph.filterEdges id keep).children other =
      if other = node then (graph.children other).filter keep else graph.children other :=
  h.children_modifyEdges (map_fst_filter keep) hnode other

end FilterEdges

/-! ## Adding vertices -/

/-- A later graph has the vertices of an earlier one, with their numbers, and all its
    edges. -/
structure Extends (earlier later : FlowGraph) : Prop where
  node? : ∀ id node, earlier.node? id = some node → later.node? id = some node
  children : ∀ node child, child ∈ earlier.children node → child ∈ later.children node

theorem Extends.refl (graph : FlowGraph) : Extends graph graph :=
  ⟨fun _ _ h => h, fun _ _ h => h⟩

theorem Extends.trans {a b c : FlowGraph} (hab : Extends a b) (hbc : Extends b c) :
    Extends a c :=
  ⟨fun id node h => hbc.node? id node (hab.node? id node h),
    fun node child h => hbc.children node child (hab.children node child h)⟩

theorem WellFormed.extends_link {graph : FlowGraph} (h : graph.WellFormed) {source : VertexId}
    {node : Node} (hnode : graph.node? source = some node) (child : Node) (target : VertexId) :
    Extends graph (graph.link source child target) :=
  ⟨fun id other hid => by rwa [node?_link],
    fun _ _ hmem => (h.mem_children_link hnode).mpr (Or.inl hmem)⟩

theorem vertex?_append (graph : FlowGraph) (node : Node) (byNode : List (Node × VertexId))
    (id : VertexId) :
    ({ graph with vertices := graph.vertices ++ [⟨node, []⟩], byNode := byNode } :
        FlowGraph).vertex? id =
      if id.number = graph.size then some ⟨node, []⟩ else graph.vertex? id := by
  rw [vertex?, vertex?]
  split
  · next heq => rw [heq]; exact List.getElem?_concat_length
  · next hne =>
    rcases Nat.lt_or_gt_of_ne hne with hlt | hgt
    · exact List.getElem?_append_left hlt
    · rw [List.getElem?_eq_none, List.getElem?_eq_none]
      · exact Nat.le_of_lt hgt
      · rw [List.length_append]
        exact hgt

theorem vertex?_size (graph : FlowGraph) {id : VertexId} (h : id.number = graph.size) :
    graph.vertex? id = none := by
  rw [vertex?, h]
  exact List.getElem?_eq_none (Nat.le_refl _)

section Intern

variable {graph : FlowGraph} {node : Node}

theorem find?_intern (graph : FlowGraph) (node other : Node) :
    (graph.intern node).1.find? other =
      if other = node then some (graph.intern node).2 else graph.find? other := by
  rw [intern]
  cases hfind : graph.find? node with
  | some id =>
    show graph.find? other = if other = node then some id else graph.find? other
    split
    · next heq => rw [heq, hfind]
    · rfl
  | none => exact Sorted.find?_put node other _ graph.byNode

theorem WellFormed.node?_intern_self (h : graph.WellFormed) (node : Node) :
    (graph.intern node).1.node? (graph.intern node).2 = some node := by
  rw [intern]
  cases hfind : graph.find? node with
  | some id => exact h.find?_eq_some_iff.mp hfind
  | none =>
    show Option.map _ (FlowGraph.vertex? _ _) = _
    rw [vertex?_append, if_pos rfl]
    rfl

theorem WellFormed.node?_intern (h : graph.WellFormed) (node : Node) {id : VertexId}
    {other : Node} :
    (graph.intern node).1.node? id = some other ↔
      graph.node? id = some other ∨ (id = (graph.intern node).2 ∧ other = node) := by
  rw [intern]
  cases hfind : graph.find? node with
  | some found =>
    constructor
    · exact Or.inl
    · rintro (hid | ⟨rfl, rfl⟩)
      · exact hid
      · exact h.find?_eq_some_iff.mp hfind
  | none =>
    show Option.map _ (FlowGraph.vertex? _ _) = _ ↔ _
    rw [vertex?_append]
    split
    · next heq =>
      have hnone : graph.node? id = none := by rw [FlowGraph.node?, vertex?_size graph heq]; rfl
      rw [hnone]
      constructor
      · intro hid
        exact Or.inr ⟨congrArg VertexId.mk heq, (Option.some.inj hid).symm⟩
      · rintro (hid | ⟨-, rfl⟩)
        · cases hid
        · rfl
    · next hne =>
      constructor
      · exact Or.inl
      · rintro (hid | ⟨rfl, -⟩)
        · exact hid
        · exact absurd rfl hne

theorem WellFormed.mem_nodes_intern (h : graph.WellFormed) {other : Node} :
    other ∈ (graph.intern node).1.nodes ↔ other ∈ graph.nodes ∨ other = node := by
  rw [mem_nodes_iff, mem_nodes_iff]
  constructor
  · rintro ⟨id, hid⟩
    rcases (h.node?_intern node).mp hid with hold | ⟨-, rfl⟩
    · exact Or.inl ⟨id, hold⟩
    · exact Or.inr rfl
  · rintro (⟨id, hid⟩ | rfl)
    · exact ⟨id, (h.node?_intern node).mpr (Or.inl hid)⟩
    · exact ⟨_, h.node?_intern_self other⟩

theorem targetNodes_intern (graph : FlowGraph) (node : Node) (id : VertexId) :
    (graph.intern node).1.targetNodes id = graph.targetNodes id := by
  rw [intern]
  cases hfind : graph.find? node with
  | some found => rfl
  | none =>
    rw [targetNodes, targetNodes]
    show Option.getD (Option.map _ (FlowGraph.vertex? _ _)) _ = _
    rw [vertex?_append]
    split
    · next heq => rw [vertex?_size graph heq]; rfl
    · rfl

theorem WellFormed.intern_id (h : graph.WellFormed) {id : VertexId}
    (hid : graph.node? id = some node) : (graph.intern node).2 = id := by
  rw [FlowGraph.intern, h.find?_eq_some_iff.mpr hid]

theorem WellFormed.intern (h : graph.WellFormed) (node : Node) :
    (graph.intern node).1.WellFormed where
  find?_eq_some_iff := by
    intro other id
    rw [find?_intern, h.node?_intern]
    by_cases heq : other = node
    · subst heq
      rw [if_pos rfl, Option.some.injEq]
      constructor
      · rintro rfl
        exact Or.inr ⟨rfl, rfl⟩
      · rintro (hid | ⟨rfl, -⟩)
        · exact h.intern_id hid
        · rfl
    · rw [if_neg heq, h.find?_eq_some_iff]
      exact (or_iff_left fun hnew => heq hnew.2).symm
  increasing id := by
    rw [targetNodes_intern]
    exact h.increasing id
  resolved id vertex hvertex edge hedge := by
    refine (h.node?_intern node).mpr (Or.inl ?_)
    rw [FlowGraph.intern] at hvertex
    cases hfind : graph.find? node with
    | some found =>
      rw [hfind] at hvertex
      exact h.resolved id vertex hvertex edge hedge
    | none =>
      rw [hfind] at hvertex
      rw [vertex?_append] at hvertex
      split at hvertex
      · cases Option.some.inj hvertex
        cases hedge
      · exact h.resolved id vertex hvertex edge hedge

/-- Adding a vertex adds no edge. -/
theorem WellFormed.children_intern (h : graph.WellFormed) (node other : Node) :
    (graph.intern node).1.children other = graph.children other := by
  by_cases hmem : other ∈ graph.nodes
  · obtain ⟨id, hid⟩ := mem_nodes_iff.mp hmem
    have hid' := (h.node?_intern node).mpr (Or.inl hid)
    rw [(h.intern node).children_eq hid', targetNodes_intern, h.children_eq hid]
  · rw [h.children_of_not_mem hmem]
    by_cases heq : other = node
    · subst heq
      have hnone : graph.vertex? (graph.intern other).2 = none := by
        rw [FlowGraph.intern, h.find?_eq_none_iff.mpr hmem]
        exact vertex?_size graph rfl
      rw [(h.intern other).children_eq (h.node?_intern_self other), targetNodes_intern,
        targetNodes, hnone]
      rfl
    · refine (h.intern node).children_of_not_mem ?_
      rw [h.mem_nodes_intern]
      exact fun hor => hor.elim hmem heq

theorem WellFormed.extends_intern (h : graph.WellFormed) (node : Node) :
    Extends graph (graph.intern node).1 :=
  ⟨fun _ _ hid => (h.node?_intern node).mpr (Or.inl hid),
    fun other child hchild => by rwa [h.children_intern node other]⟩

end Intern

theorem WellFormed.empty : FlowGraph.empty.WellFormed where
  find?_eq_some_iff := by
    intro node id
    constructor
    · intro hfind
      cases hfind
    · intro hnode
      cases hnode
  increasing _ := List.Pairwise.nil
  resolved _ _ hvertex := by cases hvertex

theorem WellFormed.copy {graph : FlowGraph} (h : graph.WellFormed) : graph.copy.WellFormed :=
  ⟨h.find?_eq_some_iff, h.increasing, h.resolved⟩

end FlowGraph
end ValueFlow
