/-
  ValueFlow.Proofs.SharedExploration

  Explorations that share their work.

  One explorer may start from several nodes in turn. A node explored before is passed over,
  and the edge to a node is there before the node is looked at. Still each exploration ends,
  every node of the graph has all its edges afterwards, and another order of the nodes
  changes nothing but the numbers of the vertices.

  `run` is bounded. `Explores` is the loop without a bound, which works on vertices and uses
  the checked operations of the graph. On an accepted unit the loop ends, none of its
  operations is refused, and its result is that of `run`.
-/

import ValueFlow.Proofs.Explore
import ValueFlow.Proofs.FlowConstruction
import ValueFlow.Proofs.GraphOperations
import Mathlib.Data.List.TakeWhile
import Mathlib.Data.Set.Function

namespace ValueFlow
namespace FlowGraph

/-! ## Edges that are there already -/

section Checked

variable {graph : FlowGraph} {source target : VertexId} {node child : Node}

/-- An edge that is there can be added again. -/
theorem WellFormed.link_of_mem (h : graph.WellFormed) (hchild : graph.node? target = some child)
    (hmem : target ∈ graph.targets source) : graph.link source child target = graph := by
  have hsame :
      graph.modifyEdges source (Sorted.put child target) = graph.modifyEdges source id := by
    refine modifyEdges_eq_of_edges fun vertex hvertex => ?_
    refine Sorted.put_of_find? (h.increasing_edges hvertex) ?_
    rw [h.find?_edges hvertex hchild, if_pos hmem]
  rw [FlowGraph.link, hsame]
  simp only [FlowGraph.modifyEdges, id_eq]
  rw [show (fun vertex : Vertex => vertex) = id from rfl, List.modify_id]

/-- Between two vertices the checked operation adds the edge. -/
theorem WellFormed.addEdge_link (h : graph.WellFormed) (hnode : graph.node? source = some node)
    (hchild : graph.node? target = some child) :
    ∃ added, graph.addEdge source target = .ok (graph.link source child target, added) := by
  rw [h.addEdge_eq hnode hchild]
  split
  · next hmem => exact ⟨false, by rw [h.link_of_mem hchild hmem]⟩
  · exact ⟨true, rfl⟩

/-- A graph that is not frozen has a vertex for every node. -/
theorem vertexFor_of_not_frozen (hfrozen : graph.frozen = false) (node : Node) :
    graph.vertexFor node = .ok (graph.intern node) := by
  rw [vertexFor]
  cases hfind : graph.find? node with
  | some id => rw [intern, hfind]
  | none => simp [hfrozen]

theorem frozen_intern (graph : FlowGraph) (node : Node) :
    (graph.intern node).1.frozen = graph.frozen := by
  rw [intern]
  cases graph.find? node <;> rfl

theorem WellFormed.intern_of_node? (h : graph.WellFormed) {id : VertexId}
    (hid : graph.node? id = some node) : graph.intern node = (graph, id) := by
  rw [FlowGraph.intern, h.find?_eq_some_iff.mpr hid]

end Checked

/-! ## Numbers of vertices -/

/-- Two graphs differ in the numbers of their vertices only: the vertices correspond, with
    their nodes and with their edges in order. -/
structure Renumbers (renumber : VertexId → VertexId) (graph other : FlowGraph) : Prop where
  bijective : Set.BijOn renumber { id | id ∈ graph.ids } { id | id ∈ other.ids }
  node? : ∀ id ∈ graph.ids, other.node? (renumber id) = graph.node? id
  targets : ∀ id ∈ graph.ids, other.targets (renumber id) = (graph.targets id).map renumber

/-- Well-formed graphs with the same nodes and children are the same up to numbers. -/
theorem WellFormed.exists_renumbers {graph other : FlowGraph} (h : graph.WellFormed)
    (hother : other.WellFormed) (hnodes : ∀ node, node ∈ graph.nodes ↔ node ∈ other.nodes)
    (hchildren : ∀ node, graph.children node = other.children node) :
    ∃ renumber, Renumbers renumber graph other := by
  -- A vertex goes to the vertex of its node.
  have hexists : ∀ id, ∃ number, ∀ node, graph.node? id = some node →
      other.node? number = some node := by
    intro id
    cases hid : graph.node? id with
    | none => exact ⟨id, by simp⟩
    | some node =>
      obtain ⟨number, hnumber⟩ :=
        mem_nodes_iff.mp ((hnodes node).mp (mem_nodes_iff.mpr ⟨id, hid⟩))
      exact ⟨number, fun other hother => Option.some.inj hother ▸ hnumber⟩
  choose renumber hrenumber using hexists
  refine ⟨renumber, ⟨?_, ?_, ?_⟩, ?_, ?_⟩
  · intro id hid
    obtain ⟨node, hnode⟩ := mem_ids_iff.mp hid
    exact mem_ids_iff.mpr ⟨node, hrenumber id node hnode⟩
  · intro a ha b hb heq
    obtain ⟨x, hx⟩ := mem_ids_iff.mp ha
    obtain ⟨y, hy⟩ := mem_ids_iff.mp hb
    have hsame := hrenumber a x hx
    rw [heq, hrenumber b y hy] at hsame
    cases hsame
    exact h.unique _ _ _ hx hy
  · intro number hnumber
    obtain ⟨node, hnode⟩ := mem_ids_iff.mp hnumber
    obtain ⟨id, hid⟩ := mem_nodes_iff.mp ((hnodes node).mpr (mem_nodes_iff.mpr ⟨number, hnode⟩))
    exact ⟨id, mem_ids_iff.mpr ⟨node, hid⟩, hother.unique _ _ _ (hrenumber id node hid) hnode⟩
  · intro id hid
    obtain ⟨node, hnode⟩ := mem_ids_iff.mp hid
    rw [hnode, hrenumber id node hnode]
  · intro id hid
    obtain ⟨node, hnode⟩ := mem_ids_iff.mp hid
    have hleft := h.targets_eq hnode
    have hright := hother.targets_eq (hrenumber id node hnode)
    rw [← hchildren, ← hleft] at hright
    -- Both lists have the vertices of the same nodes, one by one.
    refine List.ext_getElem? fun place => ?_
    have hplace := congrArg (·[place]?) hright
    simp only [List.getElem?_map] at hplace
    rw [List.getElem?_map]
    cases htarget : (graph.targets id)[place]? with
    | none => simpa [htarget] using hplace
    | some target =>
      obtain ⟨child, -, hchild⟩ := (h.mem_targets_iff hnode).mp (List.mem_of_getElem? htarget)
      rw [htarget, Option.map_some, hchild, Option.map_eq_some_iff] at hplace
      obtain ⟨number, hnumber, hsame⟩ := hplace
      rw [hnumber, Option.map_some, hother.unique _ _ _ hsame (hrenumber target child hchild)]

end FlowGraph

namespace Explorer

/-! ## The loop -/

/-- Adds the edges from a vertex to nodes, in order, by the checked operations: the graph,
    and the vertices of the nodes. -/
def linkEach (graph : FlowGraph) (source : VertexId) :
    List Node → Except GraphError (FlowGraph × List VertexId)
  | [] => .ok (graph, [])
  | node :: rest => do
    let (graph, target) ← graph.vertexFor node
    let (graph, _) ← graph.addEdge source target
    let (graph, targets) ← linkEach graph source rest
    .ok (graph, target :: targets)

/-- The loop of an exploration, from a stack of vertices to its end: a vertex whose node is
    explored is passed over, any other one gets its edges, and their targets are put on the
    stack, the last one on top. -/
inductive Explores (spec : FlowSpec) (cx : FlowContext) :
    Explorer → List VertexId → Explorer → Prop where
  | done {explorer : Explorer} : Explores spec cx explorer [] explorer
  | again {explorer result : Explorer} {id : VertexId} {node : Node} {stack : List VertexId} :
      explorer.graph.node id = .ok node → node ∈ explorer.explored →
      Explores spec cx explorer stack result → Explores spec cx explorer (id :: stack) result
  | visit {explorer result : Explorer} {id : VertexId} {node : Node} {graph : FlowGraph}
      {stack targets : List VertexId} :
      explorer.graph.node id = .ok node → node ∉ explorer.explored →
      linkEach explorer.graph id (spec.openSuccessors cx node) = .ok (graph, targets) →
      Explores spec cx ⟨graph, node :: explorer.explored⟩ (targets.reverse ++ stack) result →
      Explores spec cx explorer (id :: stack) result

/-- Explorations from nodes, one after the other, each of which comes to its end. -/
inductive ExploresAll (spec : FlowSpec) (cx : FlowContext) :
    Explorer → List Node → Explorer → Prop where
  | done {explorer : Explorer} : ExploresAll spec cx explorer [] explorer
  | next {explorer between result : Explorer} {node : Node} {rest : List Node}
      {graph : FlowGraph} {root : VertexId} :
      explorer.graph.vertexFor node = .ok (graph, root) →
      Explores spec cx { explorer with graph := graph } [root] between →
      ExploresAll spec cx between rest result → ExploresAll spec cx explorer (node :: rest) result

section Loop

variable {spec : FlowSpec} {cx : FlowContext} {extra : Node → Node → Prop}

/-- The loop has one end. -/
theorem Explores.unique {explorer result other : Explorer} {stack : List VertexId}
    (h : Explores spec cx explorer stack result) (hother : Explores spec cx explorer stack other) :
    result = other := by
  induction h with
  | done =>
    cases hother
    rfl
  | again hnode hexplored _ ih =>
    cases hother with
    | again _ _ hrest => exact ih hrest
    | visit hsame hnew _ _ =>
      cases hnode.symm.trans hsame
      exact absurd hexplored hnew
  | visit hnode hnew hlink _ ih =>
    cases hother with
    | again hsame hexplored _ =>
      cases hnode.symm.trans hsame
      exact absurd hexplored hnew
    | visit hsame _ hlinkSame hrest =>
      cases hnode.symm.trans hsame
      cases hlink.symm.trans hlinkSame
      exact ih hrest

theorem ExploresAll.unique {explorer result other : Explorer} {sources : List Node}
    (h : ExploresAll spec cx explorer sources result)
    (hother : ExploresAll spec cx explorer sources other) : result = other := by
  induction h with
  | done =>
    cases hother
    rfl
  | next hroot hloop _ ih =>
    cases hother with
    | next hsame hloopSame hrest =>
      cases hroot.symm.trans hsame
      cases hloop.unique hloopSame
      exact ih hrest

theorem frozen_linkAll (graph : FlowGraph) (source : VertexId) (next : List Node) :
    (linkAll graph source next).frozen = graph.frozen := by
  rw [linkAll]
  induction next generalizing graph with
  | nil => rfl
  | cons node next ih =>
    rw [List.foldl_cons, ih]
    exact graph.frozen_intern node

theorem frozen_visit (explorer : Explorer) (node : Node) (next : List Node) :
    (explorer.visit node next).graph.frozen = explorer.graph.frozen :=
  (frozen_linkAll _ _ next).trans (explorer.graph.frozen_intern node)

theorem frozen_run (bound : Nat) (explorer : Explorer) (pending : List Node) :
    (run spec cx bound explorer pending).graph.frozen = explorer.graph.frozen := by
  induction bound generalizing explorer pending with
  | zero => rfl
  | succ bound ih =>
    rw [run]
    split
    · rfl
    · rw [ih, frozen_visit]

/-- The checked operations give a vertex its edges. -/
theorem linkEach_eq {graph : FlowGraph} (h : graph.WellFormed) (hfrozen : graph.frozen = false)
    {source : VertexId} {node : Node} (hnode : graph.node? source = some node)
    (next : List Node) :
    ∃ targets, linkEach graph source next = .ok (linkAll graph source next, targets) ∧
      targets.map (linkAll graph source next).node? = next.map some := by
  induction next generalizing graph with
  | nil => exact ⟨[], rfl, rfl⟩
  | cons first next ih =>
    have hwf := h.intern first
    have hsource := (h.extends_intern first).node? source node hnode
    have htarget := h.node?_intern_self first
    obtain ⟨added, hadd⟩ := hwf.addEdge_link hsource htarget
    have hlinked := hwf.link hsource htarget
    have hsourceLinked := (FlowGraph.node?_link _ source first (graph.intern first).2 source).trans
      hsource
    obtain ⟨targets, hrest, htargets⟩ := ih hlinked ((graph.frozen_intern first).trans hfrozen)
      hsourceLinked
    refine ⟨(graph.intern first).2 :: targets, ?_, ?_⟩
    · rw [linkEach, FlowGraph.vertexFor_of_not_frozen hfrozen]
      simp only [bind, Except.bind, hadd, hrest]
      rfl
    · -- The first target stays a vertex of its node.
      have hextends := (linkAll_spec hlinked hsourceLinked next).2.1
      have hfirst := hextends.node? _ _ ((FlowGraph.node?_link _ _ _ _ _).trans htarget)
      exact congrArg₂ List.cons hfirst htargets

/-- The vertices of a stack are those of pending nodes, which explored nodes in front do not
    change. -/
theorem Explores.of_dropWhile {explorer result : Explorer} {pending : List Node}
    {stack : List VertexId} (hstack : stack.map explorer.graph.node? = pending.map some)
    (hrest : ∀ rest, rest.map explorer.graph.node? =
        (pending.dropWhile fun node => decide (node ∈ explorer.explored)).map some →
      Explores spec cx explorer rest result) :
    Explores spec cx explorer stack result := by
  induction pending generalizing stack with
  | nil => exact hrest stack hstack
  | cons node pending ih =>
    by_cases hexplored : node ∈ explorer.explored
    · obtain ⟨id, rest, rfl, hid, hstack⟩ := List.map_eq_cons_iff.mp hstack
      refine .again (FlowGraph.node_eq_ok_iff.mpr hid) hexplored (ih hstack ?_)
      intro rest hlater
      exact hrest rest (by simpa [hexplored] using hlater)
    · exact hrest stack (by simpa [hexplored] using hstack)

/-- A stack with explored nodes only is passed over. -/
theorem Explores.of_explored {explorer : Explorer} {pending : List Node} {stack : List VertexId}
    (hstack : stack.map explorer.graph.node? = pending.map some)
    (hall : ∀ node ∈ pending, node ∈ explorer.explored) :
    Explores spec cx explorer stack explorer := by
  refine .of_dropWhile hstack fun rest hrest => ?_
  rw [List.dropWhile_eq_nil_iff.mpr (by simpa using hall), List.map_nil,
    List.map_eq_nil_iff] at hrest
  subst hrest
  exact .done

/-- A vertex gets its edges, and their targets go on the stack, as its node is explored and
    the nodes it flows to become pending. -/
theorem linkEach_visit {explorer : Explorer} (h : explorer.graph.WellFormed)
    (hfrozen : explorer.graph.frozen = false) {id : VertexId} {node : Node}
    (hid : explorer.graph.node? id = some node) {rest : List Node} {stack : List VertexId}
    (hstack : stack.map explorer.graph.node? = rest.map some) (next : List Node) :
    ∃ targets, linkEach explorer.graph id next =
        .ok ((explorer.visit node next).graph, targets) ∧
      (targets.reverse ++ stack).map (explorer.visit node next).graph.node? =
        (next.reverse ++ rest).map some := by
  have hvisit : (explorer.visit node next).graph = linkAll explorer.graph id next := by
    rw [Explorer.visit, h.intern_of_node? hid]
  obtain ⟨targets, hlink, htargets⟩ := linkEach_eq h hfrozen hid next
  rw [hvisit]
  refine ⟨targets, hlink, ?_⟩
  have hextends := (linkAll_spec h hid next).2.1
  have hold : stack.map (linkAll explorer.graph id next).node? = rest.map some := by
    rw [← hstack]
    refine List.map_congr_left fun other hother => ?_
    have hmem : explorer.graph.node? other ∈ rest.map some :=
      hstack ▸ List.mem_map_of_mem hother
    obtain ⟨x, -, hx⟩ := List.mem_map.mp hmem
    rw [← hx, hextends.node? other x hx.symm]
  rw [List.map_append, List.map_append, List.map_reverse, List.map_reverse, htargets, hold]

/-- The loop comes to the end that a run with enough bound comes to. -/
theorem Exact.explores (hu : cx.unit.Accepted) (bound : Nat) {explorer : Explorer}
    {pending : List Node} {stack : List VertexId} (h : Exact spec cx extra explorer pending)
    (hfrozen : explorer.graph.frozen = false)
    (hstack : stack.map explorer.graph.node? = pending.map some)
    (hbound : 2 * cx.unit.size ≤ bound + explorer.explored.length) :
    Explores spec cx explorer stack (Explorer.run spec cx bound explorer pending) := by
  induction bound generalizing explorer pending stack with
  | zero =>
    -- The bound is used up only when all nodes of the unit are explored.
    refine .of_explored hstack fun node hnode => ?_
    exact Search.subset_of_length_le h.nodup (h.frontier hu).found_mem
      (by rw [Node.length_space]; omega) node (h.pending_mem node hnode)
  | succ bound ih =>
    rw [Explorer.run]
    rcases Search.dropWhile_found explorer.explored pending with
      ⟨hnil, hall⟩ | ⟨node, rest, hcons, hnew, hmem, hrest, hall⟩
    · rw [hnil]
      exact .of_explored hstack hall
    · rw [hcons]
      refine .of_dropWhile hstack fun left hleft => ?_
      rw [hcons, List.map_cons] at hleft
      obtain ⟨id, later, rfl, hid, hlater⟩ := List.map_eq_cons_iff.mp hleft
      obtain ⟨targets, hlink, hpending⟩ :=
        linkEach_visit h.wellFormed hfrozen hid hlater (spec.openSuccessors cx node)
      refine .visit (FlowGraph.node_eq_ok_iff.mpr hid) hnew hlink ?_
      refine ih (h.visit hu hnew hmem hrest hall) ((frozen_visit _ _ _).trans hfrozen) hpending ?_
      show _ ≤ bound + (node :: explorer.explored).length
      rw [List.length_cons]
      omega

/-- An exploration ends, and the graph is not frozen then either. -/
theorem Exact.explores_explore (hu : cx.unit.Accepted) {explorer : Explorer}
    (h : Exact spec cx extra explorer []) (hfrozen : explorer.graph.frozen = false) {node : Node}
    (hnode : node ∈ Node.space cx.unit) :
    ∃ graph root, explorer.graph.vertexFor node = .ok (graph, root) ∧
      Explores spec cx { explorer with graph := graph } [root]
        (explorer.explore spec cx node).1 ∧
      (explorer.explore spec cx node).1.graph.frozen = false := by
  refine ⟨_, _, FlowGraph.vertexFor_of_not_frozen hfrozen node, ?_, ?_⟩
  · refine (h.start hnode).explores hu _ ((explorer.graph.frozen_intern node).trans hfrozen) ?_
      (by omega)
    exact congrArg (· :: []) (h.wellFormed.node?_intern_self node)
  · exact (frozen_run _ _ _).trans ((explorer.graph.frozen_intern node).trans hfrozen)

/-! ## Several nodes in turn -/

/-- Explorations from several nodes keep the state exact, and new are the nodes that one of
    them flows to. -/
theorem Exact.exploreAll (hu : cx.unit.Accepted) {explorer : Explorer}
    (h : Exact spec cx extra explorer []) {sources : List Node}
    (hsources : ∀ node ∈ sources, node ∈ Node.space cx.unit) :
    Exact spec cx extra (explorer.exploreAll spec cx sources) [] ∧
      ∀ x, x ∈ (explorer.exploreAll spec cx sources).graph.nodes ↔ x ∈ explorer.graph.nodes ∨
        ∃ source ∈ sources, Search.Reach (spec.openSuccessors cx) source x := by
  induction sources generalizing explorer with
  | nil => exact ⟨h, by simp [Explorer.exploreAll]⟩
  | cons source sources ih =>
    obtain ⟨hsource, hsources⟩ := List.forall_mem_cons.mp hsources
    obtain ⟨hfirst, -, -, hnodes⟩ := h.explore hu hsource
    obtain ⟨hall, hreached⟩ := ih hfirst hsources
    refine ⟨hall, fun x => (hreached x).trans ?_⟩
    rw [hnodes, List.exists_mem_cons_iff, or_assoc]

/-- Each of the explorations comes to its end. -/
theorem Exact.exploresAll (hu : cx.unit.Accepted) {explorer : Explorer}
    (h : Exact spec cx extra explorer []) (hfrozen : explorer.graph.frozen = false)
    {sources : List Node} (hsources : ∀ node ∈ sources, node ∈ Node.space cx.unit) :
    ExploresAll spec cx explorer sources (explorer.exploreAll spec cx sources) := by
  induction sources generalizing explorer with
  | nil => exact .done
  | cons source sources ih =>
    obtain ⟨hsource, hsources⟩ := List.forall_mem_cons.mp hsources
    obtain ⟨graph, root, hroot, hloop, hfrozenAfter⟩ := h.explores_explore hu hfrozen hsource
    exact .next hroot hloop (ih (h.explore hu hsource).1 hfrozenAfter hsources)

/-- Between explorations the children of a node of the graph are its open successors. -/
theorem Exact.mem_children_iff {explorer : Explorer}
    (h : Exact spec cx (fun _ _ => False) explorer []) {node next : Node}
    (hnode : node ∈ explorer.graph.nodes) :
    next ∈ explorer.graph.children node ↔ next ∈ spec.openSuccessors cx node :=
  ⟨fun hnext => (h.sound node next hnext).resolve_right id,
    h.complete node (h.mem_nodes_iff.mp hnode) next⟩

/-- Two explorers that explored the same nodes have the same graph up to numbers. -/
theorem Exact.exists_renumbers {explorer other : Explorer}
    (h : Exact spec cx (fun _ _ => False) explorer [])
    (hother : Exact spec cx (fun _ _ => False) other [])
    (hnodes : ∀ node, node ∈ explorer.graph.nodes ↔ node ∈ other.graph.nodes) :
    ∃ renumber, FlowGraph.Renumbers renumber explorer.graph other.graph := by
  refine h.wellFormed.exists_renumbers hother.wellFormed hnodes fun node => ?_
  by_cases hnode : node ∈ explorer.graph.nodes
  · refine (h.wellFormed.children_increasing node).eq_of_mem_iff
      (hother.wellFormed.children_increasing node) fun next => ?_
    rw [h.mem_children_iff hnode, hother.mem_children_iff ((hnodes node).mp hnode)]
  · rw [h.wellFormed.children_of_not_mem hnode,
      hother.wellFormed.children_of_not_mem (mt (hnodes node).mpr hnode)]

end Loop

/-- Explorations from any attached nodes in turn all end, without an error. The graph then has
    the nodes and all that they flow to, each with its open successors as children, and the
    order and the repetition of the nodes make no difference but for the numbers. -/
theorem exploreAll_closure {spec : FlowSpec} {cx : FlowContext} (hu : cx.unit.Accepted)
    {sources : List Node} (hsources : ∀ node ∈ sources, node ∈ Node.attached cx.unit) :
    let graph := (Explorer.new.exploreAll spec cx sources).graph
    (∀ result, ExploresAll spec cx .new sources result ↔
      result = Explorer.new.exploreAll spec cx sources) ∧
    (∀ node, node ∈ graph.nodes ↔
      ∃ source ∈ sources, Search.Reach (spec.openSuccessors cx) source node) ∧
    (∀ node ∈ graph.nodes, ∀ next, next ∈ graph.children node ↔
      next ∈ spec.successors cx node ∧ spec.isBarrier cx next = false) ∧
    ∀ others, (∀ node, node ∈ others ↔ node ∈ sources) →
      ∃ renumber, FlowGraph.Renumbers renumber graph
        (Explorer.new.exploreAll spec cx others).graph := by
  intro graph
  have hspace : ∀ order : List Node, (∀ node, node ∈ order ↔ node ∈ sources) →
      ∀ node ∈ order, node ∈ Node.space cx.unit := fun order horder node hnode =>
    Node.space_of_attached hu (hsources node ((horder node).mp hnode))
  have hnew : Exact spec cx (fun _ _ => False) .new [] := .new
  have hends := hnew.exploresAll hu rfl (hspace sources fun _ => Iff.rfl)
  obtain ⟨hexact, hnodes⟩ := hnew.exploreAll hu (hspace sources fun _ => Iff.rfl)
  have hempty : ∀ node, node ∉ Explorer.new.graph.nodes := fun _ => List.not_mem_nil
  refine ⟨fun result => ⟨fun hresult => hresult.unique hends, fun heq => heq ▸ hends⟩,
    fun node => (hnodes node).trans (or_iff_right (hempty node)), fun node hnode next => ?_,
    fun others hothers => ?_⟩
  · rw [hexact.mem_children_iff hnode, FlowSpec.mem_openSuccessors_iff]
  · obtain ⟨hexact', hnodes'⟩ := hnew.exploreAll hu (hspace others hothers)
    refine hexact.exists_renumbers hexact' fun node => ?_
    rw [hnodes, hnodes']
    simp only [hothers]

/-- Both strings of the unit with the loop flow into the read behind it. The second one is a
    barrier and a source all the same. Starting from it first changes the graph only in its
    numbers. -/
theorem exploreAll_closure_loopUnit :
    let cx : FlowContext := ⟨loopUnit, ⟨⟨[]⟩, ⟨[]⟩, ⟨[]⟩⟩⟩
    let spec : FlowSpec :=
      { FlowSpec.nothing with isBarrier := fun _ node => node == .expression ⟨21⟩ }
    let graph := (Explorer.new.exploreAll spec cx [.expression ⟨7⟩, .expression ⟨21⟩]).graph
    let other := (Explorer.new.exploreAll spec cx
      [.expression ⟨21⟩, .expression ⟨7⟩, .expression ⟨21⟩]).graph
    .expression ⟨24⟩ ∈ graph.nodes ∧ graph ≠ other ∧
      ∃ renumber, FlowGraph.Renumbers renumber graph other := by
  intro cx spec graph other
  have hsources : ∀ node ∈ [Node.expression ⟨7⟩, .expression ⟨21⟩],
      node ∈ Node.attached cx.unit := by decide +kernel
  obtain ⟨-, -, -, horder⟩ := @exploreAll_closure spec cx loopUnit_accepted _ hsources
  refine ⟨by decide +kernel, by decide +kernel, horder _ fun node => ?_⟩
  simp only [List.mem_cons, List.not_mem_nil]
  tauto

end Explorer
end ValueFlow
