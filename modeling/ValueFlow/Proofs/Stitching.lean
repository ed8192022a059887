/-
  ValueFlow.Proofs.Stitching

  What a scan joins.

  Whatever the order in which nodes are scanned, the graph has an edge for every open
  successor and for every pair of nodes in opposite roles of a call, and no other edge.
  A role is registered before its edges are looked up, so that of two nodes in opposite
  roles the one met later finds the other.
-/

import ValueFlow.Flow.Scan
import ValueFlow.Proofs.Explore

namespace ValueFlow

/-! ## Edges of calls -/

/-- An argument flows into the parameter at its place, and a returned value into the
    calls of its method. -/
def CallEdge (u : CompilationUnit) (source target : Node) : Prop :=
  (∃ slot, source.argumentSlot? u = some slot ∧ target.parameterSlot? u = some slot) ∨
    ∃ method, source.returnedFrom? u = some method ∧ target.calledDeclaration? u = some method

namespace CallRole

/-- All roles of a node. -/
def all (u : CompilationUnit) (node : Node) : List CallRole :=
  ofNode u node ++ (node.parameterSlot? u).toList.map .parameter

variable {u : CompilationUnit} {node : Node}

@[simp] theorem call_mem_all {declaration : Signature} :
    .call declaration ∈ all u node ↔ node.calledDeclaration? u = some declaration := by
  simp [all, ofNode, eq_comm]

@[simp] theorem argument_mem_all {slot : Signature × Nat} :
    .argument slot ∈ all u node ↔ node.argumentSlot? u = some slot := by
  simp [all, ofNode, eq_comm]

@[simp] theorem returned_mem_all {method : Signature} :
    .returned method ∈ all u node ↔ node.returnedFrom? u = some method := by
  simp [all, ofNode, eq_comm]

@[simp] theorem parameter_mem_all {slot : Signature × Nat} :
    .parameter slot ∈ all u node ↔ node.parameterSlot? u = some slot := by
  simp [all, ofNode, eq_comm]

theorem passesTo?_eq_some_iff {a b : CallRole} :
    a.passesTo? = some b ↔ b.takesFrom? = some a := by
  cases a <;> cases b <;> simp [passesTo?, takesFrom?, eq_comm]

/-- An edge of a call is one between opposite roles. -/
theorem callEdge_iff {source target : Node} :
    CallEdge u source target ↔
      ∃ a ∈ all u source, ∃ b ∈ all u target, a.passesTo? = some b := by
  refine ⟨?_, ?_⟩
  · rintro (⟨slot, hsource, htarget⟩ | ⟨method, hsource, htarget⟩)
    · exact ⟨.argument slot, by simpa, .parameter slot, by simpa, rfl⟩
    · exact ⟨.returned method, by simpa, .call method, by simpa, rfl⟩
  · rintro ⟨a, ha, b, hb, hpass⟩
    cases a with
    | argument slot =>
      cases hpass
      exact Or.inl ⟨slot, by simpa using ha, by simpa using hb⟩
    | returned method =>
      cases hpass
      exact Or.inr ⟨method, by simpa using ha, by simpa using hb⟩
    | call declaration => cases hpass
    | parameter slot => cases hpass

end CallRole

/-- Further edges keep an exploration exact if they are extra ones. -/
theorem Explorer.Exact.grow {spec : FlowSpec} {cx : FlowContext} {extra : Node → Node → Prop}
    {explorer later : Explorer} (h : Exact spec cx extra explorer [])
    (hwf : later.graph.WellFormed) (hnodes : later.graph.nodes = explorer.graph.nodes)
    (hexplored : later.explored = explorer.explored)
    (hold : ∀ x y, y ∈ explorer.graph.children x → y ∈ later.graph.children x)
    (hnew : ∀ x y, y ∈ later.graph.children x → y ∈ explorer.graph.children x ∨ extra x y) :
    Exact spec cx extra later [] := by
  refine ⟨hwf, ?_, ?_, ?_, ?_, ?_, by simp, ?_⟩
  · rw [hexplored]
    exact h.nodup
  · rw [hnodes]
    exact h.space
  · rw [hexplored, hnodes]
    exact h.explored_mem
  · rw [hexplored]
    exact fun node hnode next hnext => hold node next (h.complete node hnode next hnext)
  · intro node next hnext
    rcases hnew node next hnext with hchild | hextra
    · exact h.sound node next hchild
    · exact Or.inr hextra
  · rw [hexplored, hnodes]
    exact h.covered

namespace Accumulator

/-! ## Joining vertices -/

/-- Adds edges between pairs of vertices, in order. -/
def joinAll (acc : Accumulator) (pairs : List (VertexId × VertexId)) : Accumulator :=
  pairs.foldl (fun acc pair => acc.join pair.1 pair.2) acc

/-- A later state: the same vertices and explored nodes, with more entries and edges. -/
structure Grows (earlier later : Accumulator) : Prop where
  node? : ∀ id, later.graph.node? id = earlier.graph.node? id
  explored : later.explorer.explored = earlier.explorer.explored
  sources : later.sources = earlier.sources
  registry : ∀ entry ∈ earlier.registry, entry ∈ later.registry
  children : ∀ x y, y ∈ earlier.graph.children x → y ∈ later.graph.children x

theorem Grows.refl (acc : Accumulator) : Grows acc acc :=
  ⟨fun _ => rfl, rfl, rfl, fun _ h => h, fun _ _ h => h⟩

theorem Grows.trans {a b c : Accumulator} (hab : Grows a b) (hbc : Grows b c) : Grows a c where
  node? id := (hbc.node? id).trans (hab.node? id)
  explored := hbc.explored.trans hab.explored
  sources := hbc.sources.trans hab.sources
  registry entry h := hbc.registry entry (hab.registry entry h)
  children x y h := hbc.children x y (hab.children x y h)

theorem Grows.nodes {earlier later : Accumulator} (h : Grows earlier later) :
    later.graph.nodes = earlier.graph.nodes :=
  FlowGraph.nodes_eq_of_node? h.node?

theorem registry_join (acc : Accumulator) (source target : VertexId) :
    (acc.join source target).registry = acc.registry := by
  rw [join]
  split <;> rfl

theorem registry_joinAll (acc : Accumulator) (pairs : List (VertexId × VertexId)) :
    (acc.joinAll pairs).registry = acc.registry := by
  induction pairs generalizing acc with
  | nil => rfl
  | cons pair pairs ih => exact (ih _).trans (registry_join acc pair.1 pair.2)

/-- Joined pairs get their edges, and nothing else changes. -/
theorem joinAll_spec (acc : Accumulator) (hwf : acc.graph.WellFormed)
    (pairs : List (VertexId × VertexId))
    (hpairs : ∀ pair ∈ pairs, ∃ a b, acc.graph.node? pair.1 = some a ∧
      acc.graph.node? pair.2 = some b) :
    (acc.joinAll pairs).graph.WellFormed ∧ Grows acc (acc.joinAll pairs) ∧
    ∀ x y, y ∈ (acc.joinAll pairs).graph.children x ↔ y ∈ acc.graph.children x ∨
      ∃ pair ∈ pairs, acc.graph.node? pair.1 = some x ∧ acc.graph.node? pair.2 = some y := by
  induction pairs generalizing acc with
  | nil => exact ⟨hwf, .refl acc, by simp [joinAll]⟩
  | cons pair pairs ih =>
    obtain ⟨a, b, ha, hb⟩ := hpairs pair List.mem_cons_self
    have hjoin : (acc.join pair.1 pair.2).graph = acc.graph.link pair.1 b pair.2 := by
      rw [join, hb]
      rfl
    have hnode : ∀ id, (acc.join pair.1 pair.2).graph.node? id = acc.graph.node? id := by
      intro id
      rw [hjoin, FlowGraph.node?_link]
    have hchildren : ∀ x y, y ∈ (acc.join pair.1 pair.2).graph.children x ↔
        y ∈ acc.graph.children x ∨ (a = x ∧ b = y) := by
      intro x y
      rw [hjoin, hwf.mem_children_link ha, @eq_comm _ x, @eq_comm _ y]
    have hgrows : Grows acc (acc.join pair.1 pair.2) := by
      refine ⟨hnode, ?_, ?_, ?_, fun x y h => (hchildren x y).mpr (Or.inl h)⟩
      · rw [join, hb]
      · rw [join, hb]
      · rw [registry_join]
        exact fun _ h => h
    obtain ⟨hwf', hgrows', hchildren'⟩ := ih (acc.join pair.1 pair.2) (hjoin ▸ hwf.link ha hb) (by
      intro other hother
      simp only [hnode]
      exact hpairs other (List.mem_cons_of_mem _ hother))
    refine ⟨hwf', hgrows.trans hgrows', ?_⟩
    intro x y
    refine (hchildren' x y).trans ?_
    simp only [hchildren, hnode, List.mem_cons, exists_eq_or_imp, ha, hb, Option.some.injEq,
      or_assoc]

/-- The pairs that a vertex in a role belongs to. -/
def pairsOf (acc : Accumulator) (id : VertexId) (role : CallRole) : List (VertexId × VertexId) :=
  (acc.inRole role.takesFrom?).map (fun source => (source, id)) ++
    (acc.inRole role.passesTo?).map (fun target => (id, target))

theorem mem_inRole_iff {acc : Accumulator} {role : Option CallRole} {id : VertexId} :
    id ∈ acc.inRole role ↔ ∃ other, role = some other ∧ (other, id) ∈ acc.registry := by
  simp only [inRole, List.mem_map, List.mem_filter, beq_iff_eq]
  refine ⟨?_, ?_⟩
  · rintro ⟨⟨other, _⟩, ⟨hmem, hrole⟩, rfl⟩
    exact ⟨other, hrole.symm, hmem⟩
  · rintro ⟨other, hrole, hmem⟩
    exact ⟨(other, id), ⟨hmem, hrole.symm⟩, rfl⟩

theorem mem_pairsOf_iff {acc : Accumulator} {id source target : VertexId} {role : CallRole} :
    (source, target) ∈ acc.pairsOf id role ↔
      (target = id ∧ ∃ other, other.passesTo? = some role ∧ (other, source) ∈ acc.registry) ∨
      (source = id ∧ ∃ other, role.passesTo? = some other ∧ (other, target) ∈ acc.registry) := by
  simp only [pairsOf, List.mem_append, List.mem_map, mem_inRole_iff, Prod.mk.injEq]
  refine or_congr ⟨?_, ?_⟩ ⟨?_, ?_⟩
  · rintro ⟨_, ⟨other, htakes, hmem⟩, rfl, rfl⟩
    exact ⟨rfl, other, CallRole.passesTo?_eq_some_iff.mpr htakes, hmem⟩
  · rintro ⟨rfl, other, hpass, hmem⟩
    exact ⟨source, ⟨other, CallRole.passesTo?_eq_some_iff.mp hpass, hmem⟩, rfl, rfl⟩
  · rintro ⟨_, hmem, rfl, rfl⟩
    exact ⟨rfl, hmem⟩
  · rintro ⟨rfl, hmem⟩
    exact ⟨target, hmem, rfl, rfl⟩

/-- Registering joins the pairs of the vertex. -/
theorem register_eq (acc : Accumulator) (id : VertexId) (role : CallRole) :
    acc.register id role =
      let noted := { acc with registry := acc.registry.insert (role, id) }
      noted.joinAll (noted.pairsOf id role) := by
  have hinRole : ∀ (acc : Accumulator) pairs other,
      (acc.joinAll pairs).inRole other = acc.inRole other := by
    intro acc pairs other
    rw [inRole, registry_joinAll, inRole]
  have hsource : ∀ (acc : Accumulator) sources,
      List.foldl (fun acc source => acc.join source id) acc sources =
        acc.joinAll (sources.map fun source => (source, id)) := by
    intro acc sources
    rw [joinAll, List.foldl_map]
  have htarget : ∀ (acc : Accumulator) targets,
      List.foldl (fun acc target => acc.join id target) acc targets =
        acc.joinAll (targets.map fun target => (id, target)) := by
    intro acc targets
    rw [joinAll, List.foldl_map]
  simp only [register, hsource, htarget, hinRole, pairsOf]
  rw [joinAll, joinAll, joinAll, List.foldl_append]

/-- What registering a vertex does: one more entry, and an edge for each pair of opposite
    entries that the new one is part of. -/
theorem register_spec (acc : Accumulator) (hwf : acc.graph.WellFormed)
    (hresolved : ∀ role id, (role, id) ∈ acc.registry → ∃ node, acc.graph.node? id = some node)
    {id : VertexId} {node : Node} (hnode : acc.graph.node? id = some node) (role : CallRole) :
    (acc.register id role).graph.WellFormed ∧ Grows acc (acc.register id role) ∧
    (∀ r i, (r, i) ∈ (acc.register id role).registry ↔
      (r = role ∧ i = id) ∨ (r, i) ∈ acc.registry) ∧
    ∀ x y, y ∈ (acc.register id role).graph.children x ↔ y ∈ acc.graph.children x ∨
      ∃ source target, acc.graph.node? source = some x ∧ acc.graph.node? target = some y ∧
        ((target = id ∧ ∃ other, other.passesTo? = some role ∧
            (other, source) ∈ (acc.register id role).registry) ∨
          (source = id ∧ ∃ other, role.passesTo? = some other ∧
            (other, target) ∈ (acc.register id role).registry)) := by
  rw [register_eq]
  generalize hnoted : { acc with registry := acc.registry.insert (role, id) } = noted
  have hgraph : noted.graph = acc.graph := by
    rw [← hnoted]
    rfl
  have hmem : ∀ r i, (r, i) ∈ noted.registry ↔ (r = role ∧ i = id) ∨ (r, i) ∈ acc.registry := by
    intro r i
    rw [← hnoted, List.mem_insert_iff, Prod.mk.injEq]
  have hentry : ∀ r i, (r, i) ∈ noted.registry → ∃ a, acc.graph.node? i = some a := by
    intro r i hri
    rcases (hmem r i).mp hri with ⟨-, rfl⟩ | hold
    · exact ⟨node, hnode⟩
    · exact hresolved r i hold
  -- The pairs are formed after the entry is noted, and join vertices that are there.
  have hpairs : ∀ pair ∈ noted.pairsOf id role, ∃ a b, noted.graph.node? pair.1 = some a ∧
      noted.graph.node? pair.2 = some b := by
    rintro ⟨source, target⟩ hpair
    rw [hgraph]
    rcases mem_pairsOf_iff.mp hpair with ⟨rfl, other, -, hother⟩ | ⟨rfl, other, -, hother⟩
    · obtain ⟨a, ha⟩ := hentry other source hother
      exact ⟨a, node, ha, hnode⟩
    · obtain ⟨b, hb⟩ := hentry other target hother
      exact ⟨node, b, hnode, hb⟩
  obtain ⟨hwf', hgrows, hchildren⟩ := joinAll_spec noted (hgraph ▸ hwf) _ hpairs
  rw [hgraph] at hchildren
  refine ⟨hwf', ?_, ?_, ?_⟩
  · refine ⟨fun i => hgraph ▸ hgrows.node? i, ?_, ?_, ?_, ?_⟩
    · rw [hgrows.explored, ← hnoted]
    · rw [hgrows.sources, ← hnoted]
    · exact fun entry hold => hgrows.registry entry ((hmem _ _).mpr (Or.inr hold))
    · exact fun x y hy => (hchildren x y).mpr (Or.inl hy)
  · rw [registry_joinAll]
    exact hmem
  · intro x y
    rw [registry_joinAll, hchildren x y, Prod.exists]
    simp only [mem_pairsOf_iff, and_comm, and_assoc]

/-! ## Registered roles -/

section Scan

variable {spec : FlowSpec} {cx : FlowContext} {acc : Accumulator}

/-- The graph is exact up to edges of calls, entries are roles that their nodes have, and
    entries in opposite roles are joined. -/
structure Stitched (spec : FlowSpec) (cx : FlowContext) (acc : Accumulator) : Prop where
  exact : Explorer.Exact spec.widened cx (CallEdge cx.unit) acc.explorer []
  registered : ∀ role id, (role, id) ∈ acc.registry →
    ∃ node, acc.graph.node? id = some node ∧ role ∈ CallRole.all cx.unit node
  joined : ∀ r i s j, (r, i) ∈ acc.registry → (s, j) ∈ acc.registry → r.passesTo? = some s →
    ∀ a b, acc.graph.node? i = some a → acc.graph.node? j = some b → b ∈ acc.graph.children a

/-- Registering a role that the node has keeps the state; new edges touch the node. -/
theorem Stitched.register (h : Stitched spec cx acc) {id : VertexId} {node : Node}
    {role : CallRole} (hnode : acc.graph.node? id = some node)
    (hrole : role ∈ CallRole.all cx.unit node) :
    Stitched spec cx (acc.register id role) ∧ Grows acc (acc.register id role) ∧
    (role, id) ∈ (acc.register id role).registry ∧
    ∀ x y, y ∈ (acc.register id role).graph.children x →
      y ∈ acc.graph.children x ∨ x = node ∨ y = node := by
  obtain ⟨hwf, hgrows, hmem, hchildren⟩ := register_spec acc h.exact.wellFormed
    (fun role id hentry => (h.registered role id hentry).imp fun _ hid => hid.1) hnode role
  have hregistered : ∀ r i, (r, i) ∈ (acc.register id role).registry →
      ∃ a, acc.graph.node? i = some a ∧ r ∈ CallRole.all cx.unit a := by
    intro r i hentry
    rcases (hmem r i).mp hentry with ⟨rfl, rfl⟩ | hold
    · exact ⟨node, hnode, hrole⟩
    · exact h.registered r i hold
  -- A new edge is one between two entries, and the new entry is one of them.
  have hnew : ∀ x y, y ∈ (acc.register id role).graph.children x → y ∈ acc.graph.children x ∨
      CallEdge cx.unit x y ∧ (x = node ∨ y = node) := by
    intro x y hy
    rcases (hchildren x y).mp hy with hold | ⟨source, target, hsource, htarget, hpair⟩
    · exact Or.inl hold
    · right
      rcases hpair with ⟨rfl, other, hpass, hother⟩ | ⟨rfl, other, hpass, hother⟩
      · cases hnode.symm.trans htarget
        obtain ⟨a, ha, harole⟩ := hregistered other source hother
        cases ha.symm.trans hsource
        exact ⟨CallRole.callEdge_iff.mpr ⟨other, harole, role, hrole, hpass⟩, Or.inr rfl⟩
      · cases hnode.symm.trans hsource
        obtain ⟨b, hb, hbrole⟩ := hregistered other target hother
        cases hb.symm.trans htarget
        exact ⟨CallRole.callEdge_iff.mpr ⟨role, hrole, other, hbrole, hpass⟩, Or.inl rfl⟩
  refine ⟨⟨?_, ?_, ?_⟩, hgrows, (hmem role id).mpr (Or.inl ⟨rfl, rfl⟩), ?_⟩
  · refine h.exact.grow hwf hgrows.nodes hgrows.explored hgrows.children ?_
    exact fun x y hy => (hnew x y hy).imp_right And.left
  · intro r i hentry
    rw [hgrows.node?]
    exact hregistered r i hentry
  · intro r i s j hr hs hpass a b ha hb
    rw [hgrows.node?] at ha hb
    rw [hchildren]
    rcases (hmem r i).mp hr with ⟨rfl, rfl⟩ | hrold
    · exact Or.inr ⟨i, j, ha, hb, Or.inr ⟨rfl, s, hpass, hs⟩⟩
    · rcases (hmem s j).mp hs with ⟨rfl, rfl⟩ | hsold
      · exact Or.inr ⟨i, j, ha, hb, Or.inl ⟨rfl, r, hpass, hr⟩⟩
      · exact Or.inl (h.joined r i s j hrold hsold hpass a b ha hb)
  · exact fun x y hy => (hnew x y hy).imp_right And.right

/-- Registering a vertex in the roles that its node has when met. -/
theorem Stitched.registerAll (h : Stitched spec cx acc) {id : VertexId} {node : Node}
    (hnode : acc.graph.node? id = some node) :
    Stitched spec cx (acc.registerAll cx.unit id) ∧ Grows acc (acc.registerAll cx.unit id) ∧
    (∀ role ∈ CallRole.ofNode cx.unit node,
      (role, id) ∈ (acc.registerAll cx.unit id).registry) ∧
    ∀ x y, y ∈ (acc.registerAll cx.unit id).graph.children x →
      y ∈ acc.graph.children x ∨ x = node ∨ y = node := by
  have hall : ∀ role ∈ CallRole.ofNode cx.unit node, role ∈ CallRole.all cx.unit node :=
    fun role hrole => List.mem_append_left _ hrole
  simp only [Accumulator.registerAll, hnode]
  generalize CallRole.ofNode cx.unit node = roles at hall ⊢
  induction roles generalizing acc with
  | nil => exact ⟨h, .refl acc, by simp, fun x y hy => Or.inl hy⟩
  | cons role roles ih =>
    obtain ⟨hfirst, hgrows, hentry, htouch⟩ := h.register hnode (hall role List.mem_cons_self)
    obtain ⟨hlast, hgrows', hentries, htouch'⟩ := ih hfirst (by rw [hgrows.node?, hnode])
      (fun role hrole => hall role (List.mem_cons_of_mem _ hrole))
    refine ⟨hlast, hgrows.trans hgrows', ?_, ?_⟩
    · intro other hother
      rcases List.mem_cons.mp hother with rfl | hother
      · exact hgrows'.registry _ hentry
      · exact hentries other hother
    · intro x y hy
      rcases htouch' x y hy with hmiddle | hnew
      · exact htouch x y hmiddle
      · exact Or.inr hnew

/-! ## Behind a vertex -/

/-- A tour of the graph: visited vertices are registered, and lead to vertices that are
    visited or pending. -/
structure Tour (spec : FlowSpec) (cx : FlowContext) (acc : Accumulator)
    (visited pending : List VertexId) : Prop where
  stitched : Stitched spec cx acc
  nodup : visited.Nodup
  visited_mem : ∀ id ∈ visited, id ∈ acc.graph.ids
  pending_mem : ∀ id ∈ pending, id ∈ acc.graph.ids
  closed : ∀ id ∈ visited, ∀ target ∈ acc.graph.targets id, target ∈ visited ∨ target ∈ pending
  met : ∀ id ∈ visited, ∀ node, acc.graph.node? id = some node →
    ∀ role ∈ CallRole.ofNode cx.unit node, (role, id) ∈ acc.registry

/-- Visiting the first pending vertex that is new keeps a tour. -/
theorem Tour.visit {visited pending rest : List VertexId} {id : VertexId}
    (h : Tour spec cx acc visited pending) (hnew : id ∉ visited) (hmem : id ∈ pending)
    (hrest : ∀ other ∈ rest, other ∈ pending)
    (hall : ∀ other ∈ pending, other ∈ visited ∨ other = id ∨ other ∈ rest) :
    Tour spec cx (acc.registerAll cx.unit id) (id :: visited)
      (((acc.registerAll cx.unit id).graph.targets id).reverse ++ rest) ∧
    Grows acc (acc.registerAll cx.unit id) := by
  obtain ⟨node, hnode⟩ := FlowGraph.mem_ids_iff.mp (h.pending_mem id hmem)
  obtain ⟨hstitched, hgrows, hentries, htouch⟩ := h.stitched.registerAll hnode
  have hids : ∀ other, other ∈ acc.graph.ids → other ∈ (acc.registerAll cx.unit id).graph.ids := by
    intro other hother
    rw [FlowGraph.mem_ids_iff, hgrows.node?]
    exact FlowGraph.mem_ids_iff.mp hother
  refine ⟨⟨hstitched, List.nodup_cons.mpr ⟨hnew, h.nodup⟩, ?_, ?_, ?_, ?_⟩, hgrows⟩
  · intro other hother
    rcases List.mem_cons.mp hother with rfl | hother
    · exact hids _ (h.pending_mem _ hmem)
    · exact hids other (h.visited_mem other hother)
  · intro other hother
    rcases List.mem_append.mp hother with htarget | hother
    · exact hstitched.exact.wellFormed.target_mem_ids (List.mem_reverse.mp htarget)
    · exact hids other (h.pending_mem other (hrest other hother))
  · intro other hother target htarget
    rcases List.mem_cons.mp hother with rfl | hother
    · exact Or.inr (List.mem_append_left _ (List.mem_reverse.mpr htarget))
    · -- An edge from a vertex visited before is old, or leads to this vertex.
      obtain ⟨x, hx⟩ := FlowGraph.mem_ids_iff.mp (h.visited_mem other hother)
      obtain ⟨y, hy, hnew'⟩ := (hstitched.exact.wellFormed.mem_targets_iff
        ((hgrows.node? other).trans hx)).mp htarget
      have htargetNode : acc.graph.node? target = some y := (hgrows.node? target).symm.trans hnew'
      rcases htouch x y hy with hold | rfl | rfl
      · have htarget' := (h.stitched.exact.wellFormed.mem_targets_iff hx).mpr ⟨y, hold, htargetNode⟩
        rcases h.closed other hother target htarget' with hvisited | hpending
        · exact Or.inl (List.mem_cons_of_mem _ hvisited)
        · rcases hall target hpending with hvisited | rfl | hlater
          · exact Or.inl (List.mem_cons_of_mem _ hvisited)
          · exact Or.inl List.mem_cons_self
          · exact Or.inr (List.mem_append_right _ hlater)
      · exact absurd (h.stitched.exact.wellFormed.unique other id x hx hnode ▸ hother) hnew
      · have heq := h.stitched.exact.wellFormed.unique target id y htargetNode hnode
        exact Or.inl (heq ▸ List.mem_cons_self)
  · intro other hother x hx role hrole
    rw [hgrows.node?] at hx
    rcases List.mem_cons.mp hother with rfl | hother
    · cases hnode.symm.trans hx
      exact hentries role hrole
    · exact hgrows.registry _ (h.met other hother x hx role hrole)

/-- A tour with enough bound ends with nothing pending. -/
theorem Tour.connectUpTo (bound : Nat) {visited pending : List VertexId}
    (h : Tour spec cx acc visited pending)
    (hbound : acc.graph.size ≤ bound + visited.length) :
    Grows acc (acc.connectUpTo cx.unit bound visited pending) ∧
    ∃ seen, Tour spec cx (acc.connectUpTo cx.unit bound visited pending) seen [] ∧
      (∀ id ∈ visited, id ∈ seen) ∧ ∀ id ∈ pending, id ∈ seen := by
  induction bound generalizing acc visited pending with
  | zero =>
    -- The bound is used up only when all vertices are visited.
    have hfull : ∀ id ∈ acc.graph.ids, id ∈ visited :=
      Search.subset_of_length_le h.nodup h.visited_mem (by rw [FlowGraph.length_ids]; omega)
    refine ⟨.refl acc, visited, ?_, fun _ hid => hid, fun id hid => hfull id (h.pending_mem id hid)⟩
    exact { h with
      pending_mem := by simp
      closed := fun id hid target htarget =>
        Or.inl (hfull target (h.stitched.exact.wellFormed.target_mem_ids htarget)) }
  | succ bound ih =>
    rw [Accumulator.connectUpTo]
    rcases Search.dropWhile_found visited pending with
      ⟨hnil, hall⟩ | ⟨id, rest, hcons, hnew, hmem, hrest, hall⟩
    · rw [hnil]
      refine ⟨.refl acc, visited, ?_, fun _ hid => hid, hall⟩
      exact { h with
        pending_mem := by simp
        closed := fun id hid target htarget =>
          Or.inl ((h.closed id hid target htarget).elim (fun hvisited => hvisited) (hall target)) }
    · rw [hcons]
      obtain ⟨hvisit, hgrows⟩ := h.visit hnew hmem hrest hall
      have hsize : (acc.registerAll cx.unit id).graph.size = acc.graph.size := by
        have hnodes := congrArg List.length hgrows.nodes
        simpa [FlowGraph.nodes, FlowGraph.size] using hnodes
      obtain ⟨hgrows', seen, htour, hvisited, hpending⟩ :=
        ih hvisit (by rw [hsize, List.length_cons]; omega)
      refine ⟨hgrows.trans hgrows', seen, htour, ?_, ?_⟩
      · exact fun other hother => hvisited other (List.mem_cons_of_mem _ hother)
      · intro other hother
        rcases hall other hother with hold | rfl | hlater
        · exact hvisited other (List.mem_cons_of_mem _ hold)
        · exact hvisited other List.mem_cons_self
        · exact hpending other (List.mem_append_right _ hlater)

/-- After a vertex is connected, all that it leads to is registered. -/
theorem Stitched.connect (h : Stitched spec cx acc) {root : VertexId} {start : Node}
    (hroot : acc.graph.node? root = some start) :
    Stitched spec cx (acc.connect cx.unit root) ∧ Grows acc (acc.connect cx.unit root) ∧
    ∀ node, Search.Reach acc.graph.children start node →
      ∀ id, acc.graph.node? id = some node → ∀ role ∈ CallRole.ofNode cx.unit node,
        (role, id) ∈ (acc.connect cx.unit root).registry := by
  have hstart : Tour spec cx acc [] [root] :=
    ⟨h, List.nodup_nil, by simp, by simpa using FlowGraph.mem_ids_iff.mpr ⟨start, hroot⟩,
      by simp, by simp⟩
  obtain ⟨hgrows, seen, htour, -, hpending⟩ := hstart.connectUpTo acc.graph.size (by simp)
  refine ⟨htour.stitched, hgrows, ?_⟩
  intro node hreach id hid role hrole
  -- What the root leads to was led to before the tour, and tours lose no edges.
  have hlater : Search.Reach (acc.connect cx.unit root).graph.children start node :=
    Relation.ReflTransGen.mono (fun x y (hstep : y ∈ acc.graph.children x) =>
      hgrows.children x y hstep) start node hreach
  have hvertex : Search.Reach (acc.connect cx.unit root).graph.targets root id :=
    (htour.stitched.exact.wellFormed.reach_iff ((hgrows.node? root).trans hroot)).mpr
      ⟨node, hlater, (hgrows.node? id).trans hid⟩
  have hseen : id ∈ seen := by
    refine hvertex.mem_of_closed (P := (· ∈ seen)) ?_ (hpending root List.mem_cons_self)
    intro other hother target htarget
    rcases htour.closed other hother target htarget with hmem | hnone
    · exact hmem
    · cases hnone
  exact htour.met id hseen node ((hgrows.node? id).trans hid) role hrole

/-! ## A whole scan -/

/-- Whether a scan enters a node: it is an expression, or a parameter that a method
    declares. -/
def isEntered (u : CompilationUnit) : Node → Bool
  | .expression _ => true
  | .parameter id => ((Node.parameter id).parameterSlot? u).isSome

/-- The state of a scan between two nodes: all nodes of the graph are registered in all
    roles, they are what the scanned nodes flow to, and the sources among those are
    noted. -/
structure Scanned (spec : FlowSpec) (cx : FlowContext) (scanned : List Node)
    (acc : Accumulator) : Prop extends Stitched spec cx acc where
  met : ∀ id node, acc.graph.node? id = some node →
    ∀ role ∈ CallRole.all cx.unit node, (role, id) ∈ acc.registry
  nodes_iff : ∀ x, x ∈ acc.graph.nodes ↔ ∃ node ∈ scanned, isEntered cx.unit node = true ∧
    Search.Reach (spec.widened.openSuccessors cx) node x
  source_mem : ∀ id ∈ acc.sources, ∃ node ∈ scanned, isEntered cx.unit node = true ∧
    spec.isSource cx node = true ∧ acc.graph.node? id = some node
  source_noted : ∀ node ∈ scanned, isEntered cx.unit node = true → spec.isSource cx node = true →
    ∃ id ∈ acc.sources, acc.graph.node? id = some node

theorem Scanned.new : Scanned spec cx [] .new where
  exact := .new
  registered _ _ h := by cases h
  joined _ _ _ _ h := by cases h
  met _ _ h := by cases h
  nodes_iff x := by
    have hnodes : Accumulator.new.graph.nodes = [] := rfl
    simp [hnodes]
  source_mem _ h := by cases h
  source_noted _ h := by cases h

theorem mem_sources_recordSource {node : Node} {root id : VertexId} :
    id ∈ (acc.recordSource spec cx node root).sources ↔
      id ∈ acc.sources ∨ (spec.isSource cx node = true ∧ id = root) := by
  rw [recordSource]
  split
  · next hsource => simp [hsource, Sorted.mem_insert, or_comm]
  · next hsource => simp [hsource]

theorem Stitched.recordSource (h : Stitched spec cx acc) (node : Node) (root : VertexId) :
    Stitched spec cx (acc.recordSource spec cx node root) := by
  rw [Accumulator.recordSource]
  split
  · exact ⟨h.exact, h.registered, h.joined⟩
  · exact h

theorem graph_recordSource (node : Node) (root : VertexId) :
    (acc.recordSource spec cx node root).graph = acc.graph := by
  rw [recordSource]
  split <;> rfl

theorem registry_recordSource (node : Node) (root : VertexId) :
    (acc.recordSource spec cx node root).registry = acc.registry := by
  rw [recordSource]
  split <;> rfl

/-- The state after a node was explored. -/
def opened (spec : FlowSpec) (cx : FlowContext) (acc : Accumulator) (node : Node) : Accumulator :=
  { acc with explorer := (acc.explorer.explore spec.widened cx node).1 }

/-- Exploring a node keeps entries and what they are joined by. -/
theorem Stitched.opened (hu : cx.unit.Accepted) (h : Stitched spec cx acc) {node : Node}
    (hnode : node ∈ Node.space cx.unit) : Stitched spec cx (opened spec cx acc node) := by
  obtain ⟨hexact, hextends, -⟩ := h.exact.explore hu hnode
  have hresolved : ∀ role id, (role, id) ∈ acc.registry → ∀ a,
      (Accumulator.opened spec cx acc node).graph.node? id = some a →
      acc.graph.node? id = some a := by
    intro role id hentry a ha
    obtain ⟨b, hb, -⟩ := h.registered role id hentry
    cases (hextends.node? id b hb).symm.trans ha
    exact hb
  refine ⟨hexact, ?_, ?_⟩
  · intro role id hentry
    obtain ⟨a, ha, hrole⟩ := h.registered role id hentry
    exact ⟨a, hextends.node? id a ha, hrole⟩
  · intro r i s j hr hs hpass a b ha hb
    exact hextends.children a b (h.joined r i s j hr hs hpass a b (hresolved r i hr a ha)
      (hresolved s j hs b hb))

/-- In an exact exploration what a node flows to is behind it in the graph. -/
theorem reach_children (h : Stitched spec cx acc) {node x : Node} (hnode : node ∈ acc.graph.nodes)
    (hreach : Search.Reach (spec.widened.openSuccessors cx) node x) :
    Search.Reach acc.graph.children node x := by
  induction hreach with
  | refl => exact .refl
  | tail hbefore hstep ih =>
    refine .tail ih ?_
    have hmem := h.exact.wellFormed.mem_nodes_of_reach ih hnode
    exact h.exact.complete _ (h.exact.mem_nodes_iff.mp hmem) _ hstep

/-- Only the start of a flow can be a parameter. -/
theorem eq_of_reach_parameter (hu : cx.unit.Accepted) {node : Node} {id : ElementId}
    (hreach : Search.Reach (spec.openSuccessors cx) node (.parameter id)) :
    node = .parameter id := by
  rcases Relation.ReflTransGen.cases_tail hreach with heq | ⟨before, -, hstep⟩
  · exact heq.symm
  · obtain ⟨other, heq, -⟩ :=
      FlowSpec.successors_space hu (FlowSpec.mem_openSuccessors_iff.mp hstep).1
    cases heq

/-- After a node was entered all nodes are registered: those that were there before, those
    that it flows to by being connected, and the node itself if it is a parameter. -/
theorem Scanned.met_after (hu : cx.unit.Accepted) {scanned : List Node}
    (h : Scanned spec cx scanned acc) {node : Node} {root : VertexId} {final : Accumulator}
    (hwf : final.graph.WellFormed) (hroot : final.graph.node? root = some node)
    (hnodes : ∀ x ∈ final.graph.nodes, x ∈ acc.graph.nodes ∨
      Search.Reach (spec.widened.openSuccessors cx) node x)
    (hkept : ∀ id x, acc.graph.node? id = some x → final.graph.node? id = some x)
    (hregistry : ∀ entry ∈ acc.registry, entry ∈ final.registry)
    (hslot : ∀ slot, node.parameterSlot? cx.unit = some slot →
      (.parameter slot, root) ∈ final.registry)
    (hconnected : ∀ x, Search.Reach (spec.widened.openSuccessors cx) node x →
      ∀ id, final.graph.node? id = some x → ∀ role ∈ CallRole.ofNode cx.unit x,
        (role, id) ∈ final.registry) :
    ∀ id x, final.graph.node? id = some x → ∀ role ∈ CallRole.all cx.unit x,
      (role, id) ∈ final.registry := by
  intro id x hid role hrole
  rcases hnodes x (FlowGraph.mem_nodes_iff.mpr ⟨id, hid⟩) with hx | hreach
  · obtain ⟨other, hother⟩ := FlowGraph.mem_nodes_iff.mp hx
    obtain rfl := hwf.unique id other x hid (hkept other x hother)
    exact hregistry _ (h.met id x hother role hrole)
  · rcases List.mem_append.mp hrole with hrole | hparameter
    · exact hconnected x hreach id hid role hrole
    · -- No flow leads to a parameter, so that the only new one can be the node itself.
      cases x with
      | expression other => cases hparameter
      | parameter other =>
        obtain rfl := eq_of_reach_parameter hu hreach
        obtain ⟨slot, hslot', rfl⟩ := List.mem_map.mp hparameter
        obtain rfl := hwf.unique id root _ hid hroot
        exact hslot slot (Option.mem_toList.mp hslot')

/-- Entering a node: once it is explored and, if a parameter, registered, its source is
    noted and all that it leads to is connected. -/
theorem Scanned.enter (hu : cx.unit.Accepted) {scanned : List Node}
    (h : Scanned spec cx scanned acc) {node : Node} {root : VertexId} {ready : Accumulator}
    (hspace : node ∈ Node.space cx.unit) (hentered : isEntered cx.unit node = true)
    (hroot : root = (acc.explorer.explore spec.widened cx node).2)
    (hready : Stitched spec cx ready) (hgrows : Grows (opened spec cx acc node) ready)
    (hslot : ∀ slot, node.parameterSlot? cx.unit = some slot →
      (.parameter slot, root) ∈ ready.registry) :
    Scanned spec cx (scanned ++ [node])
      ((ready.recordSource spec cx node root).connect cx.unit root) := by
  obtain ⟨-, hextends, hrootNode, hnodes⟩ := h.exact.explore hu hspace
  rw [← hroot] at hrootNode
  have hstart : (ready.recordSource spec cx node root).graph.node? root = some node := by
    rw [graph_recordSource, hgrows.node?]
    exact hrootNode
  have hstitched := hready.recordSource node root
  obtain ⟨hlast, hgrows', hmet⟩ := hstitched.connect hstart
  generalize (ready.recordSource spec cx node root).connect cx.unit root = final
    at hlast hgrows' hmet ⊢
  -- The vertices are those of the exploration; nothing that follows adds one.
  have hnode? : ∀ id, final.graph.node? id = (opened spec cx acc node).graph.node? id := by
    intro id
    rw [hgrows'.node?, graph_recordSource, hgrows.node?]
  have hkept : ∀ id x, acc.graph.node? id = some x → final.graph.node? id = some x := by
    intro id x hid
    rw [hnode?]
    exact hextends.node? id x hid
  have hnoted : final.graph.node? root = some node := (hgrows'.node? root).trans hstart
  have hregistry : ∀ entry ∈ ready.registry, entry ∈ final.registry := by
    intro entry hentry
    refine hgrows'.registry entry ?_
    rwa [registry_recordSource]
  have hmem : ∀ x, x ∈ final.graph.nodes ↔ x ∈ acc.graph.nodes ∨
      Search.Reach (spec.widened.openSuccessors cx) node x := by
    intro x
    rw [FlowGraph.nodes_eq_of_node? hnode?]
    exact hnodes x
  refine ⟨hlast, ?_, ?_, ?_, ?_⟩
  · refine h.met_after hu hlast.exact.wellFormed hnoted (fun x => (hmem x).mp) hkept
      (fun entry hentry => hregistry entry (hgrows.registry entry hentry))
      (fun slot hs => hregistry _ (hslot slot hs)) ?_
    intro x hreach id hid
    have hbehind := reach_children hstitched (FlowGraph.mem_nodes_iff.mpr ⟨root, hstart⟩) hreach
    exact hmet x hbehind id (by rw [← hgrows'.node?, hid])
  · intro x
    rw [hmem, h.nodes_iff]
    simp [or_and_right, exists_or, hentered]
  · intro id hid
    rw [hgrows'.sources, mem_sources_recordSource, hgrows.sources] at hid
    rcases hid with hid | ⟨hsource, rfl⟩
    · obtain ⟨x, hx, hxentered, hxsource, hxid⟩ := h.source_mem id hid
      exact ⟨x, List.mem_append_left _ hx, hxentered, hxsource, hkept id x hxid⟩
    · exact ⟨node, by simp, hentered, hsource, hnoted⟩
  · intro x hx hxentered hxsource
    simp only [hgrows'.sources, mem_sources_recordSource, hgrows.sources]
    rcases List.mem_append.mp hx with hx | hx
    · obtain ⟨id, hid, hxid⟩ := h.source_noted x hx hxentered hxsource
      exact ⟨id, Or.inl hid, hkept id x hxid⟩
    · obtain rfl := List.mem_singleton.mp hx
      exact ⟨root, Or.inr ⟨hxsource, rfl⟩, hnoted⟩

/-- What scanning one node does. -/
theorem Scanned.scanNode (hu : cx.unit.Accepted) {scanned : List Node}
    (h : Scanned spec cx scanned acc) {node : Node} (hspace : node ∈ Node.space cx.unit) :
    Scanned spec cx (scanned ++ [node]) (acc.scanNode spec cx node) := by
  have hopened := h.toStitched.opened hu hspace
  cases node with
  | expression id =>
    refine h.enter hu hspace rfl rfl hopened (.refl _) ?_
    intro slot hslot
    cases hslot
  | parameter id =>
    rw [Accumulator.scanNode]
    split
    · next hnone =>
      -- The node is not entered: nothing changes.
      have hnot : isEntered cx.unit (.parameter id) = false := by
        rw [isEntered, hnone]
        rfl
      refine ⟨h.toStitched, h.met, ?_, ?_, ?_⟩
      · intro x
        rw [h.nodes_iff]
        simp [or_and_right, exists_or, hnot]
      · intro source hsource
        obtain ⟨x, hx, hrest⟩ := h.source_mem source hsource
        exact ⟨x, List.mem_append_left _ hx, hrest⟩
      · intro x hx hentered hsource
        rcases List.mem_append.mp hx with hx | hx
        · exact h.source_noted x hx hentered hsource
        · rw [List.mem_singleton.mp hx, hnot] at hentered
          cases hentered
    · next slot hslot =>
      obtain ⟨-, -, hrootNode, -⟩ := h.exact.explore hu hspace
      have hrole : CallRole.parameter slot ∈ CallRole.all cx.unit (.parameter id) :=
        CallRole.parameter_mem_all.mpr hslot
      obtain ⟨hready, hgrows, hentry, -⟩ := hopened.register hrootNode hrole
      refine h.enter hu hspace (by rw [isEntered, hslot]; rfl) rfl hready hgrows ?_
      intro other hother
      cases hslot.symm.trans hother
      exact hentry

/-- What scanning nodes in any order does. -/
theorem Scanned.foldl (hu : cx.unit.Accepted) {scanned nodes : List Node}
    (h : Scanned spec cx scanned acc) (hspace : ∀ node ∈ nodes, node ∈ Node.space cx.unit) :
    Scanned spec cx (scanned ++ nodes) (nodes.foldl (Accumulator.scanNode spec cx) acc) := by
  induction nodes generalizing scanned acc with
  | nil => simpa using h
  | cons node nodes ih =>
    have hfirst := h.scanNode hu (hspace node List.mem_cons_self)
    have hrest := ih hfirst fun other hother => hspace other (List.mem_cons_of_mem _ hother)
    simpa using hrest

/-- The edges of a scanned graph: those to open successors, and those of calls. -/
theorem Scanned.mem_children_iff {scanned : List Node} (h : Scanned spec cx scanned acc)
    {x y : Node} (hx : x ∈ acc.graph.nodes) :
    y ∈ acc.graph.children x ↔ y ∈ spec.widened.openSuccessors cx x ∨
      (y ∈ acc.graph.nodes ∧ CallEdge cx.unit x y) := by
  refine ⟨?_, ?_⟩
  · intro hy
    rcases h.exact.sound x y hy with hopen | hcall
    · exact Or.inl hopen
    · exact Or.inr ⟨h.exact.wellFormed.mem_nodes_of_child hy, hcall⟩
  · rintro (hopen | ⟨hy, hcall⟩)
    · exact h.exact.complete x (h.exact.mem_nodes_iff.mp hx) y hopen
    · obtain ⟨i, hi⟩ := FlowGraph.mem_nodes_iff.mp hx
      obtain ⟨j, hj⟩ := FlowGraph.mem_nodes_iff.mp hy
      obtain ⟨r, hr, s, hs, hpass⟩ := CallRole.callEdge_iff.mp hcall
      exact h.joined r i s j (h.met i x hi r hr) (h.met j y hj s hs) hpass x y hi hj

end Scan

end Accumulator

/-! ## The scanned graph -/

namespace ScannedFlow

variable {spec : FlowSpec} {cx : FlowContext}

/-- The nodes of the recorded sources. -/
def sourceNodes (flow : ScannedFlow) : List Node := flow.sources.filterMap flow.graph.node?

/-- A well-formed graph, and sources among its vertices. -/
structure WellFormed (flow : ScannedFlow) : Prop where
  graph : flow.graph.WellFormed
  sources : ∀ id ∈ flow.sources, id ∈ flow.graph.ids

/-- A scan of nodes of the unit: vertices for what they flow to, an edge for every open
    successor and for every call, and the sources among them. -/
structure Faithful (spec : FlowSpec) (cx : FlowContext) (nodes : List Node)
    (flow : ScannedFlow) : Prop extends WellFormed flow where
  nodes_iff : ∀ x, x ∈ flow.graph.nodes ↔ ∃ node ∈ nodes,
    Accumulator.isEntered cx.unit node = true ∧
      Search.Reach (spec.widened.openSuccessors cx) node x
  children_iff : ∀ x ∈ flow.graph.nodes, ∀ y, y ∈ flow.graph.children x ↔
    y ∈ spec.widened.openSuccessors cx x ∨ (y ∈ flow.graph.nodes ∧ CallEdge cx.unit x y)
  sourceNodes_iff : ∀ x, x ∈ flow.sourceNodes ↔ x ∈ nodes ∧
    Accumulator.isEntered cx.unit x = true ∧ spec.isSource cx x = true

theorem ofNodes_faithful (spec : FlowSpec) (hu : cx.unit.Accepted) {nodes : List Node}
    (hspace : ∀ node ∈ nodes, node ∈ Node.space cx.unit) :
    Faithful spec cx nodes (ofNodes spec cx nodes) := by
  have hscan : Accumulator.Scanned spec cx nodes
      (nodes.foldl (Accumulator.scanNode spec cx) .new) := by
    simpa using Accumulator.Scanned.new.foldl hu hspace
  refine ⟨⟨hscan.exact.wellFormed, ?_⟩, hscan.nodes_iff,
    fun x hx y => hscan.mem_children_iff hx, ?_⟩
  · intro id hid
    obtain ⟨node, -, -, -, hnode⟩ := hscan.source_mem id hid
    exact FlowGraph.mem_ids_iff.mpr ⟨node, hnode⟩
  · intro x
    rw [sourceNodes, List.mem_filterMap]
    refine ⟨?_, ?_⟩
    · rintro ⟨id, hid, hx⟩
      obtain ⟨node, hnode, hentered, hsource, hnodeId⟩ := hscan.source_mem id hid
      cases hnodeId.symm.trans hx
      exact ⟨hnode, hentered, hsource⟩
    · rintro ⟨hx, hentered, hsource⟩
      exact hscan.source_noted x hx hentered hsource

theorem ofUnit_faithful (spec : FlowSpec) (hu : cx.unit.Accepted) :
    Faithful spec cx (Node.attached cx.unit) (ofUnit spec cx) :=
  ofNodes_faithful spec hu fun _ hnode => Node.space_of_attached hu hnode

end ScannedFlow
end ValueFlow
