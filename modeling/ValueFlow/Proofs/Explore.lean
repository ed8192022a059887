/-
  ValueFlow.Proofs.Explore

  An exploration finds exactly what a value flows to.

  The graph of an explorer may hold further edges, which were added between two
  explorations (`extra` below). Besides those, an explored node has exactly its open
  successors as children, and between explorations every node of the graph is explored.
-/

import ValueFlow.Flow.Explore
import ValueFlow.Proofs.FlowGraph
import ValueFlow.Proofs.Tree

namespace ValueFlow

/-! ## Nodes of a unit -/

/-- All nodes that the elements of a unit could be. -/
def Node.space (u : CompilationUnit) : List Node :=
  u.tree.ids.map .expression ++ u.tree.ids.map .parameter

theorem Node.mem_space_iff {u : CompilationUnit} {node : Node} :
    node ∈ Node.space u ↔ node.id.place < u.size := by
  have hids : ∀ id : ElementId, id ∈ u.tree.ids ↔ id.place < u.size := by
    intro id
    rw [Tree.ids, List.mem_map]
    constructor
    · rintro ⟨i, hi, rfl⟩
      exact List.mem_range.mp hi
    · intro h
      exact ⟨id.place, List.mem_range.mpr h, rfl⟩
  rw [Node.space, List.mem_append]
  cases node with
  | expression id => simp [hids, Node.id]
  | parameter id => simp [hids, Node.id]

theorem Node.length_space (u : CompilationUnit) : (Node.space u).length = 2 * u.size := by
  rw [Node.space, List.length_append, List.length_map, List.length_map, Tree.ids,
    List.length_map, List.length_range, CompilationUnit.size]
  omega

/-- An attached node is one that its element makes. -/
theorem Node.mem_attached_iff {u : CompilationUnit} {node : Node} :
    node ∈ Node.attached u ↔ node.id ∈ u.attached ∧ ofElement? u node.id = some node := by
  have hid : ∀ id node, ofElement? u id = some node → node.id = id := by
    intro id node h
    rw [ofElement?, ofElement, ofExpression, ofParameter] at h
    split at h
    · next heq =>
      split at heq
      · cases heq; cases h; rfl
      · cases heq
    · split at h
      · next heq =>
        split at heq
        · cases heq; cases h; rfl
        · cases heq
      · cases h
  rw [attached, List.mem_filterMap]
  constructor
  · rintro ⟨id, hmem, hnode⟩
    rw [hid id node hnode]
    exact ⟨hmem, hnode⟩
  · rintro ⟨hmem, hnode⟩
    exact ⟨node.id, hmem, hnode⟩

theorem Node.space_of_attached {u : CompilationUnit} (hu : u.Accepted) {node : Node}
    (h : node ∈ Node.attached u) : node ∈ Node.space u :=
  mem_space_iff.mpr (hu.attached_lt (mem_attached_iff.mp h).1)

/-! ## Successors -/

theorem CompilationUnit.Accepted.readsReaching_lt {u : CompilationUnit} (hu : u.Accepted)
    {variableId definition read : ElementId} (h : read ∈ u.readsReaching variableId definition) :
    read.place < u.size := by
  have hread := (List.mem_filter.mp (List.mem_filter.mp h).1).1
  rw [sourceOrder, List.mem_append] at hread
  rcases hread with hids | hattached
  · obtain ⟨i, hi, rfl⟩ := List.mem_map.mp (List.mem_filter.mp hids).1
    exact List.mem_range.mp hi
  · exact hu.attached_lt hattached

theorem Onward.exists_read_of_mem_updatedReads {spec : FlowSpec} {cx : FlowContext}
    {id call : ElementId} {select : Option ElementId} {operands : List ElementId} {node : Node}
    (h : node ∈ updatedReads spec cx id call select operands) :
    ∃ read variableId, node = .expression read ∧
      read ∈ cx.unit.readsReaching variableId call := by
  rw [updatedReads] at h
  split at h
  · obtain ⟨read, hread, rfl⟩ := List.mem_map.mp h
    exact ⟨read, _, rfl, hread⟩
  · cases h

/-- A value goes on from an expression to the element around it, to a part of that
    element, or to a later read. -/
theorem Onward.intoParent_cases {spec : FlowSpec} {cx : FlowContext} {id parent : ElementId}
    {kind : Kind} {node : Node}
    (h : node ∈ (intoParent spec cx id parent kind).always ∨
      node ∈ (intoParent spec cx id parent kind).ifStep) :
    ∃ next, node = .expression next ∧ (next = parent ∨ next ∈ kind.children ∨
      ∃ variableId definition, next ∈ cx.unit.readsReaching variableId definition) := by
  cases kind with
  | call select name signature arguments =>
    simp only [intoParent, otherOperands, List.mem_cons, List.mem_map, List.mem_filter] at h
    rcases h with h | rfl | ⟨next, ⟨hnext, -⟩, rfl⟩
    · -- A call may change the object that it is made on, which later reads see.
      obtain ⟨read, variableId, rfl, hread⟩ := exists_read_of_mem_updatedReads h
      exact ⟨read, rfl, Or.inr (Or.inr ⟨variableId, parent, hread⟩)⟩
    · exact ⟨parent, rfl, Or.inl rfl⟩
    · exact ⟨next, rfl, Or.inr (Or.inl hnext)⟩
  | construct type signature arguments =>
    simp only [intoParent, otherOperands, List.mem_cons, List.mem_map, List.mem_filter,
      List.not_mem_nil, false_or] at h
    rcases h with rfl | ⟨next, ⟨hnext, -⟩, rfl⟩
    · exact ⟨parent, rfl, Or.inl rfl⟩
    · exact ⟨next, rfl, Or.inr (Or.inl hnext)⟩
  | localVar type name initializer =>
    simp only [intoParent] at h
    split at h
    · simp only [List.mem_singleton, List.not_mem_nil, or_false] at h
      exact ⟨name, h, Or.inr (Or.inl List.mem_cons_self)⟩
    · simp [nowhere] at h
  | assign target value =>
    simp only [intoParent] at h
    split at h
    · simp only [List.mem_cons, List.not_mem_nil, or_false] at h
      rcases h with rfl | rfl
      · exact ⟨target, rfl, Or.inr (Or.inl List.mem_cons_self)⟩
      · exact ⟨parent, rfl, Or.inl rfl⟩
    · simp [nowhere] at h
  | ternary condition whenTrue whenFalse type =>
    simp only [intoParent] at h
    split at h <;> simp at h <;> exact ⟨parent, h, Or.inl rfl⟩
  | _ =>
    simp [intoParent, nowhere, Kind.isExpression] at h <;> exact ⟨parent, h, Or.inl rfl⟩

theorem CompilationUnit.lt_of_kind? {u : CompilationUnit} {id : ElementId} {kind : Kind}
    (h : u.kind? id = some kind) : id.place < u.size := by
  rw [CompilationUnit.kind?, Tree.kind?, Option.map_eq_some_iff] at h
  obtain ⟨element, helement, -⟩ := h
  exact (Array.getElem?_eq_some_iff.mp helement).1

theorem CompilationUnit.children_of_kind? {u : CompilationUnit} {id : ElementId} {kind : Kind}
    (h : u.kind? id = some kind) : u.tree.children id = kind.children := by
  rw [Tree.children, ← CompilationUnit.kind?, h]
  rfl

/-- What the value of an expression flows to: the reads that it defines a variable for, and
    what the element around it passes it on to. -/
theorem FlowSpec.mem_successors_expression_iff {spec : FlowSpec} {cx : FlowContext}
    {id : ElementId} {next : Node} :
    next ∈ spec.successors cx (.expression id) ↔
      (∃ variableId definition, cx.unit.definition? id = some (variableId, definition) ∧
        next ∈ (cx.unit.readsReaching variableId definition).map Node.expression) ∨
      ∃ parent kind, cx.unit.parent? id = some parent ∧ cx.unit.kind? parent = some kind ∧
        (next ∈ (Onward.intoParent spec cx id parent kind).always ∨
          next ∈ (Onward.intoParent spec cx id parent kind).ifStep ∧
            spec.isStep cx (.expression id) next = true) := by
  simp only [successors, List.mem_append, List.mem_filter, or_assoc]
  refine or_congr ?_ ?_
  · cases hdefinition : cx.unit.definition? id with
    | none => simp
    | some found => simp [Prod.ext_iff]
  · cases hparent : cx.unit.parent? id with
    | none => simp [Onward.nowhere]
    | some parent =>
      cases hkind : cx.unit.kind? parent with
      | none => simp [hkind, Onward.nowhere]
      | some kind => simp [hkind]

/-- A value flows into expressions of the unit only. -/
theorem FlowSpec.successors_space {spec : FlowSpec} {cx : FlowContext} (hu : cx.unit.Accepted)
    {node next : Node} (h : next ∈ spec.successors cx node) :
    ∃ id, next = .expression id ∧ next ∈ Node.space cx.unit := by
  have hread : ∀ variableId definition,
      next ∈ (cx.unit.readsReaching variableId definition).map Node.expression →
      ∃ id, next = .expression id ∧ next ∈ Node.space cx.unit := by
    intro variableId definition hmem
    obtain ⟨read, hread, rfl⟩ := List.mem_map.mp hmem
    exact ⟨read, rfl, Node.mem_space_iff.mpr (hu.readsReaching_lt hread)⟩
  cases node with
  | parameter id => exact hread id id h
  | expression id =>
    rcases mem_successors_expression_iff.mp h with
      ⟨variableId, definition, -, hreads⟩ | ⟨parent, kind, -, hkind, honward⟩
    · exact hread variableId definition hreads
    · obtain ⟨target, rfl, htarget⟩ := Onward.intoParent_cases (honward.imp_right And.left)
      refine ⟨target, rfl, Node.mem_space_iff.mpr ?_⟩
      rcases htarget with rfl | hchild | ⟨_, _, hreads⟩
      · exact CompilationUnit.lt_of_kind? hkind
      · rw [← CompilationUnit.children_of_kind? hkind] at hchild
        exact hu.linked.child_lt parent target hchild
      · exact hu.readsReaching_lt hreads

theorem FlowSpec.mem_openSuccessors_iff {spec : FlowSpec} {cx : FlowContext} {node next : Node} :
    next ∈ spec.openSuccessors cx node ↔
      next ∈ spec.successors cx node ∧ spec.isBarrier cx next = false := by
  rw [openSuccessors, List.mem_filter]
  simp

/-! ## One node -/

namespace Explorer

/-- Edges from one vertex to a list of nodes: what they do to nodes and children. -/
theorem linkAll_spec {graph : FlowGraph} (h : graph.WellFormed) {source : VertexId} {node : Node}
    (hnode : graph.node? source = some node) (next : List Node) :
    (linkAll graph source next).WellFormed ∧
    graph.Extends (linkAll graph source next) ∧
    (∀ x, x ∈ (linkAll graph source next).nodes ↔ x ∈ graph.nodes ∨ x ∈ next) ∧
    ∀ x y, y ∈ (linkAll graph source next).children x ↔
      y ∈ graph.children x ∨ (x = node ∧ y ∈ next) := by
  induction next generalizing graph with
  | nil => exact ⟨h, .refl graph, by simp [linkAll], by simp [linkAll]⟩
  | cons first next ih =>
    -- The first edge: a vertex for the node, then the edge to it.
    have hwf := h.intern first
    have hsource : (graph.intern first).1.node? source = some node :=
      (h.extends_intern first).node? source node hnode
    have htarget := h.node?_intern_self first
    obtain ⟨hwf', hextends, hnodes, hchildren⟩ :=
      ih (hwf.link hsource htarget) (by rwa [FlowGraph.node?_link])
    refine ⟨hwf', ?_, ?_, ?_⟩
    · exact ((h.extends_intern first).trans (hwf.extends_link hsource _ _)).trans hextends
    · intro x
      rw [List.mem_cons]
      refine (hnodes x).trans ?_
      rw [FlowGraph.nodes_link, h.mem_nodes_intern, or_assoc]
    · intro x y
      rw [List.mem_cons]
      refine (hchildren x y).trans ?_
      rw [hwf.mem_children_link hsource, h.children_intern, or_assoc, ← and_or_left]

/-- Exploring a node gives it a vertex, the nodes it flows to as children, and changes
    nothing else. -/
theorem visit_spec {explorer : Explorer} (h : explorer.graph.WellFormed) (node : Node)
    (next : List Node) :
    (explorer.visit node next).graph.WellFormed ∧
    explorer.graph.Extends (explorer.visit node next).graph ∧
    (∀ x, x ∈ (explorer.visit node next).graph.nodes ↔
      x ∈ explorer.graph.nodes ∨ x = node ∨ x ∈ next) ∧
    ∀ x y, y ∈ (explorer.visit node next).graph.children x ↔
      y ∈ explorer.graph.children x ∨ (x = node ∧ y ∈ next) := by
  obtain ⟨hwf, hextends, hnodes, hchildren⟩ :=
    linkAll_spec (h.intern node) (h.node?_intern_self node) next
  refine ⟨hwf, (h.extends_intern node).trans hextends, ?_, ?_⟩
  · intro x
    refine (hnodes x).trans ?_
    rw [h.mem_nodes_intern, or_assoc]
  · intro x y
    refine (hchildren x y).trans ?_
    rw [h.children_intern]

/-! ## The state of an exploration -/

section Exploration

variable {spec : FlowSpec} {cx : FlowContext} {extra : Node → Node → Prop}

/-- Explored nodes have all their open successors as children, no edge leads elsewhere
    but for extra ones, and what is not explored is pending. -/
structure Exact (spec : FlowSpec) (cx : FlowContext) (extra : Node → Node → Prop)
    (explorer : Explorer) (pending : List Node) : Prop where
  wellFormed : explorer.graph.WellFormed
  nodup : explorer.explored.Nodup
  space : ∀ node ∈ explorer.graph.nodes, node ∈ Node.space cx.unit
  explored_mem : ∀ node ∈ explorer.explored, node ∈ explorer.graph.nodes
  complete : ∀ node ∈ explorer.explored, ∀ next ∈ spec.openSuccessors cx node,
    next ∈ explorer.graph.children node
  sound : ∀ node next, next ∈ explorer.graph.children node →
    next ∈ spec.openSuccessors cx node ∨ extra node next
  pending_mem : ∀ node ∈ pending, node ∈ Node.space cx.unit
  covered : ∀ node ∈ explorer.graph.nodes, node ∈ explorer.explored ∨ node ∈ pending

/-- The nodes pending after a node was explored, in the order in which they are looked
    at. -/
def onward (spec : FlowSpec) (cx : FlowContext) (node : Node) : List Node :=
  (spec.openSuccessors cx node).reverse

theorem mem_onward_iff {node next : Node} :
    next ∈ onward spec cx node ↔ next ∈ spec.openSuccessors cx node :=
  List.mem_reverse

theorem reach_onward_iff {a b : Node} :
    Search.Reach (onward spec cx) a b ↔ Search.Reach (spec.openSuccessors cx) a b := by
  have hstep : Search.Step (onward spec cx) = Search.Step (spec.openSuccessors cx) := by
    funext x y
    exact propext mem_onward_iff
  rw [Search.Reach, hstep]

/-- The explored nodes are those of a search along open successors. -/
theorem explored_run (bound : Nat) (explorer : Explorer) (pending : List Node) :
    (run spec cx bound explorer pending).explored =
      Search.expand (onward spec cx) bound explorer.explored pending := by
  induction bound generalizing explorer pending with
  | zero => rfl
  | succ bound ih =>
    rw [run, Search.expand]
    split
    · next heq => rw [heq]
    · next heq =>
      rw [heq]
      exact ih _ _

theorem Exact.frontier (hu : cx.unit.Accepted) {explorer : Explorer} {pending : List Node}
    (h : Exact spec cx extra explorer pending) :
    Search.Frontier (onward spec cx) (Node.space cx.unit) explorer.explored pending where
  nodup := h.nodup
  found_mem node hnode := h.space node (h.explored_mem node hnode)
  pending_mem := h.pending_mem
  space_closed node _ next hnext := by
    have hopen := FlowSpec.mem_openSuccessors_iff.mp (mem_onward_iff.mp hnext)
    obtain ⟨-, -, hspace⟩ := FlowSpec.successors_space hu hopen.1
    exact hspace
  found_closed node hnode next hnext := by
    have hchild := h.complete node hnode next (mem_onward_iff.mp hnext)
    exact h.covered next (h.wellFormed.mem_nodes_of_child hchild)

/-- Exploring the first pending node that is new keeps the state exact. -/
theorem Exact.visit (hu : cx.unit.Accepted) {explorer : Explorer} {pending rest : List Node}
    {node : Node} (h : Exact spec cx extra explorer pending) (hnew : node ∉ explorer.explored)
    (hmem : node ∈ pending) (hrest : ∀ x ∈ rest, x ∈ pending)
    (hall : ∀ x ∈ pending, x ∈ explorer.explored ∨ x = node ∨ x ∈ rest) :
    Exact spec cx extra (explorer.visit node (spec.openSuccessors cx node))
      (onward spec cx node ++ rest) := by
  obtain ⟨hwf, hextends, hnodes, hchildren⟩ :=
    visit_spec h.wellFormed node (spec.openSuccessors cx node)
  have hopen : ∀ x ∈ spec.openSuccessors cx node, x ∈ Node.space cx.unit := by
    intro x hx
    obtain ⟨-, -, hspace⟩ :=
      FlowSpec.successors_space hu (FlowSpec.mem_openSuccessors_iff.mp hx).1
    exact hspace
  refine ⟨hwf, List.nodup_cons.mpr ⟨hnew, h.nodup⟩, ?_, ?_, ?_, ?_, ?_, ?_⟩
  · intro x hx
    rcases (hnodes x).mp hx with hold | rfl | hnext
    · exact h.space x hold
    · exact h.pending_mem x hmem
    · exact hopen x hnext
  · intro x hx
    rcases List.mem_cons.mp hx with rfl | hx
    · exact (hnodes x).mpr (Or.inr (Or.inl rfl))
    · exact (hnodes x).mpr (Or.inl (h.explored_mem x hx))
  · intro x hx next hnext
    rcases List.mem_cons.mp hx with rfl | hx
    · exact (hchildren _ next).mpr (Or.inr ⟨rfl, hnext⟩)
    · exact (hchildren x next).mpr (Or.inl (h.complete x hx next hnext))
  · intro x next hnext
    rcases (hchildren x next).mp hnext with hold | ⟨rfl, hnew⟩
    · exact h.sound x next hold
    · exact Or.inl hnew
  · intro x hx
    rcases List.mem_append.mp hx with hx | hx
    · exact hopen x (mem_onward_iff.mp hx)
    · exact h.pending_mem x (hrest x hx)
  · -- What was pending is explored now, is this node, or is pending still.
    intro x hx
    rcases (hnodes x).mp hx with hold | rfl | hnext
    · rcases h.covered x hold with hexplored | hpending
      · exact Or.inl (List.mem_cons_of_mem _ hexplored)
      · rcases hall x hpending with hexplored | rfl | hlater
        · exact Or.inl (List.mem_cons_of_mem _ hexplored)
        · exact Or.inl List.mem_cons_self
        · exact Or.inr (List.mem_append_right _ hlater)
    · exact Or.inl List.mem_cons_self
    · exact Or.inr (List.mem_append_left _ (mem_onward_iff.mpr hnext))

/-- A run with enough bound ends with nothing pending. -/
theorem Exact.run (hu : cx.unit.Accepted) (bound : Nat) {explorer : Explorer}
    {pending : List Node} (h : Exact spec cx extra explorer pending)
    (hbound : 2 * cx.unit.size ≤ bound + explorer.explored.length) :
    Exact spec cx extra (run spec cx bound explorer pending) [] ∧
    explorer.graph.Extends (Explorer.run spec cx bound explorer pending).graph := by
  induction bound generalizing explorer pending with
  | zero =>
    -- The bound is used up only when all nodes of the unit are explored.
    have hfull : ∀ node ∈ Node.space cx.unit, node ∈ explorer.explored :=
      Search.subset_of_length_le h.nodup (h.frontier hu).found_mem
        (by rw [Node.length_space]; omega)
    refine ⟨?_, .refl _⟩
    exact { h with
      pending_mem := by simp
      covered := fun node hnode => Or.inl (hfull node (h.space node hnode)) }
  | succ bound ih =>
    rw [Explorer.run]
    rcases Search.dropWhile_found explorer.explored pending with
      ⟨hnil, hall⟩ | ⟨node, rest, hcons, hnew, hmem, hrest, hall⟩
    · rw [hnil]
      refine ⟨?_, .refl _⟩
      exact { h with
        pending_mem := by simp
        covered := fun node hnode => Or.inl ((h.covered node hnode).elim id (hall node)) }
    · rw [hcons]
      have hvisit := h.visit hu hnew hmem hrest hall
      obtain ⟨hexact, hextends⟩ := ih hvisit (by
        show _ ≤ bound + (node :: explorer.explored).length
        rw [List.length_cons]
        omega)
      exact ⟨hexact, (visit_spec h.wellFormed _ _).2.1.trans hextends⟩

/-- A fresh explorer. -/
theorem Exact.new : Exact spec cx extra .new [] where
  wellFormed := .empty
  nodup := List.nodup_nil
  space := by simp [Explorer.new, FlowGraph.empty, FlowGraph.nodes]
  explored_mem := by simp [Explorer.new]
  complete := by simp [Explorer.new]
  sound node next hnext := by
    have hnode := FlowGraph.WellFormed.empty.mem_nodes_of_mem_children hnext
    cases hnode
  pending_mem := by simp
  covered := by simp [Explorer.new, FlowGraph.empty, FlowGraph.nodes]

/-- Between explorations the nodes of the graph are the explored ones. -/
theorem Exact.mem_nodes_iff {explorer : Explorer} (h : Exact spec cx extra explorer [])
    {node : Node} : node ∈ explorer.graph.nodes ↔ node ∈ explorer.explored := by
  refine ⟨fun hnode => ?_, h.explored_mem node⟩
  rcases h.covered node hnode with hexplored | hpending
  · exact hexplored
  · cases hpending

/-- The node of a new exploration gets its vertex first; it is then the only one that is not
    explored. -/
theorem Exact.start {explorer : Explorer} (h : Exact spec cx extra explorer []) {node : Node}
    (hnode : node ∈ Node.space cx.unit) :
    Exact spec cx extra { explorer with graph := (explorer.graph.intern node).1 } [node] := by
  refine ⟨h.wellFormed.intern node, h.nodup, ?_, ?_, ?_, ?_, by simpa using hnode, ?_⟩
  · intro x hx
    rcases h.wellFormed.mem_nodes_intern.mp hx with hold | rfl
    · exact h.space x hold
    · exact hnode
  · intro x hx
    exact h.wellFormed.mem_nodes_intern.mpr (Or.inl (h.explored_mem x hx))
  · intro x hx next hnext
    rw [h.wellFormed.children_intern]
    exact h.complete x hx next hnext
  · intro x next hnext
    rw [h.wellFormed.children_intern] at hnext
    exact h.sound x next hnext
  · intro x hx
    rcases h.wellFormed.mem_nodes_intern.mp hx with hold | rfl
    · exact Or.inl (h.mem_nodes_iff.mp hold)
    · exact Or.inr (List.mem_singleton_self x)

/-- What an exploration does: the state stays exact, the node has the vertex that is
    returned, and new are the nodes that it flows to. -/
theorem Exact.explore (hu : cx.unit.Accepted) {explorer : Explorer}
    (h : Exact spec cx extra explorer []) {node : Node} (hnode : node ∈ Node.space cx.unit) :
    Exact spec cx extra (explorer.explore spec cx node).1 [] ∧
    explorer.graph.Extends (explorer.explore spec cx node).1.graph ∧
    (explorer.explore spec cx node).1.graph.node? (explorer.explore spec cx node).2 = some node ∧
    ∀ x, x ∈ (explorer.explore spec cx node).1.graph.nodes ↔
      x ∈ explorer.graph.nodes ∨ Search.Reach (spec.openSuccessors cx) node x := by
  have hstart := h.start hnode
  obtain ⟨hexact, hextends⟩ := hstart.run hu (2 * cx.unit.size + 1) (by omega)
  refine ⟨hexact, (h.wellFormed.extends_intern node).trans hextends, ?_, ?_⟩
  · exact hextends.node? _ _ (h.wellFormed.node?_intern_self node)
  · intro x
    refine hexact.mem_nodes_iff.trans ?_
    rw [h.mem_nodes_iff, explored_run, Search.mem_expand_iff (hstart.frontier hu)
      (by rw [Node.length_space]; omega)]
    simp only [List.mem_singleton, exists_eq_left, reach_onward_iff]

end Exploration

end Explorer

/-- The small unit, without any model. -/
def relayContext : FlowContext := ⟨relayUnit, ⟨⟨[]⟩, ⟨[]⟩, ⟨[]⟩⟩⟩

/-- A specification for the small unit: the literal is the source, and there is one
    sink. -/
def literalTo (sink : Node) : FlowSpec :=
  { FlowSpec.nothing with
    isSource := fun _ node => node == .expression ⟨11⟩
    isSink := fun _ node => node == sink }

end ValueFlow
