/-
  ValueFlow.Proofs.LocalPaths

  The flows that are found inside a method.

  The paths of a summary are the trails through the explored graph that end in a sink and
  stay where control gets. Hence a sink is found exactly if the value of the source gets
  to it in such steps, and no path leaves the method of its source.
-/

import ValueFlow.Flow.Local
import ValueFlow.Proofs.ControlFlow
import ValueFlow.Proofs.Explore

namespace ValueFlow
namespace SinkSummary

/-! ## Trails through vertices -/

theorem isOpen_iff {root id : VertexId} {reachable : List ElementId} {node : Node} :
    isOpen root reachable id node = true ↔ id = root ∨ admits reachable node = true := by
  rw [isOpen, Bool.or_eq_true, beq_iff_eq]

/-- An edge that a path may take. -/
def Advance (graph : FlowGraph) (root : VertexId) (reachable : List ElementId)
    (source target : VertexId) : Prop :=
  target ∈ graph.targets source ∧
    ∃ node, graph.node? target = some node ∧ isOpen root reachable target node = true

section Vertices

variable {graph : FlowGraph} {isSink : Node → Bool} {root : VertexId}
  {reachable : List ElementId} {start : Node}

theorem node?_of_trail (hroot : graph.node? root = some start) {id : VertexId}
    {rest : List VertexId} (h : Search.Trail (Advance graph root reachable) root (id :: rest)) :
    ∃ node, graph.node? id = some node ∧ isOpen root reachable id node = true := by
  cases h with
  | start => exact ⟨start, hroot, isOpen_iff.mpr (Or.inl rfl)⟩
  | step _ hstep _ => exact hstep.2

/-- A path that is found is a trail to a sink. -/
theorem trail_of_mem_pathsFrom (bound : Nat) {trail : List (VertexId × Node)} {id : VertexId}
    (hresolved : ∀ step ∈ trail, graph.node? step.1 = some step.2)
    (htrail : ∀ node, graph.node? id = some node → isOpen root reachable id node = true →
      Search.Trail (Advance graph root reachable) root (id :: trail.map (·.1)))
    {path : List Node} (hpath : path ∈ pathsFrom graph isSink root reachable bound trail id) :
    ∃ full, Search.Trail (Advance graph root reachable) root full ∧
      full.map graph.node? = path.reverse.map some ∧
      ∃ sink, path.getLast? = some sink ∧ isSink sink = true := by
  induction bound generalizing trail id with
  | zero => cases hpath
  | succ bound ih =>
    rw [pathsFrom] at hpath
    split at hpath
    · cases hpath
    · next node hnode =>
      split at hpath
      · next hopen =>
        have hfull := htrail node hnode hopen
        rcases List.mem_append.mp hpath with hends | hgoes
        · -- The path ends here.
          split at hends
          · next hsink =>
            rw [List.mem_singleton] at hends
            subst hends
            refine ⟨_, hfull, ?_, node, by simp, hsink⟩
            rw [List.reverse_reverse, List.map_cons, List.map_cons, List.map_cons, hnode,
              List.map_map, List.map_map]
            congr 1
            exact List.map_congr_left hresolved
          · cases hends
        · -- The path goes on at a vertex that is not yet on it.
          obtain ⟨next, hnext, hrest⟩ := List.mem_flatMap.mp hgoes
          split at hrest
          · cases hrest
          · next hnew =>
            refine ih ?_ ?_ hrest
            · intro step hstep
              rcases List.mem_cons.mp hstep with rfl | hstep
              · exact hnode
              · exact hresolved step hstep
            · intro child hchild hchildOpen
              refine .step hfull ⟨hnext, child, hchild, hchildOpen⟩ ?_
              intro hmem
              refine hnew (List.any_eq_true.mpr ?_)
              obtain ⟨step, hstep, heq⟩ := List.mem_map.mp (show next ∈
                ((id, node) :: trail).map (·.1) from hmem)
              exact ⟨step, hstep, beq_iff_eq.mpr heq⟩
      · cases hpath

/-- A trail to a sink is a path that is found, if the bound allows for its length. -/
theorem mem_pathsFrom_of_trail (hroot : graph.node? root = some start) (bound : Nat)
    {trail : List (VertexId × Node)} {id : VertexId}
    (hresolved : ∀ step ∈ trail, graph.node? step.1 = some step.2)
    {full : List VertexId} (hfull : Search.Trail (Advance graph root reachable) root full)
    (hsuffix : id :: trail.map (·.1) <:+ full) (hbound : full.length ≤ bound + trail.length)
    {path : List Node} (hpath : full.map graph.node? = path.reverse.map some)
    (hsink : ∃ sink, path.getLast? = some sink ∧ isSink sink = true) :
    path ∈ pathsFrom graph isSink root reachable bound trail id := by
  induction bound generalizing trail id with
  | zero =>
    -- The bound allows for at least the vertex that the trail goes on at.
    have hlen := hsuffix.length_le
    rw [List.length_cons, List.length_map] at hlen
    omega
  | succ bound ih =>
    obtain ⟨node, hnode, hopen⟩ := node?_of_trail hroot (hfull.of_suffix hsuffix)
    have hresolved' : ∀ step ∈ (id, node) :: trail, graph.node? step.1 = some step.2 := by
      intro step hstep
      rcases List.mem_cons.mp hstep with rfl | hstep
      · exact hnode
      · exact hresolved step hstep
    rw [pathsFrom, hnode]
    simp only [hopen, if_true]
    rw [List.mem_append]
    obtain ⟨later, heq⟩ := hsuffix
    rcases List.eq_nil_or_concat' later with rfl | ⟨later, next, rfl⟩
    · -- Nothing follows: the path ends here.
      left
      have hreverse : path.reverse = ((id, node) :: trail).map (·.2) := by
        refine List.map_injective_iff.mpr (fun _ _ => Option.some.inj) ?_
        rw [← hpath, ← heq, List.nil_append, List.map_map]
        show List.map graph.node? (((id, node) :: trail).map (·.1)) = _
        rw [List.map_map]
        exact List.map_congr_left hresolved'
      have heqPath : path = (((id, node) :: trail).map (·.2)).reverse := by
        rw [← hreverse, List.reverse_reverse]
      obtain ⟨sink, hlast, hsink⟩ := hsink
      have hsinkEq : node = sink := by
        rw [heqPath] at hlast
        simpa using hlast
      rw [hsinkEq, hsink, if_pos rfl, List.mem_singleton, ← hsinkEq]
      exact heqPath
    · -- The vertex that follows is one to go on at.
      right
      have hnext : next :: id :: trail.map (·.1) <:+ full :=
        ⟨later, by rw [← heq]; simp⟩
      have hstep := hfull.of_suffix hnext
      cases hstep with
      | step _ hadvance hnew =>
        refine List.mem_flatMap.mpr ⟨next, hadvance.1, ?_⟩
        have hnot : ((id, node) :: trail).any (fun step => step.1 == next) = false := by
          rw [List.any_eq_false]
          intro step hmem hbeq
          exact hnew (beq_iff_eq.mp hbeq ▸ List.mem_map_of_mem (f := (·.1)) hmem)
        rw [hnot, if_neg (by simp)]
        refine ih hresolved' hnext ?_
        rw [List.length_cons]
        omega

/-! ## Trails through nodes -/

variable (graph reachable) in
/-- An edge to a node that control gets to. -/
def Follow (node next : Node) : Prop :=
  next ∈ graph.children node ∧ admits reachable next = true

/-- A trail through vertices is one through their nodes. -/
theorem trail_nodes (hwf : graph.WellFormed) (hroot : graph.node? root = some start)
    {full : List VertexId} (h : Search.Trail (Advance graph root reachable) root full)
    {trail : List Node} (hnodes : full.map graph.node? = trail.map some) :
    Search.Trail (Follow graph reachable) start trail := by
  induction h generalizing trail with
  | start =>
    obtain ⟨node, rfl⟩ : ∃ node, trail = [node] := by
      rw [← List.length_eq_one_iff, ← List.length_map (f := some), ← hnodes]
      rfl
    rw [List.map_singleton, List.map_singleton, hroot] at hnodes
    cases hnodes
    exact .start
  | @step last next rest hold hstep hnew ih =>
    match trail, hnodes with
    | [_], hnodes => simp at hnodes
    | child :: node :: trail, hnodes =>
      simp only [List.map_cons, List.cons.injEq] at hnodes
      obtain ⟨hchild, hnode, hrest⟩ := hnodes
      have htrail : Search.Trail (Follow graph reachable) start (node :: trail) := by
        refine ih ?_
        rw [List.map_cons, List.map_cons, hnode, hrest]
      obtain ⟨htarget, other, hother, hopen⟩ := hstep
      obtain rfl : other = child := Option.some.inj (hother.symm.trans hchild)
      refine .step htrail ⟨?_, ?_⟩ ?_
      · obtain ⟨child', hmem, hchild'⟩ := (hwf.mem_targets_iff hnode).mp htarget
        rwa [Option.some.inj (hchild.symm.trans hchild')]
      · -- The root is on the trail already, so this vertex is open for its node.
        rcases isOpen_iff.mp hopen with rfl | hadmits
        · exact absurd hold.start_mem hnew
        · exact hadmits
      · intro hmem
        have hmem' : some other ∈ (last :: rest).map graph.node? := by
          rw [List.map_cons, hnode, hrest, ← List.map_cons]
          exact List.mem_map_of_mem hmem
        obtain ⟨id, hid, heq⟩ := List.mem_map.mp hmem'
        exact hnew (hwf.unique id next other heq hchild ▸ hid)

/-- A trail through nodes is one through their vertices. -/
theorem exists_trail_vertices (hwf : graph.WellFormed) (hroot : graph.node? root = some start)
    {trail : List Node} (h : Search.Trail (Follow graph reachable) start trail) :
    ∃ full, Search.Trail (Advance graph root reachable) root full ∧
      full.map graph.node? = trail.map some := by
  induction h with
  | start => exact ⟨[root], .start, by simp [hroot]⟩
  | @step node child rest hold hstep hnew ih =>
    obtain ⟨full, hfull, hnodes⟩ := ih
    match full, hnodes with
    | last :: full, hnodes =>
      have hnode : graph.node? last = some node := by
        rw [List.map_cons, List.map_cons, List.cons.injEq] at hnodes
        exact hnodes.1
      obtain ⟨next, hnext⟩ := FlowGraph.mem_nodes_iff.mp (hwf.mem_nodes_of_child hstep.1)
      refine ⟨next :: last :: full, .step hfull ⟨?_, child, hnext, ?_⟩ ?_, ?_⟩
      · exact (hwf.mem_targets_iff hnode).mpr ⟨child, hstep.1, hnext⟩
      · exact isOpen_iff.mpr (Or.inr hstep.2)
      · intro hmem
        have hchild : some child ∈ (node :: rest).map some := by
          rw [← hnodes, ← hnext]
          exact List.mem_map_of_mem hmem
        exact hnew (by simpa using hchild)
      · rw [List.map_cons, hnodes, hnext]
        rfl

/-- The paths of a summary are the trails to sinks. -/
theorem mem_paths_iff (hwf : graph.WellFormed) (hroot : graph.node? root = some start)
    {path : List Node} :
    path ∈ (compute graph isSink root reachable).paths ↔
      Search.Trail (Follow graph reachable) start path.reverse ∧
        ∃ sink, path.getLast? = some sink ∧ isSink sink = true := by
  refine ⟨?_, ?_⟩
  · intro hpath
    obtain ⟨full, hfull, hnodes, hsink⟩ := trail_of_mem_pathsFrom graph.size
      (by simp) (fun _ _ _ => .start) hpath
    exact ⟨trail_nodes hwf hroot hfull hnodes, hsink⟩
  · rintro ⟨htrail, hsink⟩
    obtain ⟨full, hfull, hnodes⟩ := exists_trail_vertices hwf hroot htrail
    -- A trail comes to each vertex at most once, so that it is no longer than the graph.
    have hsub : full ⊆ graph.ids := by
      intro id hid
      have hmem := List.mem_map_of_mem (f := graph.node?) hid
      rw [hnodes] at hmem
      obtain ⟨node, -, heq⟩ := List.mem_map.mp hmem
      exact FlowGraph.mem_ids_iff.mpr ⟨node, heq.symm⟩
    have hlen := (List.subperm_of_subset hfull.nodup hsub).length_le
    rw [FlowGraph.length_ids] at hlen
    exact mem_pathsFrom_of_trail hroot graph.size (by simp) hfull hfull.start_suffix
      (by simpa using hlen) hnodes hsink

end Vertices

end SinkSummary

/-! ## Steps inside a method -/

section Local

variable {spec : FlowSpec} {cx : FlowContext} {start : Node}

variable (spec cx start) in
/-- An expression that control reaches in the method of `start` without passing a barrier
    guard; there is none if `start` is in no method. -/
def FlowSpec.Reaches (id : ElementId) : Prop :=
  ∃ method flow, start.enclosingMethod? cx.unit = some method ∧
    ControlFlow.build cx.unit method = .ok flow ∧
    id ∈ flow.reachableExpressions cx.unit (spec.isBarrierGuard cx)

variable (spec cx start) in
/-- A value flows on to a successor that is no barrier and, if an expression, reached by
    control. -/
def FlowSpec.LocalStep (node next : Node) : Prop :=
  next ∈ spec.successors cx node ∧ spec.isBarrier cx next = false ∧
    ∀ id, next = .expression id → spec.Reaches cx start id

/-- What control reaches is known if the control flow of the method can be built. -/
theorem exists_reachableExpressions (spec : FlowSpec)
    (hflow : ∀ method, start.enclosingMethod? cx.unit = some method →
      ∃ flow, ControlFlow.build cx.unit method = .ok flow) :
    ∃ reachable, reachableExpressions spec cx start = .ok reachable ∧
      ∀ id, id ∈ reachable ↔ spec.Reaches cx start id := by
  rw [reachableExpressions]
  cases hmethod : start.enclosingMethod? cx.unit with
  | none =>
    refine ⟨[], rfl, fun id => ⟨fun hid => absurd hid List.not_mem_nil, ?_⟩⟩
    rintro ⟨method, flow, hsome, -⟩
    rw [hmethod] at hsome
    cases hsome
  | some method =>
    obtain ⟨flow, hbuild⟩ := hflow method hmethod
    have hok : (ControlFlow.build cx.unit method >>= fun flow => Except.ok
        (flow.reachableExpressions cx.unit (spec.isBarrierGuard cx))) = .ok
        (flow.reachableExpressions cx.unit (spec.isBarrierGuard cx)) := by
      rw [hbuild]
      rfl
    refine ⟨_, hok, fun id => ⟨fun hid => ⟨method, flow, hmethod, hbuild, hid⟩, ?_⟩⟩
    rintro ⟨method', flow', hmethod', hbuild', hid⟩
    cases hmethod.symm.trans hmethod'
    cases hbuild.symm.trans hbuild'
    exact hid

/-- The method of an attached node is attached. -/
theorem Node.enclosingMethod?_attached (hu : cx.unit.Accepted)
    (hstart : start ∈ Node.attached cx.unit) {method : ElementId}
    (h : start.enclosingMethod? cx.unit = some method) : method ∈ cx.unit.attached := by
  have hid := (Node.mem_attached_iff.mp hstart).1
  cases start with
  | expression id => exact hu.attached_of_mem_ancestors hid (List.mem_of_find?_eq_some h)
  | parameter id =>
    obtain ⟨position, hposition, rfl⟩ := Option.map_eq_some_iff.mp h
    rw [CompilationUnit.parameterPosition?] at hposition
    split at hposition
    · cases hposition
    · next parent hparent =>
      split at hposition
      · obtain ⟨place, -, rfl⟩ := Option.map_eq_some_iff.mp hposition
        exact (hu.attached_child_iff ((hu.linked.parent_iff id parent).mp hparent)).mp hid
      · cases hposition

/-- What control reaches stands inside the method. -/
theorem FlowSpec.Reaches.mem_ancestors (hu : cx.unit.Accepted)
    (hstart : start ∈ Node.attached cx.unit) {id : ElementId} (h : spec.Reaches cx start id) :
    ∃ method, start.enclosingMethod? cx.unit = some method ∧
      method ∈ cx.unit.tree.ancestors id := by
  obtain ⟨method, flow, hmethod, hbuild, hid⟩ := h
  obtain ⟨depth, hbelow⟩ := ControlFlow.below_of_mem_reachableExpressions hbuild hid
  exact ⟨method, hmethod, hu.mem_ancestors_of_below
    (Node.enclosingMethod?_attached hu hstart hmethod) hbelow⟩

/-- In the graph that is explored from a node, edges that a path may take are the steps
    inside its method. -/
theorem SinkSummary.mem_paths_iff_local (hu : cx.unit.Accepted)
    (hstart : start ∈ Node.attached cx.unit) {reachable : List ElementId}
    (hreachable : ∀ id, id ∈ reachable ↔ spec.Reaches cx start id) (path : List Node) :
    path ∈ (compute (Explorer.new.explore spec cx start).1.graph (spec.isSink cx)
        (Explorer.new.explore spec cx start).2 reachable).paths ↔
      Search.Trail (spec.LocalStep cx start) start path.reverse ∧
        ∃ sink, path.getLast? = some sink ∧ spec.isSink cx sink = true := by
  obtain ⟨hexact, -, hroot, hnodes⟩ :=
    (@Explorer.Exact.new spec cx fun _ _ => False).explore hu (Node.space_of_attached hu hstart)
  rw [mem_paths_iff hexact.wellFormed hroot]
  have hadmits : ∀ node, admits reachable node = true ↔
      ∀ id, node = .expression id → spec.Reaches cx start id := by
    intro node
    cases node with
    | expression id => simp [admits, hreachable]
    | parameter id => simp [admits]
  refine and_congr_left fun _ => ⟨fun htrail => htrail.imp ?_, fun htrail => htrail.imp ?_⟩
  · rintro node next - ⟨hchild, hnext⟩
    rcases hexact.sound node next hchild with hopen | hfalse
    · obtain ⟨hsuccessor, hbarrier⟩ := FlowSpec.mem_openSuccessors_iff.mp hopen
      exact ⟨hsuccessor, hbarrier, (hadmits next).mp hnext⟩
    · exact hfalse.elim
  · rintro node next hreach ⟨hsuccessor, hbarrier, hnext⟩
    refine ⟨?_, (hadmits next).mpr hnext⟩
    -- A node that is reached in steps of the method was explored.
    have hopen : Search.Reach (spec.openSuccessors cx) start node :=
      Relation.ReflTransGen.mono (fun a b (hstep : spec.LocalStep cx start a b) =>
        FlowSpec.mem_openSuccessors_iff.mpr ⟨hstep.1, hstep.2.1⟩) start node hreach
    have hmem := hexact.mem_nodes_iff.mp ((hnodes node).mpr (Or.inr hopen))
    exact hexact.complete node hmem next
      (FlowSpec.mem_openSuccessors_iff.mpr ⟨hsuccessor, hbarrier⟩)

/-- The sinks of a summary are the sinks that are reached in steps of the method. -/
theorem SinkSummary.mem_sinks_iff {summary : SinkSummary}
    (hpaths : ∀ path, path ∈ summary.paths ↔
      Search.Trail (spec.LocalStep cx start) start path.reverse ∧
        ∃ sink, path.getLast? = some sink ∧ spec.isSink cx sink = true) (node : Node) :
    node ∈ summary.sinks ↔ spec.isSink cx node = true ∧
      Relation.ReflTransGen (spec.LocalStep cx start) start node := by
  rw [sinks, Sorted.mem_ofList, List.mem_filterMap]
  refine ⟨?_, ?_⟩
  · rintro ⟨path, hpath, hlast⟩
    obtain ⟨htrail, sink, hsink, hisSink⟩ := (hpaths path).mp hpath
    cases hlast.symm.trans hsink
    rw [← List.head?_reverse, List.head?_eq_some_iff] at hlast
    obtain ⟨rest, hrest⟩ := hlast
    rw [hrest] at htrail
    exact ⟨hisSink, htrail.reach⟩
  · rintro ⟨hisSink, hreach⟩
    obtain ⟨rest, htrail⟩ := Search.Trail.exists_of_reach hreach
    have hlast : (node :: rest).reverse.getLast? = some node := by simp
    refine ⟨(node :: rest).reverse, (hpaths _).mpr ⟨?_, node, hlast, hisSink⟩, hlast⟩
    rwa [List.reverse_reverse]

/-- A summary without paths is one without sinks. -/
theorem SinkSummary.isEmpty_eq_false_iff {summary : SinkSummary}
    (hpaths : ∀ path ∈ summary.paths, ∃ sink, path.getLast? = some sink) :
    summary.isEmpty = false ↔ ∃ sink, sink ∈ summary.sinks := by
  have hsinks : ∀ sink, sink ∈ summary.sinks ↔
      ∃ path ∈ summary.paths, path.getLast? = some sink := by
    intro sink
    rw [sinks, Sorted.mem_ofList, List.mem_filterMap]
  rw [isEmpty, List.isEmpty_eq_false_iff_exists_mem]
  refine ⟨?_, ?_⟩
  · rintro ⟨path, hpath⟩
    obtain ⟨sink, hsink⟩ := hpaths path hpath
    exact ⟨sink, (hsinks sink).mpr ⟨path, hpath, hsink⟩⟩
  · rintro ⟨sink, hsink⟩
    obtain ⟨path, hpath, -⟩ := (hsinks sink).mp hsink
    exact ⟨path, hpath⟩

/-- A path starts at the source and then keeps to expressions of its method that are no
    barriers. -/
theorem SinkSummary.path_inside (hu : cx.unit.Accepted) (hstart : start ∈ Node.attached cx.unit)
    {path : List Node} (htrail : Search.Trail (spec.LocalStep cx start) start path.reverse) :
    path.head? = some start ∧ ∀ node ∈ path.tail,
      spec.isBarrier cx node = false ∧ ∃ id method, node = .expression id ∧
        spec.Reaches cx start id ∧ start.enclosingMethod? cx.unit = some method ∧
        method ∈ cx.unit.tree.ancestors id := by
  obtain ⟨later, heq⟩ := htrail.start_suffix
  have hpath : path = start :: later.reverse := by
    rw [← List.reverse_reverse path, ← heq]
    simp
  refine ⟨by rw [hpath]; rfl, ?_⟩
  intro node hnode
  have hne : node ≠ start := by
    have hnodup := List.nodup_reverse.mp htrail.nodup
    rw [hpath] at hnode hnodup
    rintro rfl
    exact (List.nodup_cons.mp hnodup).1 hnode
  rcases htrail.exists_step (List.mem_reverse.mpr (List.mem_of_mem_tail hnode)) with
    heq | ⟨before, hsuccessor, hbarrier, hreaches⟩
  · exact absurd heq hne
  · obtain ⟨id, rfl, -⟩ := FlowSpec.successors_space hu hsuccessor
    obtain ⟨method, hmethod, hmem⟩ := (hreaches id rfl).mem_ancestors hu hstart
    exact ⟨hbarrier, id, method, rfl, hreaches id rfl, hmethod, hmem⟩

/-- What is found from a source is its summary, if that is not empty. -/
theorem findSinks_eq_ok (hu : cx.unit.Accepted) (hstart : start ∈ Node.attached cx.unit)
    (hflow : ∀ method, start.enclosingMethod? cx.unit = some method →
      ∃ flow, ControlFlow.build cx.unit method = .ok flow)
    (hsource : spec.isSource cx start = true) :
    ∃ summary : SinkSummary,
      findSinks spec cx start = .ok (if summary.isEmpty then none else some summary) ∧
      ∀ path, path ∈ summary.paths ↔
        Search.Trail (spec.LocalStep cx start) start path.reverse ∧
          ∃ sink, path.getLast? = some sink ∧ spec.isSink cx sink = true := by
  obtain ⟨reachable, hreachable, hmem⟩ := exists_reachableExpressions spec hflow
  refine ⟨_, ?_, SinkSummary.mem_paths_iff_local hu hstart hmem⟩
  rw [findSinks, if_pos hsource, hreachable]

/-- Local analysis is exact: it reports the sinks that the source gets to without entering
    a barrier or leaving what control reaches, by all trails that lead to them. -/
theorem findSinks_exact (hu : cx.unit.Accepted) (hstart : start ∈ Node.attached cx.unit)
    (hflow : ∀ method, start.enclosingMethod? cx.unit = some method →
      ∃ flow, ControlFlow.build cx.unit method = .ok flow) :
    ∃ result, findSinks spec cx start = .ok result ∧
      (result.isSome = true ↔ spec.isSource cx start = true ∧
        ∃ sink, spec.isSink cx sink = true ∧
          Relation.ReflTransGen (spec.LocalStep cx start) start sink) ∧
      ∀ summary, result = some summary →
        (∀ node, node ∈ summary.sinks ↔ spec.isSink cx node = true ∧
          Relation.ReflTransGen (spec.LocalStep cx start) start node) ∧
        (∀ path, path ∈ summary.paths ↔
          Search.Trail (spec.LocalStep cx start) start path.reverse ∧
            ∃ sink, path.getLast? = some sink ∧ spec.isSink cx sink = true) ∧
        ∀ path ∈ summary.paths, path.head? = some start ∧ ∀ node ∈ path.tail,
          spec.isBarrier cx node = false ∧ ∃ id method, node = .expression id ∧
            spec.Reaches cx start id ∧ start.enclosingMethod? cx.unit = some method ∧
            method ∈ cx.unit.tree.ancestors id := by
  by_cases hsource : spec.isSource cx start = true
  · obtain ⟨summary, hfind, hpaths⟩ := findSinks_eq_ok hu hstart hflow hsource
    have hsinks := SinkSummary.mem_sinks_iff hpaths
    have hnonempty : summary.isEmpty = false ↔ ∃ sink, sink ∈ summary.sinks := by
      refine SinkSummary.isEmpty_eq_false_iff ?_
      intro path hpath
      obtain ⟨-, sink, hsink, -⟩ := (hpaths path).mp hpath
      exact ⟨sink, hsink⟩
    simp only [hsinks] at hnonempty
    refine ⟨_, hfind, ?_, ?_⟩
    · cases hempty : summary.isEmpty with
      | true => simp [← hnonempty, hempty]
      | false => simp [← hnonempty, hempty, hsource]
    · intro other hother
      split at hother
      · cases hother
      · cases hother
        exact ⟨hsinks, hpaths, fun path hpath =>
          SinkSummary.path_inside hu hstart ((hpaths path).mp hpath).1⟩
  · refine ⟨none, by rw [findSinks, if_neg hsource], by simp [hsource], ?_⟩
    intro summary hsome
    cases hsome

/-- A specification that follows parameters to returned values. -/
def parameterToReturn : FlowSpec :=
  { FlowSpec.nothing with
    isSource := fun _ node => node.isParameter
    isSink := fun cx node => node.isReturned cx.unit }

/-- In the small unit the parameter of `id` is found to reach what `id` returns. -/
theorem findSinks_relayUnit :
    ∃ summary, findSinks parameterToReturn relayContext (.parameter ⟨3⟩) =
        .ok (some summary) ∧
      Node.expression ⟨6⟩ ∈ summary.sinks ∧
      ∀ node, node ∈ summary.sinks ↔ node.isReturned relayUnit = true ∧ Relation.ReflTransGen
        (parameterToReturn.LocalStep relayContext (.parameter ⟨3⟩)) (.parameter ⟨3⟩) node := by
  have hmethod : (Node.parameter ⟨3⟩).enclosingMethod? relayUnit = some ⟨2⟩ := by decide +kernel
  obtain ⟨result, hfind, -, hall⟩ :=
    @findSinks_exact parameterToReturn relayContext (.parameter ⟨3⟩) relayUnit_accepted
      (by decide +kernel) (by
        intro method hsome
        cases hmethod.symm.trans hsome
        exact ⟨_, eq_ok_get (by decide +kernel)⟩)
  have hsinks : (findSinks parameterToReturn relayContext (.parameter ⟨3⟩)).toOption.map
      (·.map SinkSummary.sinks) = some (some [.expression ⟨6⟩]) := by decide +kernel
  rw [hfind] at hsinks
  cases result with
  | none => cases hsinks
  | some summary =>
    have heq : summary.sinks = [.expression ⟨6⟩] := Option.some.inj (Option.some.inj hsinks)
    exact ⟨summary, hfind, by simp [heq], (hall summary rfl).1⟩

end Local

end ValueFlow
