/-
  ValueFlow.Proofs.ListedPaths

  Which paths a summary lists, and in which order.

  A walk starts at the root and goes along edges, through the root and nodes that control
  gets to. The listed paths are the walks to sinks that come to no node twice. They are
  listed in the lexicographic order of their nodes, and cutting the detours out of a walk
  leaves one of them.
-/

import Mathlib.Data.List.Chain
import Mathlib.Data.List.Lex
import ValueFlow.Proofs.GraphOperations
import ValueFlow.Proofs.LocalPaths

namespace ValueFlow

namespace SinkSummary

/-! ## Walks -/

/-- A walk from the root along edges, through the root, parameters, and expressions that
    control reaches. It may come to a node again. -/
structure IsWalk (graph : FlowGraph) (root : VertexId) (reachable : List ElementId)
    (walk : List Node) : Prop where
  starts : walk.head? = graph.node? root
  follows : walk.IsChain fun node next => next ∈ graph.children node
  stays : ∀ node ∈ walk, graph.node? root = some node ∨ admits reachable node = true

/-- A step of such a walk. -/
def Passes (graph : FlowGraph) (reachable : List ElementId) (start node next : Node) : Prop :=
  next ∈ graph.children node ∧ (start = next ∨ admits reachable next = true)

section Walks

variable {graph : FlowGraph} {isSink : Node → Bool} {root : VertexId}
  {reachable : List ElementId} {start : Node}

theorem isWalk_iff (hroot : graph.node? root = some start) {walk : List Node} :
    IsWalk graph root reachable walk ↔
      walk.head? = some start ∧ walk.IsChain (Passes graph reachable start) := by
  refine ⟨?_, ?_⟩
  · rintro ⟨hstarts, hfollows, hstays⟩
    refine ⟨hstarts.trans hroot, hfollows.imp_of_mem_imp ?_⟩
    intro node next _ hnext hchild
    have hstay := hstays next hnext
    rw [hroot, Option.some_inj] at hstay
    exact ⟨hchild, hstay⟩
  · rintro ⟨hhead, hchain⟩
    refine ⟨hhead.trans hroot.symm, hchain.imp fun _ _ hstep => hstep.1, ?_⟩
    rw [hroot]
    simp only [Option.some_inj]
    refine hchain.induction (fun node => start = node ∨ admits reachable node = true) _
      (fun _ _ hstep _ => hstep.2) fun hne => Or.inl ?_
    rw [List.head?_eq_some_head hne] at hhead
    exact (Option.some.inj hhead).symm

/-- A walk that comes to no node twice does not come back to its start. -/
theorem trail_passes_iff {trail : List Node} :
    Search.Trail (Passes graph reachable start) start trail ↔
      Search.Trail (Follow graph reachable) start trail := by
  refine ⟨fun h => ?_, fun h => h.imp fun _ _ _ hstep => ⟨hstep.1, Or.inr hstep.2⟩⟩
  induction h with
  | start => exact .start
  | step hold hstep hnew ih =>
    refine .step ih ⟨hstep.1, hstep.2.resolve_left ?_⟩ hnew
    rintro rfl
    exact hnew hold.start_mem

/-- A trail, read from its start, is a walk that comes to no node twice. -/
theorem trail_reverse_iff (hroot : graph.node? root = some start) {path : List Node} :
    Search.Trail (Follow graph reachable) start path.reverse ↔
      IsWalk graph root reachable path ∧ path.Nodup := by
  rw [← trail_passes_iff, Search.Trail.iff_isChain, List.getLast?_reverse, List.isChain_reverse,
    List.nodup_reverse, isWalk_iff hroot, and_assoc]

/-- The listed paths are the walks to sinks that come to no node twice. -/
theorem mem_paths_iff_walk (hwf : graph.WellFormed) {path : List Node} :
    path ∈ (compute graph isSink root reachable).paths ↔
      IsWalk graph root reachable path ∧ path.Nodup ∧
        ∃ sink, path.getLast? = some sink ∧ isSink sink = true := by
  cases hroot : graph.node? root with
  | some start => rw [mem_paths_iff hwf hroot, trail_reverse_iff hroot, and_assoc]
  | none =>
    -- Without a root no path is listed, and the only walk is empty.
    refine ⟨fun hpath => ?_, ?_⟩
    · rw [compute] at hpath
      cases hsize : graph.size with
      | zero =>
        rw [hsize] at hpath
        cases hpath
      | succ bound =>
        rw [hsize, pathsFrom, hroot] at hpath
        cases hpath
    · rintro ⟨⟨hhead, -, -⟩, -, sink, hlast, -⟩
      rw [hroot, List.head?_eq_none_iff] at hhead
      rw [hhead] at hlast
      cases hlast

/-- A walk can be shortened to one that comes to no node twice. -/
theorem exists_nodup_walk {walk : List Node} (h : IsWalk graph root reachable walk) {last : Node}
    (hlast : walk.getLast? = some last) :
    ∃ path, IsWalk graph root reachable path ∧ path.Nodup ∧ path.getLast? = some last := by
  obtain ⟨start, hstart⟩ : ∃ start, walk.head? = some start := by
    cases walk with
    | nil => cases hlast
    | cons start rest => exact ⟨start, rfl⟩
  have hroot : graph.node? root = some start := h.starts.symm.trans hstart
  obtain ⟨rest, rfl⟩ := List.head?_eq_some_iff.mp hstart
  have hreach : Relation.ReflTransGen (Passes graph reachable start) start last := by
    refine List.relationReflTransGen_of_exists_isChain_cons rest ((isWalk_iff hroot).mp h).2 ?_
    rwa [List.getLast?_eq_some_getLast (List.cons_ne_nil _ _), Option.some_inj] at hlast
  obtain ⟨before, htrail⟩ := Search.Trail.exists_of_reach hreach
  refine ⟨(last :: before).reverse, ?_⟩
  rw [trail_passes_iff, ← List.reverse_reverse (last :: before), trail_reverse_iff hroot] at htrail
  exact ⟨htrail.1, htrail.2, by simp⟩

/-! ## The order of the paths -/

/-- The lexicographic order by nodes, in which a path comes before those that extend it. -/
def Earlier (path other : List Node) : Prop := List.Lex (fun a b => compare a b = .lt) path other

theorem Earlier.ne {path other : List Node} (h : Earlier path other) : path ≠ other :=
  List.Lex.to_ne (List.Lex.imp (fun _ _ => Sorted.ne_of_lt) _ _ h)

theorem earlier_of_extends {path : List Node} {node : Node} {other : List Node}
    (h : path ++ [node] <+: other) : Earlier path other := by
  obtain ⟨rest, rfl⟩ := h
  have hnil : List.Lex (fun a b : Node => compare a b = .lt) [] (node :: rest) := .nil
  simpa [Earlier] using hnil.append_left _ path

theorem earlier_of_branch {path : List Node} {a b : Node} (hlt : compare a b = .lt)
    {other later : List Node} (ha : path ++ [a] <+: other) (hb : path ++ [b] <+: later) :
    Earlier other later := by
  obtain ⟨rest, rfl⟩ := ha
  obtain ⟨restLater, rfl⟩ := hb
  have hrel : List.Lex (fun a b : Node => compare a b = .lt) (a :: rest) (b :: restLater) :=
    .rel hlt
  simpa [Earlier] using hrel.append_left _ path

/-- The paths from a vertex go on from the trail with the node of the vertex. -/
theorem trail_prefix_of_mem_pathsFrom (bound : Nat) {trail : List (VertexId × Node)}
    {id : VertexId} {path : List Node}
    (h : path ∈ pathsFrom graph isSink root reachable bound trail id) :
    ∃ node ∈ graph.node? id, (trail.map (·.2)).reverse ++ [node] <+: path := by
  induction bound generalizing trail id with
  | zero => cases h
  | succ bound ih =>
    rw [pathsFrom] at h
    split at h
    · cases h
    · next node hnode =>
      refine ⟨node, hnode, ?_⟩
      split at h
      · rcases List.mem_append.mp h with hends | hgoes
        · split at hends
          · have hpath := List.mem_singleton.mp hends
            rw [List.map_cons, List.reverse_cons] at hpath
            exact hpath ▸ List.prefix_refl _
          · cases hends
        · obtain ⟨next, -, hrest⟩ := List.mem_flatMap.mp hgoes
          split at hrest
          · cases hrest
          · obtain ⟨other, -, hother⟩ := ih hrest
            rw [List.map_cons, List.reverse_cons] at hother
            exact (List.prefix_append _ _).trans hother
      · cases h

/-- Depth first through increasing targets, paths are listed in their order. -/
theorem pairwise_pathsFrom (hwf : graph.WellFormed) (bound : Nat)
    (trail : List (VertexId × Node)) (id : VertexId) :
    (pathsFrom graph isSink root reachable bound trail id).Pairwise Earlier := by
  induction bound generalizing trail id with
  | zero => exact .nil
  | succ bound ih =>
    rw [pathsFrom]
    split
    · exact .nil
    · next node hnode =>
      split
      · -- What goes on at a target extends the path to here with the node of the target.
        have hextends : ∀ next, ∀ path ∈ (if ((id, node) :: trail).any (fun step => step.1 == next)
            then [] else pathsFrom graph isSink root reachable bound ((id, node) :: trail) next),
            ∃ child ∈ graph.node? next,
              (((id, node) :: trail).map (·.2)).reverse ++ [child] <+: path := by
          intro next path hpath
          split at hpath
          · cases hpath
          · exact trail_prefix_of_mem_pathsFrom bound hpath
        rw [List.pairwise_append, List.pairwise_flatMap]
        refine ⟨?_, ⟨?_, ?_⟩, ?_⟩
        · split
          · exact List.pairwise_singleton _ _
          · exact .nil
        · intro next _
          split
          · exact .nil
          · exact ih _ next
        · refine (hwf.pairwise_targets hnode).imp ?_
          intro a b hlt path hpath other hother
          obtain ⟨x, hx, hpath⟩ := hextends a path hpath
          obtain ⟨y, hy, hother⟩ := hextends b other hother
          exact earlier_of_branch (hlt x hx y hy) hpath hother
        · intro path hpath other hother
          obtain ⟨next, -, hother⟩ := List.mem_flatMap.mp hother
          obtain ⟨child, -, hchild⟩ := hextends next other hother
          split at hpath
          · rw [List.mem_singleton.mp hpath]
            exact earlier_of_extends hchild
          · cases hpath
      · exact .nil

/-- A summary lists each walk to a sink that comes to no node twice, once and in the order
    of its nodes. Its sinks are those that any walk comes to, and its participants are the
    nodes of the listed paths. -/
theorem compute_lists_simple_walks (hwf : graph.WellFormed) :
    (∀ path, path ∈ (compute graph isSink root reachable).paths ↔
        IsWalk graph root reachable path ∧ path.Nodup ∧
          ∃ sink, path.getLast? = some sink ∧ isSink sink = true) ∧
      (compute graph isSink root reachable).paths.Pairwise Earlier ∧
      (compute graph isSink root reachable).paths.Nodup ∧
      (∀ node, node ∈ (compute graph isSink root reachable).sinks ↔ isSink node = true ∧
        ∃ walk, IsWalk graph root reachable walk ∧ walk.getLast? = some node) ∧
      ∀ node, node ∈ (compute graph isSink root reachable).participants ↔
        ∃ path ∈ (compute graph isSink root reachable).paths, node ∈ path := by
  have hordered : (compute graph isSink root reachable).paths.Pairwise Earlier :=
    pairwise_pathsFrom hwf graph.size [] root
  refine ⟨fun path => mem_paths_iff_walk hwf, hordered, hordered.imp Earlier.ne,
    fun node => ?_, fun node => ?_⟩
  · rw [sinks, Sorted.mem_ofList, List.mem_filterMap]
    refine ⟨?_, ?_⟩
    · rintro ⟨path, hpath, hlast⟩
      obtain ⟨hwalk, -, sink, hsink, hisSink⟩ := (mem_paths_iff_walk hwf).mp hpath
      cases hlast.symm.trans hsink
      exact ⟨hisSink, path, hwalk, hlast⟩
    · rintro ⟨hisSink, walk, hwalk, hlast⟩
      obtain ⟨path, hpath, hnodup, hend⟩ := exists_nodup_walk hwalk hlast
      exact ⟨path, (mem_paths_iff_walk hwf).mpr ⟨hpath, hnodup, node, hend, hisSink⟩, hend⟩
  · rw [participants, Sorted.mem_ofList, List.mem_flatten]

/-- A parameter and two expressions on a circle, and a step across it. -/
def circle : FlowGraph where
  vertices := [⟨.parameter ⟨1⟩, [(.expression ⟨3⟩, ⟨2⟩), (.expression ⟨4⟩, ⟨1⟩)]⟩,
    ⟨.expression ⟨4⟩, [(.expression ⟨3⟩, ⟨2⟩)]⟩, ⟨.expression ⟨3⟩, [(.parameter ⟨1⟩, ⟨0⟩)]⟩]
  byNode := [(.expression ⟨3⟩, ⟨2⟩), (.expression ⟨4⟩, ⟨1⟩), (.parameter ⟨1⟩, ⟨0⟩)]
  frozen := false

theorem wellFormed_circle : circle.WellFormed := by
  refine FlowGraph.wellFormed_afterAll
    [.modify 0 (.vertexFor (.parameter ⟨1⟩)), .modify 0 (.vertexFor (.expression ⟨4⟩)),
      .modify 0 (.vertexFor (.expression ⟨3⟩)), .modify 0 (.addEdge ⟨0⟩ ⟨1⟩),
      .modify 0 (.addEdge ⟨1⟩ ⟨2⟩), .modify 0 (.addEdge ⟨2⟩ ⟨0⟩), .modify 0 (.addEdge ⟨0⟩ ⟨2⟩)]
    circle ?_
  decide

/-- The walk once round the circle and on leads to the sink of the two listed paths. -/
theorem compute_lists_simple_walks_circle :
    (compute circle (· == .expression ⟨3⟩) ⟨0⟩ [⟨3⟩, ⟨4⟩]).paths =
        [[.parameter ⟨1⟩, .expression ⟨3⟩],
          [.parameter ⟨1⟩, .expression ⟨4⟩, .expression ⟨3⟩]] ∧
      IsWalk circle ⟨0⟩ [⟨3⟩, ⟨4⟩] [.parameter ⟨1⟩, .expression ⟨4⟩, .expression ⟨3⟩,
        .parameter ⟨1⟩, .expression ⟨3⟩] ∧
      Node.expression ⟨3⟩ ∈
        (compute circle (· == .expression ⟨3⟩) ⟨0⟩ [⟨3⟩, ⟨4⟩]).sinks := by
  have hwalk : IsWalk circle ⟨0⟩ [⟨3⟩, ⟨4⟩] [.parameter ⟨1⟩, .expression ⟨4⟩, .expression ⟨3⟩,
      .parameter ⟨1⟩, .expression ⟨3⟩] := ⟨by decide, by decide, by decide⟩
  obtain ⟨-, -, -, hsinks, -⟩ :=
    @compute_lists_simple_walks circle (· == .expression ⟨3⟩) ⟨0⟩ [⟨3⟩, ⟨4⟩] wellFormed_circle
  exact ⟨by decide, hwalk, (hsinks _).mpr ⟨rfl, _, hwalk, rfl⟩⟩

end Walks

end SinkSummary
end ValueFlow
