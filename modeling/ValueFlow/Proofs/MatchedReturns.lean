/-
  ValueFlow.Proofs.MatchedReturns

  Returned values do not leak into calls that have nothing to do with them.

  What is left of the graph for a source is read without a stack of calls, while the walk
  that dropped the returns had one. The walk arrives at every node that can be reached over
  what it leaves: each node is gone on from once, over all that its first arrival allows,
  and what is left is allowed by every arrival. So a return that is left was allowed at some
  arrival, and the calls that were entered on the way to it are known.
-/

import ValueFlow.Proofs.CallContexts

namespace ValueFlow
namespace Prune

variable {u : CompilationUnit} {graph : FlowGraph}

/-! ## The walk arrives everywhere -/

namespace Trace

/-- A later point of a walk, where nothing is forgotten. -/
structure Extends (trace later : Trace) : Prop where
  visited : trace.visited ⊆ later.visited
  arrivals : trace.arrivals ⊆ later.arrivals

theorem Extends.refl (trace : Trace) : trace.Extends trace :=
  ⟨List.Subset.refl _, List.Subset.refl _⟩

theorem Extends.trans {first second third : Trace} (h : first.Extends second)
    (h' : second.Extends third) : first.Extends third :=
  ⟨List.Subset.trans h.visited h'.visited, List.Subset.trans h.arrivals h'.arrivals⟩

theorem extends_arrive (trace : Trace) (node : Node) (entered : List ElementId) :
    trace.Extends (trace.arrive node entered) :=
  ⟨List.Subset.refl _, List.subset_cons_self _ _⟩

theorem extends_visit (trace : Trace) (node : Node) (entered : List ElementId) :
    trace.Extends (trace.visit node entered) :=
  ⟨List.subset_cons_self _ _, List.subset_cons_self _ _⟩

/-- The walk arrived at a node and went on over all that this arrival allows. -/
def Settled (u : CompilationUnit) (next : Node → List Node) (trace : Trace) (node : Node) :
    Prop :=
  ∃ entered, (node, entered) ∈ trace.arrivals ∧
    ∀ child ∈ next node, mayFollow u entered node child = true → child ∈ trace.visited

theorem Settled.mono {next : Node → List Node} {trace later : Trace} {node : Node}
    (h : trace.Settled u next node) (hlater : trace.Extends later) :
    later.Settled u next node := by
  obtain ⟨entered, harrival, hchildren⟩ := h
  exact ⟨entered, hlater.arrivals harrival,
    fun child hchild hfollow => hlater.visited (hchildren child hchild hfollow)⟩

/-- A walk within a space of nodes: every node visited is settled, unless the walk is still
    going on behind it. -/
structure Covers (u : CompilationUnit) (next : Node → List Node) (space opened : List Node)
    (trace : Trace) : Prop where
  nodup : trace.visited.Nodup
  space : trace.visited ⊆ space
  settled : ∀ node ∈ trace.visited, node ∈ opened ∨ trace.Settled u next node

namespace Covers

variable {next : Node → List Node} {space opened : List Node} {trace : Trace} {node : Node}

theorem length_le (h : trace.Covers u next space opened) :
    trace.visited.length ≤ space.length :=
  (List.subperm_of_subset h.nodup h.space).length_le

theorem arrive (h : trace.Covers u next space opened) (node : Node)
    (entered : List ElementId) : (trace.arrive node entered).Covers u next space opened := by
  refine ⟨h.nodup, h.space, fun other hother => ?_⟩
  exact (h.settled other hother).imp_right (·.mono (trace.extends_arrive node entered))

/-- A node is open from the first arrival on. -/
theorem visit (h : trace.Covers u next space opened) (hnode : node ∈ space)
    (hnew : node ∉ trace.visited) (entered : List ElementId) :
    (trace.visit node entered).Covers u next space (node :: opened) := by
  refine ⟨List.nodup_cons.mpr ⟨hnew, h.nodup⟩, List.cons_subset.mpr ⟨hnode, h.space⟩, ?_⟩
  intro other hother
  rcases List.mem_cons.mp hother with rfl | hother
  · exact Or.inl List.mem_cons_self
  · exact (h.settled other hother).imp (List.mem_cons_of_mem _)
      (·.mono (trace.extends_visit node entered))

/-- A node that is settled need not stay open. -/
theorem close (h : trace.Covers u next space (node :: opened))
    (hdone : trace.Settled u next node) : trace.Covers u next space opened := by
  refine ⟨h.nodup, h.space, fun other hother => ?_⟩
  rcases h.settled other hother with hopen | hsettled
  · rcases List.mem_cons.mp hopen with rfl | hopen
    · exact Or.inr hdone
    · exact Or.inl hopen
  · exact Or.inr hsettled

end Covers
end Trace

section Walk

variable {next : Node → List Node} {space opened : List Node}

/-- Walking on from several nodes, if it is so for each of them once enough was visited. -/
theorem Trace.Covers.foldl {walkOn : Trace → Node → Trace} {least : Nat}
    (hstep : ∀ trace node, node ∈ space → least ≤ trace.visited.length →
      trace.Covers u next space opened → (walkOn trace node).Covers u next space opened ∧
        trace.Extends (walkOn trace node) ∧ node ∈ (walkOn trace node).visited)
    {nodes : List Node} (hnodes : nodes ⊆ space) {trace : Trace}
    (hleast : least ≤ trace.visited.length) (h : trace.Covers u next space opened) :
    (nodes.foldl walkOn trace).Covers u next space opened ∧
      trace.Extends (nodes.foldl walkOn trace) ∧
      ∀ node ∈ nodes, node ∈ (nodes.foldl walkOn trace).visited := by
  induction nodes generalizing trace with
  | nil => exact ⟨h, .refl trace, by simp⟩
  | cons node nodes ih =>
    obtain ⟨hnode, hrest⟩ := List.cons_subset.mp hnodes
    obtain ⟨hcovers, hextends, hvisited⟩ := hstep trace node hnode hleast h
    have hlength : trace.visited.length ≤ (walkOn trace node).visited.length :=
      (List.subperm_of_subset h.nodup hextends.visited).length_le
    obtain ⟨hcovers', hextends', hvisited'⟩ := ih hrest (hleast.trans hlength) hcovers
    refine ⟨hcovers', hextends.trans hextends', ?_⟩
    intro other hother
    rcases List.mem_cons.mp hother with rfl | hother
    · exact hextends'.visited hvisited
    · exact hvisited' other hother

/-- The bound is never met: along the way every node is new, and there are at most as many
    as the space has. -/
theorem Trace.Covers.traceUpTo (hclosed : ∀ node ∈ space, next node ⊆ space) {bound : Nat}
    {entered : List ElementId} {trace : Trace} {node : Node} (hnode : node ∈ space)
    (h : trace.Covers u next space opened)
    (hbound : space.length < bound + trace.visited.length) :
    (traceUpTo u next bound entered trace node).Covers u next space opened ∧
      trace.Extends (traceUpTo u next bound entered trace node) ∧
      node ∈ (traceUpTo u next bound entered trace node).visited := by
  induction bound generalizing entered trace node opened with
  | zero =>
    have hlength := h.length_le
    omega
  | succ bound ih =>
    rw [Prune.traceUpTo]
    by_cases hvisited : node ∈ trace.visited
    · rw [if_pos hvisited]
      exact ⟨h.arrive node entered, trace.extends_arrive node entered, hvisited⟩
    · rw [if_neg hvisited]
      have hchildren : (next node).filter (mayFollow u entered node) ⊆ space :=
        List.Subset.trans (List.filter_subset_self _) (hclosed node hnode)
      -- The node counts as visited for all that lies behind it, which makes up for the
      -- step that was used.
      have hleft : ∀ later : Trace,
          (trace.visit node entered).visited.length ≤ later.visited.length →
          space.length < bound + later.visited.length := by
        intro later hleast
        rw [Trace.visit, List.length_cons] at hleast
        omega
      obtain ⟨hcovers, hextends, hall⟩ :=
        Trace.Covers.foldl (fun later child hchild hleast hlater =>
          @ih (node :: opened) (enters u node ++ entered) later child hchild hlater
            (hleft later hleast)) hchildren le_rfl (h.visit hnode hvisited entered)
      have hdone : Trace.Settled u next _ node :=
        ⟨entered, hextends.arrivals List.mem_cons_self, fun child hchild hfollow =>
          hall child (List.mem_filter.mpr ⟨hchild, hfollow⟩)⟩
      exact ⟨hcovers.close hdone, (trace.extends_visit node entered).trans hextends,
        hextends.visited List.mem_cons_self⟩

end Walk

/-- The walk from a source arrives at whatever can be reached over what it leaves. -/
theorem exists_arrival_of_reach (hwf : graph.WellFormed) {source node : Node}
    (hsource : source ∈ graph.nodes)
    (hreach : Search.Reach (surviving u graph source) source node) :
    ∃ entered, (node, entered) ∈ arrivals u graph source := by
  have hclosed : ∀ x ∈ graph.nodes, graph.children x ⊆ graph.nodes :=
    fun _ _ _ hchild => hwf.mem_nodes_of_child hchild
  have hstart : Trace.Covers u graph.children graph.nodes [] ⟨[], []⟩ :=
    ⟨List.nodup_nil, List.nil_subset _, by simp⟩
  have hbound : graph.nodes.length < graph.size + 1 + 0 := by
    rw [FlowGraph.nodes, List.length_map]
    exact Nat.lt_succ_self _
  obtain ⟨hcovers, -, hvisited⟩ :=
    @Trace.Covers.traceUpTo u _ _ [] hclosed (graph.size + 1) [] _ source hsource hstart hbound
  have hsettled := fun x hx => (hcovers.settled x hx).resolve_left List.not_mem_nil
  -- What is left is allowed by every arrival, so by the one that was gone on from.
  have hmem := hreach.mem_of_closed (fun x hx child hchild => ?_) hvisited
  · obtain ⟨entered, harrival, -⟩ := hsettled node hmem
    exact ⟨entered, harrival⟩
  · obtain ⟨entered, harrival, hchildren⟩ := hsettled x hx
    obtain ⟨hedge, hmatched⟩ := mem_surviving_iff.mp hchild
    exact hchildren child hedge (mayFollow_iff.mpr fun hreturned hcall =>
      hmatched hreturned hcall entered harrival)

/-! ## The calls entered on the way -/

theorem mem_enters_iff {node : Node} {call : ElementId} :
    call ∈ enters u node ↔ ∃ place, node.argumentOf? u = some (call, place) := by
  rw [enters, Option.mem_toList, Option.map_eq_some_iff]
  constructor
  · rintro ⟨⟨_, place⟩, hargument, rfl⟩
    exact ⟨place, hargument⟩
  · rintro ⟨place, hargument⟩
    exact ⟨_, hargument, rfl⟩

theorem enters_eq_nil_iff {node : Node} : enters u node = [] ↔ node.argumentOf? u = none := by
  rw [enters, Option.toList_eq_nil_iff, Option.map_eq_none_iff]

namespace Arrival

variable {next : Node → List Node} {source node : Node} {entered : List ElementId}

theorem reach (h : Arrival u next source entered node) : Search.Reach next source node := by
  induction h with
  | start => exact .refl
  | step _ hchild ih => exact ih.tail hchild

/-- A call is entered by one of its arguments. -/
theorem exists_argument (h : Arrival u next source entered node) {call : ElementId}
    (hcall : call ∈ entered) :
    ∃ argument place, argument.argumentOf? u = some (call, place) ∧
      Search.Reach next source argument := by
  induction h with
  | start => cases hcall
  | @step entered node child hway hchild ih =>
    rcases List.mem_append.mp hcall with hnow | hbefore
    · obtain ⟨place, hargument⟩ := mem_enters_iff.mp hnow
      exact ⟨node, place, hargument, hway.reach⟩
    · exact ih hbefore

/-- Where no call is entered, no argument lies before the node. -/
theorem exists_path_of_nil (h : Arrival u next source [] node) :
    ∃ before, (before ++ [node]).head? = some source ∧
      (before ++ [node]).IsChain (fun x child => child ∈ next x) ∧
      ∀ x ∈ before, x.argumentOf? u = none := by
  generalize hnil : ([] : List ElementId) = entered at h
  induction h with
  | start => exact ⟨[], rfl, .singleton _, by simp⟩
  | @step entered node child hway hchild ih =>
    obtain ⟨hnow, hbefore⟩ := List.append_eq_nil_iff.mp hnil.symm
    obtain ⟨before, hhead, hchain, harguments⟩ := ih hbefore.symm
    refine ⟨before ++ [node], ?_, ?_, ?_⟩
    · rw [List.head?_append, hhead]
      rfl
    · refine List.isChain_append.mpr ⟨hchain, .singleton _, ?_⟩
      simpa using hchild
    · intro x hx
      rcases List.mem_append.mp hx with hx | hx
      · exact harguments x hx
      · obtain rfl := List.mem_singleton.mp hx
        exact enters_eq_nil_iff.mp hnow

end Arrival

/-- A returned value that a source reaches in its copy of the graph flows back there only to
    a method call with an argument that the source reaches too, unless the source reaches it
    without passing an argument. -/
theorem returns_reach_entered_calls {spec : FlowSpec} {cx : FlowContext}
    (hu : cx.unit.Accepted) :
    let flow := ScannedFlow.ofUnit spec cx
    let graph := dropCallSteps spec cx flow
    ∀ id ∈ flow.sources, ∀ source, graph.node? id = some source → ∀ returned call,
      Search.Reach (forSource cx.unit graph id).children source returned →
      call ∈ (forSource cx.unit graph id).children returned →
      returned.isReturned cx.unit = true → isMethodCall cx.unit call = true →
      (∃ argument place, argument.argumentOf? cx.unit = some (call.id, place) ∧
        Search.Reach graph.children source argument) ∨
      ∃ before, (before ++ [returned]).head? = some source ∧
        (before ++ [returned]).IsChain (fun node child => child ∈ graph.children node) ∧
        ∀ node ∈ before, node.argumentOf? cx.unit = none := by
  intro flow graph id _ source hsource returned call hreach hedge hreturned hcall
  have hscan := (ScannedFlow.ofUnit_faithful spec hu).toWellFormed
  obtain ⟨hwf, -, -⟩ := dropCallSteps_spec spec cx hscan
  obtain ⟨-, -, hchildren⟩ := @forSource_spec cx.unit graph hwf id source hsource
  rw [hchildren] at hedge
  rw [funext hchildren] at hreach
  obtain ⟨entered, harrival⟩ :=
    exists_arrival_of_reach hwf (FlowGraph.mem_nodes_iff.mpr ⟨id, hsource⟩) hreach
  have hway := arrival_of_mem_arrivals harrival
  -- The edge is left, so this arrival allowed it.
  rcases (mem_surviving_iff.mp hedge).2 hreturned hcall entered harrival with rfl | hentered
  · exact Or.inr hway.exists_path_of_nil
  · exact Or.inl (hway.exists_argument hentered)

/-- The literal reaches the returned read of the parameter of `id`, which flows back to the
    call that the literal is an argument of. -/
theorem returns_reach_entered_calls_relayUnit :
    let spec := literalTo (.expression ⟨10⟩)
    let flow := ScannedFlow.ofUnit spec relayContext
    let graph := dropCallSteps spec relayContext flow
    relayUnit.Accepted ∧ ∃ id ∈ flow.sources, graph.node? id = some (.expression ⟨11⟩) ∧
      Search.Reach (forSource relayUnit graph id).children (.expression ⟨11⟩)
        (.expression ⟨6⟩) ∧
      Node.expression ⟨10⟩ ∈ (forSource relayUnit graph id).children (.expression ⟨6⟩) ∧
      (Node.expression ⟨6⟩).isReturned relayUnit = true ∧
      isMethodCall relayUnit (.expression ⟨10⟩) = true ∧
      ((∃ argument place, argument.argumentOf? relayUnit = some (⟨10⟩, place) ∧
        Search.Reach graph.children (.expression ⟨11⟩) argument) ∨
      ∃ before, (before ++ [Node.expression ⟨6⟩]).head? = some (.expression ⟨11⟩) ∧
        (before ++ [Node.expression ⟨6⟩]).IsChain
          (fun node child => child ∈ graph.children node) ∧
        ∀ node ∈ before, node.argumentOf? relayUnit = none) := by
  intro spec flow graph
  have hreach : Search.Reach (forSource relayUnit graph ⟨3⟩).children (.expression ⟨11⟩)
      (.expression ⟨6⟩) := by
    refine .tail (b := .parameter ⟨3⟩) (.single ?_) ?_
    · show Node.parameter ⟨3⟩ ∈ _
      decide +kernel
    · show Node.expression ⟨6⟩ ∈ _
      decide +kernel
  have hid : (⟨3⟩ : VertexId) ∈ flow.sources := by decide +kernel
  have hsource : graph.node? ⟨3⟩ = some (.expression ⟨11⟩) := by decide +kernel
  have hedge : Node.expression ⟨10⟩ ∈
      (forSource relayUnit graph ⟨3⟩).children (.expression ⟨6⟩) := by decide +kernel
  have hreturned : (Node.expression ⟨6⟩).isReturned relayUnit = true := by decide +kernel
  have hcall : isMethodCall relayUnit (.expression ⟨10⟩) = true := by decide +kernel
  exact ⟨relayUnit_accepted, ⟨3⟩, hid, hsource, hreach, hedge, hreturned, hcall,
    @returns_reach_entered_calls spec relayContext relayUnit_accepted ⟨3⟩ hid _ hsource _ _
      hreach hedge hreturned hcall⟩

end Prune
end ValueFlow
