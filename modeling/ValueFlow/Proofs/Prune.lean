/-
  ValueFlow.Proofs.Prune

  What takes part in a flow, said by nodes.

  The walk that drops returns changes the graph on its way, but the edges that it
  follows from a node are fixed at the first arrival there. So it goes as it would on the
  unchanged graph, and the graph that it leaves is the unchanged one without the edges
  that some arrival refuses (`Simulates`). The participants are then the nodes between a
  source and a sink along the edges that survive.
-/

import ValueFlow.Proofs.SinkSearch
import ValueFlow.Proofs.Stitching

namespace ValueFlow

namespace Prune

variable {u : CompilationUnit} {graph : FlowGraph}

/-! ## Steps of the widening -/

section DropCallSteps

variable {spec : FlowSpec} {cx : FlowContext}

variable (spec cx) in
/-- The edges of a vertex that stay. -/
def keptTargets (graph : FlowGraph) (id : VertexId) : List VertexId :=
  match graph.vertex? id with
  | none => []
  | some vertex =>
    (vertex.edges.filter fun edge => isKept spec cx vertex.node edge.1).map (·.2)

variable (spec cx) in
/-- Drops the edges of several vertices that do not stay. -/
def dropAll (graph : FlowGraph) (ids : List VertexId) : FlowGraph :=
  ids.foldr (fun id graph => dropAt spec cx graph id) graph

theorem targets_dropAt (id : VertexId) :
    (dropAt spec cx graph id).targets id = keptTargets spec cx graph id := by
  rw [dropAt, keptTargets]
  cases hvertex : graph.vertex? id with
  | none =>
    have hnode : graph.node? id = none := by rw [FlowGraph.node?, hvertex]; rfl
    rw [hnode]
    exact FlowGraph.targets_of_node?_none hnode
  | some vertex =>
    have hnode : graph.node? id = some vertex.node := by rw [FlowGraph.node?, hvertex]; rfl
    simp only [hnode]
    rw [FlowGraph.targets, FlowGraph.filterEdges, FlowGraph.vertex?_modifyEdges, hvertex]
    simp

theorem vertex?_dropAt_of_ne {id other : VertexId} (h : id ≠ other) :
    (dropAt spec cx graph id).vertex? other = graph.vertex? other := by
  rw [dropAt]
  split
  · rfl
  · rw [FlowGraph.filterEdges, FlowGraph.vertex?_modifyEdges]
    simp [h]

/-- The edges of a vertex that was not looked at are still those that it had. -/
theorem keptTargets_dropAll {ids : List VertexId} {id : VertexId} (h : id ∉ ids) :
    keptTargets spec cx (dropAll spec cx graph ids) id = keptTargets spec cx graph id := by
  have hvertex : (dropAll spec cx graph ids).vertex? id = graph.vertex? id := by
    induction ids with
    | nil => rfl
    | cons other ids ih =>
      have hne : other ≠ id := fun heq => h (heq ▸ List.mem_cons_self)
      have hrest : id ∉ ids := fun hmem => h (List.mem_cons_of_mem _ hmem)
      exact (vertex?_dropAt_of_ne hne).trans (ih hrest)
  rw [keptTargets, keptTargets, hvertex]

/-- Dropping edges on the way comes to the same vertices as a search along the edges that
    stay: what a vertex leads to is looked at once, right after its own edges are dropped. -/
theorem dropUpTo_eq (bound : Nat) (visited pending : List VertexId) :
    dropUpTo spec cx bound (dropAll spec cx graph visited) visited pending =
      dropAll spec cx graph
        (Search.expand (keptTargets spec cx graph) bound visited pending) := by
  induction bound generalizing visited pending with
  | zero => rfl
  | succ bound ih =>
    rw [dropUpTo, Search.expand]
    rcases Search.dropWhile_found visited pending with ⟨hnil, -⟩ | ⟨id, rest, hcons, hnew, -⟩
    · rw [hnil]
    · rw [hcons]
      have htargets : (dropAll spec cx graph (id :: visited)).targets id =
          keptTargets spec cx graph id :=
        (targets_dropAt id).trans (keptTargets_dropAll hnew)
      show dropUpTo spec cx bound (dropAll spec cx graph (id :: visited)) (id :: visited)
        ((dropAll spec cx graph (id :: visited)).targets id ++ rest) = _
      rw [htargets]
      exact ih (id :: visited) (keptTargets spec cx graph id ++ rest)

/-- Filtering the edges of several vertices. -/
theorem dropAll_spec (hwf : graph.WellFormed) (ids : List VertexId) :
    (dropAll spec cx graph ids).WellFormed ∧
    (∀ id, (dropAll spec cx graph ids).node? id = graph.node? id) ∧
    ∀ x y, y ∈ (dropAll spec cx graph ids).children x ↔ y ∈ graph.children x ∧
      ((∃ id ∈ ids, graph.node? id = some x) → isKept spec cx x y = true) := by
  induction ids with
  | nil => exact ⟨hwf, fun _ => rfl, by simp [dropAll]⟩
  | cons id ids ih =>
    obtain ⟨hwf', hnodes, hchildren⟩ := ih
    have hcons : dropAll spec cx graph (id :: ids) =
        dropAt spec cx (dropAll spec cx graph ids) id := rfl
    rw [hcons, dropAt, hnodes id]
    cases hnode : graph.node? id with
    | none =>
      refine ⟨hwf', hnodes, fun x y => ?_⟩
      rw [hchildren]
      simp [hnode]
    | some node =>
      have hid := (hnodes id).trans hnode
      refine ⟨hwf'.filterEdges hid, fun other => ?_, fun x y => ?_⟩
      · rw [FlowGraph.node?_filterEdges, hnodes]
      · rw [hwf'.children_filterEdges hid]
        by_cases hx : x = node
        · -- This vertex is the node's own: the test applies whatever else is filtered.
          have hhere : ∃ other ∈ id :: ids, graph.node? other = some x :=
            ⟨id, List.mem_cons_self, hx ▸ hnode⟩
          rw [if_pos hx, List.mem_filter, hchildren, ← hx, and_assoc]
          exact and_congr_right fun _ => ⟨fun h _ => h.2, fun h => ⟨fun _ => h hhere, h hhere⟩⟩
        · rw [if_neg hx, hchildren]
          simp [hnode, Ne.symm hx]

theorem mem_keptTargets_iff (hwf : graph.WellFormed) {id target : VertexId} {node : Node}
    (hnode : graph.node? id = some node) :
    target ∈ keptTargets spec cx graph id ↔
      ∃ child ∈ (graph.children node).filter (isKept spec cx node),
        graph.node? target = some child := by
  obtain ⟨vertex, hvertex, rfl⟩ := FlowGraph.node?_eq_some_iff.mp hnode
  have hresolved := hwf.resolved id vertex hvertex
  rw [hwf.children_eq hnode, FlowGraph.targetNodes, hvertex, keptTargets, hvertex]
  simp only [Option.map_some, Option.getD_some, List.mem_map, List.mem_filter]
  refine ⟨?_, ?_⟩
  · rintro ⟨edge, ⟨hedge, hkept⟩, rfl⟩
    exact ⟨edge.1, ⟨⟨edge, hedge, rfl⟩, hkept⟩, hresolved edge hedge⟩
  · rintro ⟨child, ⟨⟨edge, hedge, rfl⟩, hkept⟩, htarget⟩
    exact ⟨edge, ⟨hedge, hkept⟩, hwf.unique _ _ _ (hresolved edge hedge) htarget⟩

variable (spec cx) in
/-- The children of a node that the sources keep. -/
def keptChildren (graph : FlowGraph) (node : Node) : List Node :=
  (graph.children node).filter (isKept spec cx node)

/-- The vertices from which the steps of the widening are dropped are those of the nodes
    that the sources still reach. -/
theorem exists_mem_closure_iff {flow : ScannedFlow} (h : flow.WellFormed) {x : Node} :
    (∃ id ∈ Search.closure (keptTargets spec cx flow.graph) flow.graph.size flow.sources,
        flow.graph.node? id = some x) ↔
      ∃ source ∈ flow.sourceNodes, Search.Reach (keptChildren spec cx flow.graph) source x := by
  have hclosed : ∀ id ∈ flow.graph.ids, ∀ target ∈ keptTargets spec cx flow.graph id,
      target ∈ flow.graph.ids := by
    intro id hid target htarget
    obtain ⟨node, hnode⟩ := FlowGraph.mem_ids_iff.mp hid
    obtain ⟨child, -, hchild⟩ := (mem_keptTargets_iff h.graph hnode).mp htarget
    exact FlowGraph.mem_ids_iff.mpr ⟨child, hchild⟩
  have hmem : ∀ node, ∀ child ∈ keptChildren spec cx flow.graph node,
      node ∈ flow.graph.nodes := fun node child hchild =>
    h.graph.mem_nodes_of_mem_children (List.mem_filter.mp hchild).1
  have hstep : ∀ id node, flow.graph.node? id = some node → ∀ target,
      target ∈ keptTargets spec cx flow.graph id ↔
        ∃ child ∈ keptChildren spec cx flow.graph node, flow.graph.node? target = some child :=
    fun _ _ hid _ => mem_keptTargets_iff h.graph hid
  simp only [Search.mem_closure_iff h.sources hclosed (Nat.le_of_eq (FlowGraph.length_ids _)),
    ScannedFlow.sourceNodes, List.mem_filterMap]
  refine ⟨?_, ?_⟩
  · rintro ⟨id, ⟨source, hsource, hreach⟩, hid⟩
    obtain ⟨node, hnode⟩ := FlowGraph.mem_ids_iff.mp (h.sources source hsource)
    obtain ⟨other, hother, hotherId⟩ := (h.graph.reach_iff_of_step hmem hstep hnode).mp hreach
    cases hid.symm.trans hotherId
    exact ⟨node, ⟨source, hsource, hnode⟩, hother⟩
  · rintro ⟨node, ⟨source, hsource, hnode⟩, hreach⟩
    have hx : x ∈ flow.graph.nodes := by
      refine hreach.mem_of_closed (P := (· ∈ flow.graph.nodes)) ?_
        (FlowGraph.mem_nodes_iff.mpr ⟨source, hnode⟩)
      exact fun a _ b hb => h.graph.mem_nodes_of_child (List.mem_filter.mp hb).1
    obtain ⟨id, hid⟩ := FlowGraph.mem_nodes_iff.mp hx
    refine ⟨id, ⟨source, hsource, ?_⟩, hid⟩
    exact (h.graph.reach_iff_of_step hmem hstep hnode).mpr ⟨x, hreach, hid⟩

/-- The graph without the steps of the widening: at what the sources reach, edges that are
    not kept are gone. -/
theorem dropCallSteps_spec (spec : FlowSpec) (cx : FlowContext) {flow : ScannedFlow}
    (h : flow.WellFormed) :
    (dropCallSteps spec cx flow).WellFormed ∧
    (∀ id, (dropCallSteps spec cx flow).node? id = flow.graph.node? id) ∧
    ∀ x y, y ∈ (dropCallSteps spec cx flow).children x ↔ y ∈ flow.graph.children x ∧
      ((∃ source ∈ flow.sourceNodes,
          Search.Reach (keptChildren spec cx flow.graph) source x) →
        isKept spec cx x y = true) := by
  have hloop : dropCallSteps spec cx flow = dropAll spec cx flow.graph
      (Search.closure (keptTargets spec cx flow.graph) flow.graph.size flow.sources) :=
    dropUpTo_eq flow.graph.size [] flow.sources
  obtain ⟨hwf', hnodes, hchildren⟩ := @dropAll_spec flow.graph spec cx h.graph
    (Search.closure (keptTargets spec cx flow.graph) flow.graph.size flow.sources)
  simp only [exists_mem_closure_iff h] at hchildren
  rw [hloop]
  exact ⟨hwf', hnodes, hchildren⟩

end DropCallSteps

/-! ## The walk -/

/-- Whether a returned value flows on after these calls were entered; any other value
    does. -/
def mayFollow (u : CompilationUnit) (entered : List ElementId) (source target : Node) : Bool :=
  !(source.isReturned u && !entered.isEmpty) || mayReturnTo u entered target

/-- The call that a node enters, if it is an argument. -/
def enters (u : CompilationUnit) (node : Node) : List ElementId :=
  ((node.argumentOf? u).map (·.1)).toList

theorem dropReturns_spec (hwf : graph.WellFormed) (entered : List ElementId) {id : VertexId}
    {node : Node} (hnode : graph.node? id = some node) :
    (dropReturns u entered id graph).WellFormed ∧
    (∀ other, (dropReturns u entered id graph).node? other = graph.node? other) ∧
    ∀ x, (dropReturns u entered id graph).children x =
      if x = node then (graph.children x).filter (mayFollow u entered node)
      else graph.children x := by
  have hdef : dropReturns u entered id graph =
      if node.isReturned u && !entered.isEmpty then graph.filterEdges id (mayReturnTo u entered)
      else graph := by
    rw [dropReturns, hnode]
  have hfollow : ∀ target, mayFollow u entered node target =
      (!(node.isReturned u && !entered.isEmpty) || mayReturnTo u entered target) :=
    fun _ => rfl
  cases hdrop : node.isReturned u && !entered.isEmpty with
  | true =>
    simp only [hdrop, Bool.not_true, Bool.false_or] at hfollow
    rw [hdef, hdrop, if_pos rfl, funext hfollow]
    exact ⟨hwf.filterEdges hnode, FlowGraph.node?_filterEdges _ _ _,
      hwf.children_filterEdges hnode⟩
  | false =>
    simp only [hdrop, Bool.not_false, Bool.true_or] at hfollow
    rw [hdef, hdrop, if_neg Bool.false_ne_true, funext hfollow]
    exact ⟨hwf, fun _ => rfl, fun x => by simp⟩

/-- A walk over nodes that leaves the graph as it is: the nodes walked so far, and every
    arrival at a node with the calls entered on the way. -/
structure Trace where
  visited : List Node
  arrivals : List (Node × List ElementId)

namespace Trace

/-- Whether no arrival at `source` refuses the edge to `target`. -/
def allows (u : CompilationUnit) (trace : Trace) (source target : Node) : Bool :=
  trace.arrivals.all fun arrival => arrival.1 != source || mayFollow u arrival.2 source target

/-- One more arrival. -/
def arrive (trace : Trace) (node : Node) (entered : List ElementId) : Trace :=
  { trace with arrivals := (node, entered) :: trace.arrivals }

/-- The first arrival at a node. -/
def visit (trace : Trace) (node : Node) (entered : List ElementId) : Trace :=
  { trace.arrive node entered with visited := node :: trace.visited }

end Trace

/-- Walks on from a node over the children that its first arrival allows, at most `bound`
    nodes deep. -/
def traceUpTo (u : CompilationUnit) (children : Node → List Node) :
    Nat → List ElementId → Trace → Node → Trace
  | 0, _, trace, _ => trace
  | bound + 1, entered, trace, node =>
    if node ∈ trace.visited then trace.arrive node entered
    else
      ((children node).filter (mayFollow u entered node)).foldl
        (traceUpTo u children bound (enters u node ++ entered)) (trace.visit node entered)

/-- A walk that changes the graph and one that does not are at the same point. -/
structure Simulates (u : CompilationUnit) (graph : FlowGraph) (walk : Walk) (trace : Trace) :
    Prop where
  wellFormed : walk.graph.WellFormed
  node? : ∀ id, walk.graph.node? id = graph.node? id
  children : ∀ x, walk.graph.children x = (graph.children x).filter (trace.allows u x)
  visited : walk.visited.map graph.node? = trace.visited.map some
  arrived : ∀ arrival ∈ trace.arrivals, arrival.1 ∈ trace.visited

/-- Walking over several vertices, if it is so for each of them. -/
theorem Simulates.foldl {walkOn : Walk → VertexId → Walk} {traceOn : Trace → Node → Trace}
    (hstep : ∀ walk trace id node, Simulates u graph walk trace → graph.node? id = some node →
      Simulates u graph (walkOn walk id) (traceOn trace node))
    {ids : List VertexId} {nodes : List Node} (hnodes : ids.map graph.node? = nodes.map some)
    {walk : Walk} {trace : Trace} (h : Simulates u graph walk trace) :
    Simulates u graph (ids.foldl walkOn walk) (nodes.foldl traceOn trace) := by
  induction ids generalizing nodes walk trace with
  | nil =>
    obtain rfl : nodes = [] := by simpa using hnodes.symm
    exact h
  | cons id ids ih =>
    match nodes, hnodes with
    | node :: nodes, hnodes =>
      rw [List.map_cons, List.map_cons, List.cons.injEq] at hnodes
      exact ih hnodes.2 (hstep walk trace id node h hnodes.1)

theorem Simulates.mem_visited_iff (hwf : graph.WellFormed) {walk : Walk} {trace : Trace}
    (h : Simulates u graph walk trace) {id : VertexId} {node : Node}
    (hnode : graph.node? id = some node) : id ∈ walk.visited ↔ node ∈ trace.visited := by
  have hmem : some node ∈ walk.visited.map graph.node? ↔ node ∈ trace.visited := by
    rw [h.visited]
    simp
  rw [← hmem, List.mem_map]
  refine ⟨fun hid => ⟨id, hid, hnode⟩, ?_⟩
  rintro ⟨other, hother, hotherNode⟩
  exact hwf.unique other id node hotherNode hnode ▸ hother

/-- An arrival: the returns that it refuses are dropped. -/
theorem Simulates.arrive {walk : Walk} {trace : Trace} (h : Simulates u graph walk trace)
    (entered : List ElementId) {id : VertexId} {node : Node}
    (hnode : graph.node? id = some node) :
    (dropReturns u entered id walk.graph).WellFormed ∧
    (∀ other, (dropReturns u entered id walk.graph).node? other = graph.node? other) ∧
    ∀ x, (dropReturns u entered id walk.graph).children x =
      (graph.children x).filter ((trace.arrive node entered).allows u x) := by
  obtain ⟨hwf, hnodes, hchildren⟩ :=
    dropReturns_spec h.wellFormed entered ((h.node? id).trans hnode)
  refine ⟨hwf, fun other => (hnodes other).trans (h.node? other), ?_⟩
  intro x
  rw [hchildren, h.children]
  by_cases hx : x = node
  · subst hx
    rw [if_pos rfl, List.filter_filter]
    congr 1
    funext target
    simp [Trace.allows, Trace.arrive]
  · rw [if_neg hx]
    congr 1
    funext target
    simp [Trace.allows, Trace.arrive, Ne.symm hx]

/-- The walk that changes the graph goes as the one that does not. -/
theorem Simulates.walkUpTo (hwf : graph.WellFormed) (bound : Nat) (entered : List ElementId)
    {walk : Walk} {trace : Trace} (h : Simulates u graph walk trace) {id : VertexId} {node : Node}
    (hnode : graph.node? id = some node) :
    Simulates u graph (walkUpTo u bound entered walk id)
      (traceUpTo u graph.children bound entered trace node) := by
  induction bound generalizing entered walk trace id node with
  | zero => exact h
  | succ bound ih =>
    rw [Prune.walkUpTo, traceUpTo]
    obtain ⟨hwf', hnodes, hchildren⟩ := h.arrive entered hnode
    have hvisited := h.mem_visited_iff hwf hnode
    by_cases hmem : node ∈ trace.visited
    · rw [if_pos hmem, if_pos (List.contains_iff_mem.mpr (hvisited.mpr hmem))]
      refine ⟨hwf', hnodes, hchildren, h.visited, ?_⟩
      intro arrival harrival
      rcases List.mem_cons.mp harrival with rfl | hold
      · exact hmem
      · exact h.arrived arrival hold
    · rw [if_neg hmem, if_neg (fun hc => hmem (hvisited.mp (List.contains_iff_mem.mp hc)))]
      rw [hnodes id, hnode]
      -- Nothing arrived here before, so only this arrival decides where the walk goes on.
      have hfirst : (dropReturns u entered id walk.graph).children node =
          (graph.children node).filter (mayFollow u entered node) := by
        rw [hchildren]
        congr 1
        funext target
        have hnone : ∀ arrival ∈ trace.arrivals, arrival.1 ≠ node :=
          fun arrival harrival heq => hmem (heq ▸ h.arrived arrival harrival)
        have hall : trace.arrivals.all (fun arrival => arrival.1 != node ||
            mayFollow u arrival.2 node target) = true := by
          rw [List.all_eq_true]
          intro arrival harrival
          rw [bne_iff_ne.mpr (hnone arrival harrival), Bool.true_or]
        simp [Trace.allows, Trace.arrive, hall]
      refine Simulates.foldl (fun walk trace id node hsim hid => ih _ hsim hid) ?_ ?_
      · have htargets := hwf'.targets_eq ((hnodes id).trans hnode)
        rw [hfirst] at htargets
        rw [← htargets]
        exact List.map_congr_left fun other _ => (hnodes other).symm
      · refine ⟨hwf', hnodes, hchildren, ?_, ?_⟩
        · rw [Trace.visit, List.map_cons, List.map_cons, hnode, h.visited]
        · intro arrival harrival
          rcases List.mem_cons.mp harrival with rfl | hold
          · exact List.mem_cons_self
          · exact List.mem_cons_of_mem _ (h.arrived arrival hold)

/-! ## The copy for a source -/

/-- Every arrival of the walk from a source, with the calls entered on the way. -/
def arrivals (u : CompilationUnit) (graph : FlowGraph) (source : Node) :
    List (Node × List ElementId) :=
  (traceUpTo u graph.children (graph.size + 1) [] ⟨[], []⟩ source).arrivals

/-- The children of a node that no arrival of the walk from a source refuses. -/
def surviving (u : CompilationUnit) (graph : FlowGraph) (source node : Node) : List Node :=
  (graph.children node).filter fun child =>
    (arrivals u graph source).all fun arrival =>
      arrival.1 != node || mayFollow u arrival.2 node child

/-- The copy for a source has the surviving edges. -/
theorem forSource_spec (hwf : graph.WellFormed) {id : VertexId} {source : Node}
    (hsource : graph.node? id = some source) :
    (forSource u graph id).WellFormed ∧
    (∀ other, (forSource u graph id).node? other = graph.node? other) ∧
    ∀ x, (forSource u graph id).children x = surviving u graph source x := by
  have hstart : Simulates u graph ⟨graph.copy, []⟩ ⟨[], []⟩ := by
    refine ⟨hwf.copy, fun _ => rfl, fun x => ?_, rfl, by simp⟩
    exact (List.filter_eq_self.mpr fun _ _ => rfl).symm
  have hend := hstart.walkUpTo hwf (graph.size + 1) [] hsource
  exact ⟨hend.wellFormed, hend.node?, hend.children⟩

/-- A way from a source to a node along a successor function, and the calls entered by
    the arguments passed before the node. -/
inductive Arrival (u : CompilationUnit) (next : Node → List Node) (source : Node) :
    List ElementId → Node → Prop where
  | start : Arrival u next source [] source
  | step {entered : List ElementId} {node child : Node} : Arrival u next source entered node →
      child ∈ next node → Arrival u next source (enters u node ++ entered) child

/-- The walk arrives along ways of the graph. -/
theorem arrival_of_mem_traceUpTo {next : Node → List Node} {source : Node} (bound : Nat)
    {entered : List ElementId} {trace : Trace} {node : Node}
    (hnode : Arrival u next source entered node)
    (htrace : ∀ arrival ∈ trace.arrivals, Arrival u next source arrival.2 arrival.1) :
    ∀ arrival ∈ (traceUpTo u next bound entered trace node).arrivals,
      Arrival u next source arrival.2 arrival.1 := by
  induction bound generalizing entered trace node with
  | zero => exact htrace
  | succ bound ih =>
    have harrive : ∀ arrival ∈ (trace.arrive node entered).arrivals,
        Arrival u next source arrival.2 arrival.1 := by
      intro arrival harrival
      rcases List.mem_cons.mp harrival with rfl | hold
      · exact hnode
      · exact htrace arrival hold
    rw [traceUpTo]
    split
    · exact harrive
    · -- The walk goes on at some children, with one trace after the other.
      have hchildren : ∀ child ∈ (next node).filter (mayFollow u entered node),
          Arrival u next source (enters u node ++ entered) child :=
        fun child hchild => hnode.step (List.mem_filter.mp hchild).1
      generalize (next node).filter (mayFollow u entered node) = children at hchildren ⊢
      generalize hfrom : trace.visit node entered = reached
      replace harrive : ∀ arrival ∈ reached.arrivals, Arrival u next source arrival.2 arrival.1 :=
        hfrom ▸ harrive
      clear hfrom
      induction children generalizing reached with
      | nil => exact harrive
      | cons child children ihChildren =>
        exact ihChildren (fun other hother => hchildren other (List.mem_cons_of_mem _ hother))
          _ (ih (hchildren child List.mem_cons_self) harrive)

theorem arrival_of_mem_arrivals {source node : Node} {entered : List ElementId}
    (h : (node, entered) ∈ arrivals u graph source) :
    Arrival u graph.children source entered node :=
  arrival_of_mem_traceUpTo _ .start (by simp) _ h

/-! ## Participants -/

/-- The nodes of one source: those between it and a sink along the edges that survive. -/
theorem mem_nodes_between_iff (hwf : graph.WellFormed) {isSink : Node → Bool} {id : VertexId}
    {source : Node} (hsource : graph.node? id = some source) {node : Node} :
    node ∈ (between (forSource u graph id) isSink id).filterMap (forSource u graph id).node? ↔
      ∃ sink, isSink sink = true ∧ Search.Reach (surviving u graph source) source node ∧
        Search.Reach (surviving u graph source) node sink := by
  obtain ⟨hwf', hnodes, hchildren⟩ := @forSource_spec u graph hwf id source hsource
  generalize forSource u graph id = copy at hwf' hnodes hchildren ⊢
  have hid : copy.node? id = some source := (hnodes id).trans hsource
  have hreach : ∀ a x b, copy.node? a = some x → (Search.Reach copy.targets a b ↔
      ∃ y, Search.Reach (surviving u graph source) x y ∧ copy.node? b = some y) := by
    intro a x b ha
    rw [hwf'.reach_iff ha, funext hchildren]
  simp only [List.mem_filterMap, mem_between_iff hwf' (FlowGraph.mem_ids_iff.mpr ⟨source, hid⟩),
    LeadsToSink]
  refine ⟨?_, ?_⟩
  · rintro ⟨other, ⟨hforward, last, sink, hlast, hsink, hbackward⟩, hother⟩
    obtain ⟨x, hx, hxother⟩ := (hreach id source other hid).mp hforward
    cases hother.symm.trans hxother
    obtain ⟨y, hy, hylast⟩ := (hreach other node last hother).mp hbackward
    cases hlast.symm.trans hylast
    exact ⟨sink, hsink, hx, hy⟩
  · rintro ⟨sink, hsink, hforward, hbackward⟩
    -- Ways from the source stay in the graph, where every node has its vertex.
    have hmem : ∀ x y, x ∈ copy.nodes → Search.Reach (surviving u graph source) x y →
        y ∈ copy.nodes := by
      intro x y hx hxy
      rw [← funext hchildren] at hxy
      exact hwf'.mem_nodes_of_reach hxy hx
    have hnode := hmem source node (FlowGraph.mem_nodes_iff.mpr ⟨id, hid⟩) hforward
    obtain ⟨other, hother⟩ := FlowGraph.mem_nodes_iff.mp hnode
    obtain ⟨last, hlast⟩ := FlowGraph.mem_nodes_iff.mp (hmem node sink hnode hbackward)
    refine ⟨other, ⟨?_, last, sink, hlast, hsink, ?_⟩, hother⟩
    · exact (hreach id source other hid).mpr ⟨node, hforward, hother⟩
    · exact (hreach other node last hother).mpr ⟨sink, hbackward, hlast⟩

/-- A node takes part if it lies between a source and a sink along the edges that survive
    for the source. -/
theorem mem_participants_iff {spec : FlowSpec} {cx : FlowContext} {flow : ScannedFlow}
    (h : flow.WellFormed) {node : Node} :
    node ∈ participants spec cx flow ↔ ∃ source ∈ flow.sourceNodes, ∃ sink,
      spec.isSink cx sink = true ∧
      Search.Reach (surviving cx.unit (dropCallSteps spec cx flow) source) source node ∧
      Search.Reach (surviving cx.unit (dropCallSteps spec cx flow) source) node sink := by
  obtain ⟨hwf', hnodes, -⟩ := dropCallSteps_spec spec cx h
  rw [participants, Sorted.mem_ofList, List.mem_flatMap]
  refine ⟨?_, ?_⟩
  · rintro ⟨id, hid, hnode⟩
    obtain ⟨source, hsource⟩ := FlowGraph.mem_ids_iff.mp (h.sources id hid)
    exact ⟨source, List.mem_filterMap.mpr ⟨id, hid, hsource⟩,
      (mem_nodes_between_iff hwf' ((hnodes id).trans hsource)).mp hnode⟩
  · rintro ⟨source, hsource, hflow⟩
    obtain ⟨id, hid, hidSource⟩ := List.mem_filterMap.mp hsource
    exact ⟨id, hid, (mem_nodes_between_iff hwf' ((hnodes id).trans hidSource)).mpr hflow⟩

end Prune
end ValueFlow
