/-
  ValueFlow.Proofs.Participants

  What takes part, said by the copies of the graph.

  For each source there is a copy of the graph, in which a walk has dropped returns. What
  takes part are the nodes between the source and a sink in one of these copies. Nothing
  is lost by going on only from vertices that lead to a sink, nor by asking about each of
  them once, so that all of a walk from a source to a sink is reported or none of it.
-/

import ValueFlow.Proofs.CallContexts

namespace ValueFlow
namespace Prune

variable {spec : FlowSpec} {cx : FlowContext}

variable (spec cx) in
/-- The copy of a scanned graph that is pruned for a source. -/
def copyFor (flow : ScannedFlow) (source : VertexId) : FlowGraph :=
  forSource cx.unit (dropCallSteps spec cx flow) source

/-- A walk of a graph from a vertex to a sink. -/
structure SinkWalk (graph : FlowGraph) (isSink : Node → Bool) (source : VertexId)
    (walk : List VertexId) : Prop where
  head : walk.head? = some source
  steps : walk.IsChain fun id target => target ∈ graph.targets id
  sink : ∃ last sink, walk.getLast? = some last ∧ graph.node? last = some sink ∧
    isSink sink = true

section Copies

variable {flow : ScannedFlow} (h : flow.WellFormed)
include h

/-- A copy has the vertices of the scanned graph. -/
theorem copyFor_spec {source : VertexId} (hsource : source ∈ flow.sources) :
    (copyFor spec cx flow source).WellFormed ∧
      ∀ id, (copyFor spec cx flow source).node? id = flow.graph.node? id := by
  obtain ⟨hwf, hnodes, -⟩ := dropCallSteps_spec spec cx h
  obtain ⟨start, hstart⟩ := FlowGraph.mem_ids_iff.mp (h.sources source hsource)
  obtain ⟨hwf', hnodes', -⟩ :=
    @forSource_spec cx.unit _ hwf source start ((hnodes source).trans hstart)
  exact ⟨hwf', fun id => (hnodes' id).trans (hnodes id)⟩

theorem mem_ids_copyFor {source id : VertexId} (hsource : source ∈ flow.sources)
    (hreach : Search.Reach (copyFor spec cx flow source).targets source id) :
    id ∈ (copyFor spec cx flow source).ids := by
  obtain ⟨hwf, hnodes⟩ := @copyFor_spec spec cx flow h source hsource
  refine hreach.mem_of_closed (P := (· ∈ (copyFor spec cx flow source).ids))
    (fun _ _ _ htarget => hwf.target_mem_ids htarget) ?_
  rw [FlowGraph.mem_ids_iff, hnodes]
  exact FlowGraph.mem_ids_iff.mp (h.sources source hsource)

/-- The union over the sources: what lies between a source and a sink in its copy. -/
theorem mem_participants_iff_copies {node : Node} :
    node ∈ participants spec cx flow ↔ ∃ source ∈ flow.sources, ∃ id,
      (copyFor spec cx flow source).node? id = some node ∧
      Search.Reach (copyFor spec cx flow source).targets source id ∧
      LeadsToSink (copyFor spec cx flow source) (spec.isSink cx) id := by
  rw [participants, Sorted.mem_ofList, List.mem_flatMap]
  refine exists_congr fun source => and_congr_right fun hsource => ?_
  obtain ⟨hwf, -⟩ := @copyFor_spec spec cx flow h source hsource
  have hstart := @mem_ids_copyFor spec cx flow h source source hsource .refl
  rw [← copyFor, List.mem_filterMap]
  refine exists_congr fun id => ?_
  rw [mem_between_iff hwf hstart, and_comm]

/-- All vertices of a walk from a source to a sink take part. -/
theorem SinkWalk.mem_participants {source : VertexId} (hsource : source ∈ flow.sources)
    {walk : List VertexId}
    (hwalk : SinkWalk (copyFor spec cx flow source) (spec.isSink cx) source walk) :
    ∀ id ∈ walk, ∃ node ∈ participants spec cx flow,
      (copyFor spec cx flow source).node? id = some node := by
  intro id hid
  obtain ⟨hhead, hsteps, last, sink, hlast, hlastNode, hsink⟩ := hwalk
  obtain ⟨rest, rfl⟩ := List.head?_eq_some_iff.mp hhead
  obtain ⟨hforward, hbackward⟩ := Search.reach_of_isChain hsteps hlast id hid
  obtain ⟨node, hnode⟩ := FlowGraph.mem_ids_iff.mp (mem_ids_copyFor h hsource hforward)
  refine ⟨node, (mem_participants_iff_copies h).mpr ?_, hnode⟩
  exact ⟨source, hsource, id, hnode, hforward, last, sink, hlastNode, hsink, hbackward⟩

/-- What takes part lies on a walk from a source to a sink. -/
theorem exists_sinkWalk {node : Node} (hnode : node ∈ participants spec cx flow) :
    ∃ source ∈ flow.sources, ∃ walk,
      SinkWalk (copyFor spec cx flow source) (spec.isSink cx) source walk ∧
      ∃ id ∈ walk, (copyFor spec cx flow source).node? id = some node := by
  obtain ⟨source, hsource, id, hid, hforward, last, sink, hlast, hsink, hbackward⟩ :=
    (mem_participants_iff_copies h).mp hnode
  obtain ⟨rest, hsteps, hend, hmem⟩ := Search.exists_path hforward hbackward
  exact ⟨source, hsource, source :: rest, ⟨rfl, hsteps, last, sink, hend, hlast, hsink⟩,
    id, hmem, hid⟩

end Copies

/-- What takes part in the flows of a scanned graph, for any sources in it, is the union of
    what lies between a source and a sink in its copy. So a source and a sink take part if
    anything does, and whatever takes part lies on a walk from a source to a sink that takes
    part as a whole. -/
theorem participants_eq_union_of_copies {scanning : FlowSpec} (hu : cx.unit.Accepted)
    {sources : List VertexId}
    (hsources : ∀ id ∈ sources, id ∈ (ScannedFlow.ofUnit scanning cx).graph.ids) :
    let flow : ScannedFlow := ⟨(ScannedFlow.ofUnit scanning cx).graph, sources⟩
    (∀ node, node ∈ participants spec cx flow ↔ ∃ source ∈ sources, ∃ id,
      (copyFor spec cx flow source).node? id = some node ∧
      Search.Reach (copyFor spec cx flow source).targets source id ∧
      ∃ last sink, (copyFor spec cx flow source).node? last = some sink ∧
        spec.isSink cx sink = true ∧
        Search.Reach (copyFor spec cx flow source).targets id last) ∧
    (participants spec cx flow = [] ∨
      (∃ source ∈ flow.sourceNodes, source ∈ participants spec cx flow) ∧
        ∃ sink ∈ participants spec cx flow, spec.isSink cx sink = true) ∧
    ∀ node ∈ participants spec cx flow, ∃ source ∈ sources, ∃ walk,
      SinkWalk (copyFor spec cx flow source) (spec.isSink cx) source walk ∧
      (∃ id ∈ walk, (copyFor spec cx flow source).node? id = some node) ∧
      ∀ id ∈ walk, ∃ other ∈ participants spec cx flow,
        (copyFor spec cx flow source).node? id = some other := by
  intro flow
  have hflow : flow.WellFormed := ⟨(ScannedFlow.ofUnit_faithful scanning hu).graph, hsources⟩
  have hwalks : ∀ node ∈ participants spec cx flow, ∃ source ∈ sources, ∃ walk,
      SinkWalk (copyFor spec cx flow source) (spec.isSink cx) source walk ∧
      (∃ id ∈ walk, (copyFor spec cx flow source).node? id = some node) ∧
      ∀ id ∈ walk, ∃ other ∈ participants spec cx flow,
        (copyFor spec cx flow source).node? id = some other := by
    intro node hnode
    obtain ⟨source, hsource, walk, hwalk, hmem⟩ := exists_sinkWalk hflow hnode
    exact ⟨source, hsource, walk, hwalk, hmem, hwalk.mem_participants hflow hsource⟩
  refine ⟨fun node => mem_participants_iff_copies hflow, ?_, hwalks⟩
  by_cases hnil : participants spec cx flow = []
  · exact Or.inl hnil
  · -- The ends of a walk that takes part as a whole.
    right
    obtain ⟨node, hnode⟩ := List.exists_mem_of_ne_nil _ hnil
    obtain ⟨source, hsource, walk, ⟨hhead, -, last, sink, hlast, hlastNode, hsink⟩, -, hall⟩ :=
      hwalks node hnode
    obtain ⟨first, hfirst, hfirstNode⟩ := hall source (List.mem_of_head? hhead)
    obtain ⟨other, hother, hotherNode⟩ := hall last (List.mem_of_getLast? hlast)
    cases hlastNode.symm.trans hotherNode
    rw [(copyFor_spec hflow hsource).2] at hfirstNode
    exact ⟨⟨first, List.mem_filterMap.mpr ⟨source, hsource, hfirstNode⟩, hfirst⟩,
      sink, hother, hsink⟩

/-- The read of the parameter of `id` takes part in the flow of the literal through `id`. It
    lies on a walk in the copy for the literal. -/
theorem participants_eq_union_of_copies_relayUnit :
    let spec := literalTo (.expression ⟨10⟩)
    let flow := ScannedFlow.ofUnit spec relayContext
    relayUnit.Accepted ∧ (∀ id ∈ flow.sources, id ∈ flow.graph.ids) ∧
    Node.expression ⟨6⟩ ∈ participants spec relayContext flow ∧
    ∃ source ∈ flow.sources, ∃ walk,
      SinkWalk (copyFor spec relayContext flow source) (spec.isSink relayContext) source walk ∧
      (∃ id ∈ walk, (copyFor spec relayContext flow source).node? id =
        some (.expression ⟨6⟩)) ∧
      ∀ id ∈ walk, ∃ other ∈ participants spec relayContext flow,
        (copyFor spec relayContext flow source).node? id = some other := by
  intro spec flow
  have hsources : ∀ id ∈ flow.sources, id ∈ flow.graph.ids := by decide +kernel
  have hread : Node.expression ⟨6⟩ ∈ participants spec relayContext flow := by decide +kernel
  obtain ⟨-, -, hwalks⟩ := @participants_eq_union_of_copies spec relayContext spec
    relayUnit_accepted flow.sources hsources
  exact ⟨relayUnit_accepted, hsources, hread, hwalks _ hread⟩

end Prune
end ValueFlow
