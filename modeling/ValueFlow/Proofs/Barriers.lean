/-
  ValueFlow.Proofs.Barriers

  Where barriers hold in flows across calls.

  Exploration never goes on into a barrier, but the edges of calls are joined without
  asking for one. So a flow gets into a barrier by the edge of a call or not at all, and
  the barriers of a unit hold exactly if no such edge lies on a flow.
-/

import ValueFlow.Proofs.Prune

namespace ValueFlow
namespace Prune

variable {spec : FlowSpec} {cx : FlowContext}

variable (spec cx) in
/-- An edge on a reported flow: it survives on a way from a recorded source to a sink. -/
def FlowsOver (flow : ScannedFlow) (node next : Node) : Prop :=
  ∃ source ∈ flow.sourceNodes, ∃ sink, spec.isSink cx sink = true ∧
    Search.Reach (surviving cx.unit (dropCallSteps spec cx flow) source) source node ∧
    next ∈ surviving cx.unit (dropCallSteps spec cx flow) source node ∧
    Search.Reach (surviving cx.unit (dropCallSteps spec cx flow) source) next sink

/-- Pruning adds no edge: one that survives is an edge of the scan. -/
theorem mem_children_of_mem_surviving {flow : ScannedFlow} (h : flow.WellFormed)
    {source node next : Node}
    (hnext : next ∈ surviving cx.unit (dropCallSteps spec cx flow) source node) :
    next ∈ flow.graph.children node := by
  obtain ⟨-, -, hchildren⟩ := dropCallSteps_spec spec cx h
  have hkept : next ∈ (dropCallSteps spec cx flow).children node := (List.mem_filter.mp hnext).1
  exact ((hchildren node next).mp hkept).1

/-- Only the edges of calls lead into barriers. -/
theorem callEdge_of_barrier (hu : cx.unit.Accepted) {source node next : Node}
    (h : next ∈ surviving cx.unit (dropCallSteps spec cx (.ofUnit spec cx)) source node)
    (hbarrier : spec.isBarrier cx next = true) : CallEdge cx.unit node next := by
  have hscan := ScannedFlow.ofUnit_faithful spec hu
  have hchild : next ∈ (ScannedFlow.ofUnit spec cx).graph.children node :=
    mem_children_of_mem_surviving hscan.toWellFormed h
  have hnode := hscan.graph.mem_nodes_of_mem_children hchild
  rcases (hscan.children_iff node hnode next).mp hchild with hopen | ⟨-, hcall⟩
  · -- An open successor is no barrier, and widening leaves the barriers as they are.
    have hfalse : spec.isBarrier cx next = false := (FlowSpec.mem_openSuccessors_iff.mp hopen).2
    rw [hbarrier] at hfalse
    cases hfalse
  · exact hcall

/-- What takes part is a recorded source, or flowed to over an edge. -/
theorem mem_participants_cases {flow : ScannedFlow} (h : flow.WellFormed) {node : Node}
    (hnode : node ∈ participants spec cx flow) :
    node ∈ flow.sourceNodes ∨ ∃ before, FlowsOver spec cx flow before node := by
  obtain ⟨source, hsource, sink, hsink, hforward, hbackward⟩ := (mem_participants_iff h).mp hnode
  rcases Relation.ReflTransGen.cases_tail hforward with rfl | ⟨before, hbefore, hstep⟩
  · exact Or.inl hsource
  · exact Or.inr ⟨before, source, hsource, sink, hsink, hbefore, hstep, hbackward⟩

/-- Barriers hold across calls exactly if no edge of a call on a reported flow leads into
    one; local steps never do. -/
theorem barriers_hold_iff (hu : cx.unit.Accepted) :
    (∀ node next, FlowsOver spec cx (.ofUnit spec cx) node next →
      spec.isBarrier cx next = true → CallEdge cx.unit node next) ∧
    ((∀ node ∈ participants spec cx (.ofUnit spec cx), spec.isBarrier cx node = true →
        node ∈ (ScannedFlow.ofUnit spec cx).sourceNodes) ↔
      ∀ node next, FlowsOver spec cx (.ofUnit spec cx) node next → CallEdge cx.unit node next →
        spec.isBarrier cx next = true → next ∈ (ScannedFlow.ofUnit spec cx).sourceNodes) := by
  have hscan := (ScannedFlow.ofUnit_faithful spec hu).toWellFormed
  have hcall : ∀ node next, FlowsOver spec cx (.ofUnit spec cx) node next →
      spec.isBarrier cx next = true → CallEdge cx.unit node next := by
    rintro node next ⟨source, -, -, -, -, hstep, -⟩ hbarrier
    exact callEdge_of_barrier hu hstep hbarrier
  refine ⟨hcall, ?_, ?_⟩
  · rintro hhold node next ⟨source, hsource, sink, hsink, hforward, hstep, hbackward⟩ - hbarrier
    refine hhold next ?_ hbarrier
    exact (mem_participants_iff hscan).mpr
      ⟨source, hsource, sink, hsink, hforward.tail hstep, hbackward⟩
  · intro hedges node hnode hbarrier
    rcases mem_participants_cases hscan hnode with hsource | ⟨before, hflow⟩
    · exact hsource
    · exact hedges before node hflow (hcall before node hflow hbarrier) hbarrier

/-- The literal of the small unit flows to the call that it is an argument of, but the
    parameter in between is a barrier. -/
def blockedParameter : FlowSpec :=
  { literalTo (.expression ⟨10⟩) with isBarrier := fun _ node => node == .parameter ⟨3⟩ }

/-- A flow is reported through the parameter of `id`, which is a barrier and no source. -/
theorem barrier_takes_part :
    Node.parameter ⟨3⟩ ∈
      participants blockedParameter relayContext (.ofUnit blockedParameter relayContext) ∧
    blockedParameter.isBarrier relayContext (.parameter ⟨3⟩) = true ∧
    Node.parameter ⟨3⟩ ∉ (ScannedFlow.ofUnit blockedParameter relayContext).sourceNodes := by
  decide +kernel

/-- There a call leads into the barrier. -/
theorem barriers_hold_iff_relayUnit :
    relayUnit.Accepted ∧ ∃ node next,
      FlowsOver blockedParameter relayContext (.ofUnit blockedParameter relayContext) node next ∧
      CallEdge relayUnit node next ∧ blockedParameter.isBarrier relayContext next = true := by
  refine ⟨relayUnit_accepted, ?_⟩
  by_contra hnone
  have hhold := (@barriers_hold_iff blockedParameter relayContext relayUnit_accepted).2.mpr
    fun node next hflow hcall hbarrier => absurd ⟨node, next, hflow, hcall, hbarrier⟩ hnone
  have hparameter := hhold (.parameter ⟨3⟩) (by decide +kernel) (by decide +kernel)
  revert hparameter
  decide +kernel

end Prune
end ValueFlow
