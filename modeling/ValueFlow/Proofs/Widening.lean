/-
  ValueFlow.Proofs.Widening

  The widening of a scan is undone.

  A scan explores with more steps than the specification has: an argument also flows into
  its call. The extra steps change nothing but edges from arguments to their calls. In
  particular no operand of a call is the call of another one, so that the reads behind a
  call are those of the specification. Once these edges are dropped, what the sources
  reach has the edges of the specification and those of calls.
-/

import ValueFlow.Proofs.LocalInGlobal

namespace ValueFlow

variable {spec : FlowSpec} {cx : FlowContext} {node next : Node}

/-! ## Successors -/

/-- The steps of a scan are those of the specification and those of arguments. -/
theorem FlowSpec.isStep_widened_iff :
    spec.widened.isStep cx node next = true ↔
      spec.isStep cx node next = true ∨ isCallStep cx.unit node next = true := by
  have hextra : spec.widened.isExtraStep cx node next =
      (spec.isExtraStep cx node next || isCallStep cx.unit node next) := rfl
  have hkind : spec.widened.kind = spec.kind := rfl
  rw [isStep, isStep, hextra, hkind, ← Bool.or_assoc, Bool.or_eq_true]

/-- What stands for a variable is no call, so that nothing is an argument of it. -/
theorem isCallStep_variable {u : CompilationUnit} {id variableId : ElementId}
    (h : u.variableOf? id = some variableId) : isCallStep u node (.expression id) = false := by
  refine Bool.eq_false_iff.mpr fun hcall => ?_
  obtain ⟨argument, call, kind, -, heq, -, hkind, hargument⟩ := isCallStep_cases hcall
  cases heq
  rw [CompilationUnit.variableOf?, hkind] at h
  cases kind with
  | identifier name target type => cases hargument
  | _ => cases h

/-- Widening makes no call change more of its operands. -/
theorem Onward.updatedReads_widened (id call : ElementId) (select : Option ElementId)
    (operands : List ElementId) :
    updatedReads spec.widened cx id call select operands =
      updatedReads spec cx id call select operands := by
  rw [updatedReads, updatedReads]
  cases hvariable : cx.unit.variableOf? id with
  | none => simp
  | some variableId =>
    have hstep : ∀ other, spec.widened.isStep cx (.expression other) (.expression id) =
        spec.isStep cx (.expression other) (.expression id) := by
      intro other
      rw [Bool.eq_iff_iff, FlowSpec.isStep_widened_iff, isCallStep_variable hvariable]
      simp
    simp only [hstep]

theorem Onward.intoParent_widened (id parent : ElementId) (kind : Kind) :
    intoParent spec.widened cx id parent kind = intoParent spec cx id parent kind := by
  cases kind with
  | call select name signature arguments => rw [intoParent, updatedReads_widened, intoParent]
  | _ => rfl

/-- The successors of a scan that are kept are those of the specification. -/
theorem FlowSpec.mem_successors_iff_kept :
    next ∈ spec.successors cx node ↔
      next ∈ spec.widened.successors cx node ∧ Prune.isKept spec cx node next = true := by
  constructor
  · intro h
    exact ⟨successors_mono rfl (fun _ _ => isStep_widened) h, Prune.isKept_of_mem_successors h⟩
  · rintro ⟨h, hkept⟩
    cases node with
    | parameter id => exact h
    | expression id =>
      rw [mem_successors_expression_iff] at h ⊢
      refine h.imp_right ?_
      rintro ⟨parent, kind, hparent, hkind, honward⟩
      rw [Onward.intoParent_widened] at honward
      refine ⟨parent, kind, hparent, hkind, honward.imp_right ?_⟩
      rintro ⟨hifStep, hstep⟩
      -- A step that only the widening has is one from an argument, which is not kept.
      rw [Prune.isKept, Bool.or_eq_true, Bool.not_eq_true'] at hkept
      refine ⟨hifStep, (isStep_widened_iff.mp hstep).elim (fun hown => hown) fun hcall => ?_⟩
      exact hkept.resolve_left fun hnone => by rw [hcall] at hnone; cases hnone

theorem FlowSpec.mem_openSuccessors_iff_kept :
    next ∈ spec.openSuccessors cx node ↔
      next ∈ spec.widened.openSuccessors cx node ∧ Prune.isKept spec cx node next = true := by
  have hbarrier : spec.widened.isBarrier = spec.isBarrier := rfl
  rw [mem_openSuccessors_iff, mem_openSuccessors_iff, mem_successors_iff_kept, hbarrier,
    and_right_comm]

/-- Edges of calls are kept: none of them leads from an argument to its call. -/
theorem Prune.isKept_of_callEdge (h : CallEdge cx.unit node next) :
    isKept spec cx node next = true := by
  rw [isKept, Bool.or_eq_true, Bool.not_eq_true', Bool.eq_false_iff]
  refine Or.inl fun hcall => ?_
  obtain ⟨id, call, kind, rfl, rfl, hparent, hkind, hargument⟩ := isCallStep_cases hcall
  rcases h with ⟨slot, -, hslot⟩ | ⟨method, hmethod, -⟩
  · cases hslot
  · -- A returned value stands in parentheses or in a return statement.
    have hreturned : (Node.expression id).isReturned cx.unit = true := by
      by_contra hnot
      rw [Node.returnedFrom?, if_neg hnot] at hmethod
      cases hmethod
    obtain ⟨other, parent, otherKind, heq, hother, hotherKind, hcases⟩ :=
      Node.isReturned_cases hreturned
    cases heq
    cases hparent.symm.trans hother
    cases hkind.symm.trans hotherKind
    rcases hcases with ⟨inner, rfl⟩ | ⟨value, rfl⟩
    · cases hargument
    · cases hargument

namespace Prune

/-! ## Edges after the widening is undone -/

/-- What a source reaches along the edges that are left, it reaches along edges that are
    kept, and the other way around. -/
theorem reach_dropCallSteps_iff {flow : ScannedFlow} (h : flow.WellFormed) {source : Node}
    (hsource : source ∈ flow.sourceNodes) :
    Search.Reach (dropCallSteps spec cx flow).children source node ↔
      Search.Reach (keptChildren spec cx flow.graph) source node := by
  obtain ⟨-, -, hchildren⟩ := dropCallSteps_spec spec cx h
  constructor
  · intro hreach
    induction hreach with
    | refl => exact .refl
    | tail _ hstep ih =>
      obtain ⟨hchild, hkept⟩ := (hchildren _ _).mp hstep
      exact ih.tail (List.mem_filter.mpr ⟨hchild, hkept ⟨source, hsource, ih⟩⟩)
  · refine Relation.ReflTransGen.mono ?_ source node
    intro a b hstep
    obtain ⟨hchild, hkept⟩ := List.mem_filter.mp hstep
    exact (hchildren a b).mpr ⟨hchild, fun _ => hkept⟩

/-- Dropping the steps of the widening undoes it: what the sources reach has the open
    successors of the specification and the edges of calls as its children, all other
    nodes keep theirs, and the vertices stay. -/
theorem dropCallSteps_undoes_widening (hu : cx.unit.Accepted) :
    let flow := ScannedFlow.ofUnit spec cx
    let graph := dropCallSteps spec cx flow
    (∀ source ∈ flow.sourceNodes, ∀ node, Search.Reach graph.children source node →
      ∀ child, child ∈ graph.children node ↔ child ∈ spec.openSuccessors cx node ∨
        child ∈ flow.graph.children node ∧ CallEdge cx.unit node child) ∧
    (∀ node, (¬ ∃ source ∈ flow.sourceNodes, Search.Reach graph.children source node) →
      graph.children node = flow.graph.children node) ∧
    ∀ id, graph.node? id = flow.graph.node? id := by
  intro flow graph
  have hscan : ScannedFlow.Faithful spec cx (Node.attached cx.unit) flow :=
    ScannedFlow.ofUnit_faithful spec hu
  obtain ⟨hwf, hnodes, hchildren⟩ := dropCallSteps_spec spec cx hscan.toWellFormed
  refine ⟨?_, ?_, hnodes⟩
  · intro source hsource node hreach child
    have hkeptReach := (reach_dropCallSteps_iff hscan.toWellFormed hsource).mp hreach
    have hnode : node ∈ flow.graph.nodes := by
      rw [← FlowGraph.nodes_eq_of_node? hnodes]
      refine hwf.mem_nodes_of_reach hreach ?_
      obtain ⟨id, -, hid⟩ := List.mem_filterMap.mp hsource
      exact FlowGraph.mem_nodes_iff.mpr ⟨id, (hnodes id).trans hid⟩
    have hedge : child ∈ graph.children node ↔
        child ∈ flow.graph.children node ∧ isKept spec cx node child = true := by
      refine (hchildren node child).trans (and_congr_right fun _ => ?_)
      exact ⟨fun h => h ⟨source, hsource, hkeptReach⟩, fun h _ => h⟩
    rw [hedge, hscan.children_iff node hnode child,
      @FlowSpec.mem_openSuccessors_iff_kept spec cx node child]
    constructor
    · rintro ⟨hopen | hcall, hkept⟩
      · exact Or.inl ⟨hopen, hkept⟩
      · exact Or.inr ⟨Or.inr hcall, hcall.2⟩
    · rintro (⟨hopen, hkept⟩ | ⟨hchild, hcall⟩)
      · exact ⟨Or.inl hopen, hkept⟩
      · exact ⟨hchild, isKept_of_callEdge hcall⟩
  · intro node hnone
    refine (hwf.children_increasing node).eq_of_mem_iff
      (hscan.graph.children_increasing node) fun child => ?_
    refine (hchildren node child).trans (and_iff_left ?_)
    rintro ⟨source, hsource, hreach⟩
    exact absurd
      ⟨source, hsource, (reach_dropCallSteps_iff hscan.toWellFormed hsource).mpr hreach⟩ hnone

/-- In the small unit the scanned literal leads to its call and to the parameter of `id`.
    The specification has no step into the call, and only the edge to the parameter is
    left. -/
theorem dropCallSteps_undoes_widening_relayUnit :
    let spec := literalTo (.expression ⟨10⟩)
    let flow := ScannedFlow.ofUnit spec relayContext
    relayUnit.Accepted ∧ flow.sourceNodes = [.expression ⟨11⟩] ∧
    flow.graph.children (.expression ⟨11⟩) = [.expression ⟨10⟩, .parameter ⟨3⟩] ∧
    spec.openSuccessors relayContext (.expression ⟨11⟩) = [] ∧
    ∀ child, child ∈ (dropCallSteps spec relayContext flow).children (.expression ⟨11⟩) ↔
      child = .parameter ⟨3⟩ := by
  intro spec flow
  have hsources : flow.sourceNodes = [.expression ⟨11⟩] := by decide +kernel
  have hscanned : flow.graph.children (.expression ⟨11⟩) =
      [.expression ⟨10⟩, .parameter ⟨3⟩] := by decide +kernel
  have hopen : spec.openSuccessors relayContext (.expression ⟨11⟩) = [] := by decide +kernel
  refine ⟨relayUnit_accepted, hsources, hscanned, hopen, fun child => ?_⟩
  have hedges := (@dropCallSteps_undoes_widening spec relayContext relayUnit_accepted).1
    (.expression ⟨11⟩) (hsources ▸ List.mem_cons_self) (.expression ⟨11⟩) .refl child
  rw [hedges, hopen, hscanned]
  constructor
  · rintro (hnone | ⟨hmem, hcall⟩)
    · cases hnone
    · rcases List.mem_cons.mp hmem with rfl | hmem
      · -- The literal is not returned, and its call is no parameter.
        rcases hcall with ⟨slot, -, hslot⟩ | ⟨method, hmethod, -⟩
        · cases hslot
        · have hnone : (Node.expression ⟨11⟩).returnedFrom? relayUnit = none := by
            decide +kernel
          cases hnone.symm.trans hmethod
      · exact List.mem_singleton.mp hmem
  · rintro rfl
    refine Or.inr ⟨by decide +kernel, Or.inl ?_⟩
    exact ⟨(⟨.named "A", "id", [.string], .string, ⟨0⟩⟩, 0), by decide +kernel, by decide +kernel⟩

end Prune
end ValueFlow
