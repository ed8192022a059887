/-
  ValueFlow.Proofs.SinkSearch

  The vertices between a source and the sinks.

  Whether a vertex leads to a sink is looked up before it is searched for, and a search is
  over at a vertex that is known to lead to one. The answers stay right all the same: each
  of them is about the vertex where its search began, and a vertex known to lead to a sink
  leads to one from everywhere before it. So a vertex is kept if it leads to a sink, and
  going on only from those that do loses none.
-/

import ValueFlow.Flow.Prune
import ValueFlow.Proofs.FlowGraph

namespace ValueFlow
namespace Prune

variable {graph : FlowGraph} {isSink : Node → Bool}

variable (graph isSink) in
/-- A sink can be reached from a vertex, which may be the vertex itself. -/
def LeadsToSink (id : VertexId) : Prop :=
  ∃ last sink, graph.node? last = some sink ∧ isSink sink = true ∧
    Search.Reach graph.targets id last

theorem LeadsToSink.of_reach {id other : VertexId} (h : LeadsToSink graph isSink other)
    (hreach : Search.Reach graph.targets id other) : LeadsToSink graph isSink id := by
  obtain ⟨last, sink, hlast, hsink, hbehind⟩ := h
  exact ⟨last, sink, hlast, hsink, hreach.trans hbehind⟩

/-! ## Answers -/

variable (graph isSink) in
/-- All answers are right. -/
def Answers.Right (known : Answers) : Prop :=
  ∀ id leads, Sorted.find? id known = some leads →
    (leads = true ↔ LeadsToSink graph isSink id)

theorem Answers.right_nil : Answers.Right graph isSink [] :=
  fun _ _ hnone => by cases hnone

theorem Answers.Right.put {known : Answers} (h : known.Right graph isSink) {id : VertexId}
    {leads : Bool} (hleads : leads = true ↔ LeadsToSink graph isSink id) :
    Answers.Right graph isSink (Sorted.put id leads known) := by
  intro other answer hanswer
  rw [Sorted.find?_put] at hanswer
  split at hanswer
  · next heq =>
    cases hanswer
    rw [heq]
    exact hleads
  · exact h other answer hanswer

/-- A search finds out whether its start leads to a sink, as it is over only where one is
    or is known to be reached. -/
theorem meets_iff_leadsToSink (hwf : graph.WellFormed) {known : Answers}
    (h : known.Right graph isSink) {id : VertexId} (hid : id ∈ graph.ids) :
    Search.meets graph.targets
        (fun other => Sorted.find? other known == some true || (graph.node? other).any isSink)
        graph.size [] [id] = true ↔
      LeadsToSink graph isSink id := by
  have hstart : ∀ other ∈ [id], other ∈ graph.ids := by simpa using hid
  rw [Search.meets_iff hstart (fun _ _ _ htarget => hwf.target_mem_ids htarget)
    (Nat.le_of_eq (FlowGraph.length_ids graph))]
  simp only [List.mem_singleton, exists_eq_left, Bool.or_eq_true, beq_iff_eq, Option.any_eq_true]
  constructor
  · rintro ⟨last, hreach, hknown | ⟨sink, hlast, hsink⟩⟩
    · exact ((h last true hknown).mp rfl).of_reach hreach
    · exact ⟨last, sink, hlast, hsink, hreach⟩
  · rintro ⟨last, sink, hlast, hsink, hreach⟩
    exact ⟨last, hreach, Or.inr ⟨sink, hlast, hsink⟩⟩

/-- What is answered, and that the answers stay right. -/
theorem leadsToSink_spec (hwf : graph.WellFormed) {known : Answers}
    (h : known.Right graph isSink) {id : VertexId} (hid : id ∈ graph.ids) :
    ((leadsToSink graph isSink known id).1 = true ↔ LeadsToSink graph isSink id) ∧
      (leadsToSink graph isSink known id).2.Right graph isSink := by
  rw [leadsToSink]
  cases hknown : Sorted.find? id known with
  | some leads => exact ⟨h id leads hknown, h⟩
  | none =>
    have hmeets := meets_iff_leadsToSink hwf h hid
    exact ⟨hmeets, h.put hmeets⟩

/-! ## Leading vertices -/

variable (graph isSink) in
/-- The vertices that are gone on to from a vertex: none, if no sink can be reached. -/
def goesOnTo (id : VertexId) : List VertexId :=
  if (leadsToSink graph isSink [] id).1 then graph.targets id else []

theorem goesOnTo_eq (hwf : graph.WellFormed) {known : Answers} (h : known.Right graph isSink)
    {id : VertexId} (hid : id ∈ graph.ids) :
    goesOnTo graph isSink id =
      if (leadsToSink graph isSink known id).1 then graph.targets id else [] := by
  have hsame : (leadsToSink graph isSink [] id).1 = (leadsToSink graph isSink known id).1 := by
    rw [Bool.eq_iff_iff, (leadsToSink_spec hwf Answers.right_nil hid).1,
      (leadsToSink_spec hwf h hid).1]
  rw [goesOnTo, hsame]

/-- The vertices that are kept: those that lead to a sink among what is ahead. -/
theorem mem_leadingUpTo_iff (hwf : graph.WellFormed) (bound : Nat) {known : Answers}
    {visited queue : List VertexId} (hknown : known.Right graph isSink)
    (h : Search.Frontier (goesOnTo graph isSink) graph.ids visited queue)
    (hbound : graph.size ≤ bound + visited.length) {id : VertexId} :
    id ∈ leadingUpTo graph isSink bound known visited queue ↔
      LeadsToSink graph isSink id ∧ Search.Ahead (goesOnTo graph isSink) visited queue id := by
  induction bound generalizing known visited queue with
  | zero =>
    -- The bound is used up only when all vertices are visited.
    have hfull : ∀ other ∈ graph.ids, other ∈ visited :=
      Search.subset_of_length_le h.nodup h.found_mem (by rw [FlowGraph.length_ids]; omega)
    refine iff_of_false List.not_mem_nil fun hid => ?_
    exact h.not_ahead (fun other hother => hfull other (h.pending_mem other hother)) hid.2
  | succ bound ih =>
    rw [leadingUpTo]
    rcases Search.dropWhile_found visited queue with
      ⟨hnil, hall⟩ | ⟨first, rest, hcons, hnew, hmem, hrest, hall⟩
    · rw [hnil]
      exact iff_of_false List.not_mem_nil fun hid => h.not_ahead hall hid.2
    · rw [hcons, h.ahead_iff hnew hmem hrest hall]
      have hfirst := h.pending_mem first hmem
      obtain ⟨hleads, hright⟩ := leadsToSink_spec hwf hknown hfirst
      have hgoes := goesOnTo_eq hwf hknown hfirst
      have hnext := h.advance hnew hmem hrest hall
      have hlength : graph.size ≤ bound + (first :: visited).length := by
        rw [List.length_cons]
        omega
      cases hanswer : (leadsToSink graph isSink known first).1 with
      | true =>
        rw [hanswer] at hleads hgoes
        rw [hgoes, if_pos rfl] at hnext ⊢
        -- The queue takes the targets at its end.
        have hqueue : ∀ other, other ∈ rest ++ graph.targets first ↔
            other ∈ graph.targets first ++ rest := fun other => by
          rw [List.mem_append, List.mem_append, or_comm]
        have hlater := ih hright (hnext.of_mem_iff hqueue) hlength
        simp only [Search.Ahead, hqueue] at hlater ⊢
        simp only [hanswer, if_true, List.mem_cons, hlater, and_or_left]
        exact or_congr_left ⟨fun heq => ⟨heq ▸ hleads.mp rfl, heq⟩, And.right⟩
      | false =>
        rw [hanswer] at hleads hgoes
        rw [hgoes, if_neg Bool.false_ne_true, List.nil_append] at hnext ⊢
        have hnot : ¬ LeadsToSink graph isSink first := fun hcon => by cases hleads.mpr hcon
        simp only [hanswer, if_neg Bool.false_ne_true, ih hright hnext hlength]
        refine and_congr_right fun hid => ⟨Or.inr, fun hor => hor.resolve_left ?_⟩
        exact fun heq => hnot (heq ▸ hid)

/-- The vertices between a source and the sinks: going on only where a sink can be reached
    loses none. -/
theorem mem_between_iff (hwf : graph.WellFormed) {source id : VertexId}
    (hsource : source ∈ graph.ids) :
    id ∈ between graph isSink source ↔
      Search.Reach graph.targets source id ∧ LeadsToSink graph isSink id := by
  have hgoes : ∀ a b, b ∈ goesOnTo graph isSink a → b ∈ graph.targets a := by
    intro a b hb
    rw [goesOnTo] at hb
    split at hb
    · exact hb
    · cases hb
  have hstart : Search.Frontier (goesOnTo graph isSink) graph.ids [] [source] :=
    ⟨List.nodup_nil, by simp, by simpa using hsource,
      fun a _ b hb => hwf.target_mem_ids (hgoes a b hb), by simp⟩
  rw [between, mem_leadingUpTo_iff hwf graph.size Answers.right_nil hstart (by simp),
    and_comm]
  refine and_congr_left fun hleads => ?_
  simp only [Search.Ahead, List.not_mem_nil, not_false_eq_true, true_and, List.mem_singleton,
    exists_eq_left]
  refine ⟨Relation.ReflTransGen.mono hgoes source id, ?_⟩
  -- Whatever leads to the vertex leads to its sink, too.
  intro hforward
  have hids : ∀ a, a ∈ graph.ids → Search.Reach graph.targets a id →
      Search.Reach (goesOnTo graph isSink) a id := by
    intro a ha hreach
    induction hreach using Relation.ReflTransGen.head_induction_on with
    | refl => exact .refl
    | @head a b hstep hrest ih =>
      have hb : b ∈ graph.ids := hwf.target_mem_ids hstep
      refine .head ?_ (ih hb)
      have hanswer := (leadsToSink_spec hwf Answers.right_nil ha).1.mpr
        (hleads.of_reach (.head hstep hrest))
      rw [Search.Step, goesOnTo, hanswer, if_pos rfl]
      exact hstep
  exact hids source hsource hforward

end Prune
end ValueFlow
