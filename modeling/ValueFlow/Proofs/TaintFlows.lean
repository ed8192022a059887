/-
  ValueFlow.Proofs.TaintFlows

  What becomes of the flows of values when taint is followed.

  Taint takes all steps of values, so a scan for taint has their sources and edges and
  more. But the walk from a source, which has more ways to go, arrives at more returned
  values after it entered a call, and then it drops their returns to other calls. A flow of
  values is reported for taint, too, unless the walk for taint refuses one of its returns.
-/

import ValueFlow.Proofs.ModelGrowth

namespace ValueFlow

section Scan

variable {spec : FlowSpec} {cx : FlowContext}

/-! ## Edges -/

/-- With the same models, taint takes every step of values. -/
theorem FlowSpec.isStep_taint_self {node next : Node} (h : spec.isStep cx node next = true) :
    spec.taint.isStep cx node next = true :=
  isStep_taint (fun _ _ _ hflows => hflows) rfl h

theorem FlowSpec.openSuccessors_taint {node next : Node}
    (h : next ∈ spec.openSuccessors cx node) : next ∈ spec.taint.openSuccessors cx node := by
  obtain ⟨hsuccessor, hbarrier⟩ := mem_openSuccessors_iff.mp h
  have hnext : next ∈ spec.taint.successors cx node :=
    successors_mono rfl (fun _ _ => isStep_taint_self) hsuccessor
  exact mem_openSuccessors_iff.mpr ⟨hnext, hbarrier⟩

/-- Widening and following taint may be exchanged. -/
theorem FlowSpec.openSuccessors_widened_taint {node next : Node}
    (h : next ∈ spec.widened.openSuccessors cx node) :
    next ∈ spec.taint.widened.openSuccessors cx node := by
  have hwidened : next ∈ spec.widened.taint.openSuccessors cx node := openSuccessors_taint h
  exact hwidened

namespace ScannedFlow

variable (hu : cx.unit.Accepted)
include hu

theorem sourceNodes_taint {node : Node} :
    node ∈ (ofUnit spec.taint cx).sourceNodes ↔ node ∈ (ofUnit spec cx).sourceNodes := by
  rw [(ofUnit_faithful spec.taint hu).sourceNodes_iff, (ofUnit_faithful spec hu).sourceNodes_iff]
  rfl

theorem nodes_taint {node : Node} (h : node ∈ (ofUnit spec cx).graph.nodes) :
    node ∈ (ofUnit spec.taint cx).graph.nodes := by
  rw [(ofUnit_faithful spec hu).nodes_iff] at h
  rw [(ofUnit_faithful spec.taint hu).nodes_iff]
  obtain ⟨start, hstart, hentered, hreach⟩ := h
  refine ⟨start, hstart, hentered, Relation.ReflTransGen.mono ?_ start node hreach⟩
  exact fun a b hstep => FlowSpec.openSuccessors_widened_taint hstep

/-- A scan for taint has all edges. -/
theorem children_taint {node next : Node} (h : next ∈ (ofUnit spec cx).graph.children node) :
    next ∈ (ofUnit spec.taint cx).graph.children node := by
  have hscan := ofUnit_faithful spec hu
  have hnode := hscan.graph.mem_nodes_of_mem_children h
  refine ((ofUnit_faithful spec.taint hu).children_iff node (nodes_taint hu hnode) next).mpr ?_
  rcases (hscan.children_iff node hnode next).mp h with hopen | ⟨hnext, hcall⟩
  · exact Or.inl (FlowSpec.openSuccessors_widened_taint hopen)
  · exact Or.inr ⟨nodes_taint hu hnext, hcall⟩

end ScannedFlow

namespace Prune

theorem isKept_taint {node next : Node} (h : isKept spec cx node next = true) :
    isKept spec.taint cx node next = true := by
  rw [isKept, Bool.or_eq_true] at h ⊢
  exact h.imp_right FlowSpec.isStep_taint_self

variable (spec cx) in
/-- The edges of a scan without the steps of the widening. -/
def edges (node : Node) : List Node :=
  (dropCallSteps spec cx (.ofUnit spec cx)).children node

/-- What a source reaches along the edges, it reaches along edges that are kept, and all
    edges from there are edges for taint, too. -/
theorem edges_taint (hu : cx.unit.Accepted) {source node next : Node}
    (hsource : source ∈ (ScannedFlow.ofUnit spec cx).sourceNodes)
    (hnode : Search.Reach (keptChildren spec cx (ScannedFlow.ofUnit spec cx).graph) source node)
    (h : next ∈ edges spec cx node) :
    Search.Reach (keptChildren spec cx (ScannedFlow.ofUnit spec cx).graph) source next ∧
      next ∈ edges spec.taint cx node := by
  have hscan := (ScannedFlow.ofUnit_faithful spec hu).toWellFormed
  have hscan' := (ScannedFlow.ofUnit_faithful spec.taint hu).toWellFormed
  obtain ⟨hchild, hdropped⟩ := ((dropCallSteps_spec spec cx hscan).2.2 node next).mp h
  have hkept : isKept spec cx node next = true := hdropped ⟨source, hsource, hnode⟩
  refine ⟨hnode.tail (List.mem_filter.mpr ⟨hchild, hkept⟩), ?_⟩
  refine ((dropCallSteps_spec spec.taint cx hscan').2.2 node next).mpr ⟨?_, fun _ => ?_⟩
  · exact ScannedFlow.children_taint hu hchild
  · exact isKept_taint hkept

/-! ## Flows -/

variable (spec cx) in
/-- A flow that is reported: a path from a recorded source to a sink along edges that
    survive for this source. -/
structure Flow (source : Node) (path : List Node) : Prop where
  recorded : source ∈ (ScannedFlow.ofUnit spec cx).sourceNodes
  head : path.head? = some source
  sink : ∃ sink, path.getLast? = some sink ∧ spec.isSink cx sink = true
  survives : path.IsChain fun node next =>
    next ∈ surviving cx.unit (dropCallSteps spec cx (.ofUnit spec cx)) source node

variable (spec cx) in
/-- The walk from a source refuses a return: it arrives at the returned value after it
    entered calls, but not the one that the value is returned to. -/
def Refuses (source node next : Node) : Prop :=
  node.isReturned cx.unit = true ∧ isMethodCall cx.unit next = true ∧
    ∃ entered, (node, entered) ∈
        arrivals cx.unit (dropCallSteps spec cx (.ofUnit spec cx)) source ∧
      entered ≠ [] ∧ next.id ∉ entered

theorem mem_surviving_iff_not_refuses {source node next : Node} :
    next ∈ surviving cx.unit (dropCallSteps spec cx (.ofUnit spec cx)) source node ↔
      next ∈ edges spec cx node ∧ ¬ Refuses spec cx source node next := by
  rw [mem_surviving_iff]
  refine and_congr_right fun _ => ⟨?_, ?_⟩
  · rintro hmatched ⟨hreturned, hcall, entered, harrival, hne, hnot⟩
    exact (hmatched hreturned hcall entered harrival).elim hne hnot
  · intro hnot hreturned hcall entered harrival
    by_contra hcon
    rw [not_or] at hcon
    exact hnot ⟨hreturned, hcall, entered, harrival, hcon.1, hcon.2⟩

/-- The edges of a path, one by one. -/
theorem isChain_iff_edges {step : Node → Node → Prop} {path : List Node} :
    path.IsChain step ↔ ∀ edge ∈ path.zip path.tail, step edge.1 edge.2 := by
  induction path with
  | nil => simp
  | cons first rest ih =>
    cases rest with
    | nil => simp
    | cons next rest =>
      have hzip : (first :: next :: rest).zip (first :: next :: rest).tail =
          (first, next) :: (next :: rest).zip (next :: rest).tail := rfl
      rw [List.isChain_cons_cons, ih, hzip, List.forall_mem_cons]

/-- What holds at the start of a path and along its edges holds all the way. -/
theorem isChain_of_invariant {step other : Node → Node → Prop} {P : Node → Prop}
    (hstep : ∀ node next, P node → step node next → P next ∧ other node next)
    {first : Node} {rest : List Node} (hfirst : P first) (h : (first :: rest).IsChain step) :
    (first :: rest).IsChain other := by
  induction rest generalizing first with
  | nil => exact .singleton first
  | cons next rest ih =>
    obtain ⟨hedge, hrest⟩ := List.isChain_cons_cons.mp h
    obtain ⟨hnext, hother⟩ := hstep first next hfirst hedge
    exact .cons_cons hother (ih hnext hrest)

section Flows

variable (hu : cx.unit.Accepted)
include hu

/-- What takes part are the nodes of the flows. -/
theorem mem_participants_iff_flow {node : Node} :
    node ∈ participants spec cx (.ofUnit spec cx) ↔
      ∃ source path, Flow spec cx source path ∧ node ∈ path := by
  have hscan := (ScannedFlow.ofUnit_faithful spec hu).toWellFormed
  rw [mem_participants_iff hscan]
  constructor
  · rintro ⟨source, hsource, sink, hsink, hforward, hbackward⟩
    obtain ⟨rest, hchain, hlast, hmem⟩ := Search.exists_path hforward hbackward
    exact ⟨source, source :: rest, ⟨hsource, rfl, ⟨sink, hlast, hsink⟩, hchain⟩, hmem⟩
  · rintro ⟨source, path, ⟨hsource, hhead, ⟨sink, hlast, hsink⟩, hchain⟩, hmem⟩
    obtain ⟨rest, rfl⟩ := List.head?_eq_some_iff.mp hhead
    obtain ⟨hforward, hbackward⟩ := Search.reach_of_isChain hchain hlast node hmem
    exact ⟨source, hsource, sink, hsink, hforward, hbackward⟩

/-- The edges of a flow are edges for taint. -/
theorem Flow.isChain_edges_taint {source : Node} {path : List Node}
    (h : Flow spec cx source path) :
    path.IsChain fun node next => next ∈ edges spec.taint cx node := by
  obtain ⟨hsource, hhead, -, hchain⟩ := h
  obtain ⟨rest, rfl⟩ := List.head?_eq_some_iff.mp hhead
  -- All nodes of the path are reached along edges that are kept.
  refine isChain_of_invariant
    (P := Search.Reach (keptChildren spec cx (ScannedFlow.ofUnit spec cx).graph) source)
    (fun node next hnode hstep => ?_) .refl hchain
  exact edges_taint hu hsource hnode (mem_surviving_iff_not_refuses.mp hstep).1

/-- A flow is one for taint if the walk for taint refuses none of its returns. -/
theorem Flow.taint_iff {source : Node} {path : List Node} (h : Flow spec cx source path) :
    Flow spec.taint cx source path ↔
      ∀ edge ∈ path.zip path.tail, ¬ Refuses spec.taint cx source edge.1 edge.2 := by
  constructor
  · intro htaint edge hedge
    exact (mem_surviving_iff_not_refuses.mp
      (isChain_iff_edges.mp htaint.survives edge hedge)).2
  · intro hnot
    have hedges := isChain_iff_edges.mp (h.isChain_edges_taint hu)
    refine ⟨(ScannedFlow.sourceNodes_taint hu).mpr h.recorded, h.head, h.sink,
      isChain_iff_edges.mpr fun edge hedge => ?_⟩
    exact mem_surviving_iff_not_refuses.mpr ⟨hedges edge hedge, hnot edge hedge⟩

end Flows

/-- Following taint keeps the recorded sources and all edges of the flows of values. A flow
    of values is reported for taint exactly if the walk for taint refuses none of its
    returns. So a node that takes part in a flow of values takes part for taint, unless
    there is a refused return on every flow of values through it. -/
theorem taint_keeps_flows_without_refused_returns (spec : FlowSpec) (cx : FlowContext)
    (hu : cx.unit.Accepted) :
    (∀ source, source ∈ (ScannedFlow.ofUnit spec.taint cx).sourceNodes ↔
        source ∈ (ScannedFlow.ofUnit spec cx).sourceNodes) ∧
      (∀ source path, Flow spec cx source path →
        (path.IsChain fun node next => next ∈ edges spec.taint cx node) ∧
          (Flow spec.taint cx source path ↔
            ∀ edge ∈ path.zip path.tail, ¬ Refuses spec.taint cx source edge.1 edge.2)) ∧
      ∀ node, (node ∈ participants spec cx (.ofUnit spec cx) ↔
          ∃ source path, Flow spec cx source path ∧ node ∈ path) ∧
        ((∃ source path, Flow spec cx source path ∧ node ∈ path ∧
            ∀ edge ∈ path.zip path.tail, ¬ Refuses spec.taint cx source edge.1 edge.2) →
          node ∈ participants spec.taint cx (.ofUnit spec.taint cx)) := by
  refine ⟨fun source => ScannedFlow.sourceNodes_taint hu,
    fun source path h => ⟨h.isChain_edges_taint hu, h.taint_iff hu⟩,
    fun node => ⟨mem_participants_iff_flow hu, ?_⟩⟩
  rintro ⟨source, path, hflow, hmem, hnot⟩
  exact (mem_participants_iff_flow hu).mpr ⟨source, path, (hflow.taint_iff hu).mpr hnot, hmem⟩

end Prune
end Scan

/-! ## A flow that is lost -/

/-- A class with three methods. The first one returns its parameter, the second one chooses
    between what the first one makes of a sum and its own parameter, and the third one calls
    the second one: `id(s) { return s; }`, `pick(t) { return true ? id(t + "!") : t; }` and
    `test() { pick("42"); }`. -/
def pickTree : Tree :=
  let method (name : String) (parameters : List TypeRef) : Signature :=
    ⟨.named "A", name, parameters, .string, ⟨0⟩⟩
  let kinds : List Kind := [
    .compilationUnit "" [⟨1⟩], .classDecl "A" [⟨2⟩, ⟨7⟩, ⟨18⟩],
    -- 2 to 6: `id`
    .method (method "id" [.string]) [⟨3⟩] (some ⟨4⟩), .parameter "s" .string,
    .block [⟨5⟩], .ret (some ⟨6⟩), .identifier "s" (some ⟨3⟩) .string,
    -- 7 to 17: `pick`
    .method (method "pick" [.string]) [⟨8⟩] (some ⟨9⟩), .parameter "t" .string,
    .block [⟨10⟩], .ret (some ⟨11⟩), .ternary ⟨12⟩ ⟨13⟩ ⟨17⟩ .string,
    .literal (.bool true) (.primitive .boolean),
    .call none "id" (some (method "id" [.string])) [⟨14⟩],
    .binary .addition ⟨15⟩ ⟨16⟩ .string, .identifier "t" (some ⟨8⟩) .string,
    .literal (.string "!") .string, .identifier "t" (some ⟨8⟩) .string,
    -- 18 to 22: `test`
    .method (method "test" []) [] (some ⟨19⟩), .block [⟨20⟩], .exprStmt ⟨21⟩,
    .call none "pick" (some (method "pick" [.string])) [⟨22⟩], .literal (.string "42") .string]
  { root := ⟨0⟩, elements := (kinds.map fun kind => ⟨none, kind⟩).toArray, types := [] }

/-- The unit of that tree. -/
def pickUnit : CompilationUnit :=
  (CompilationUnit.ofTree pickTree).toOption.get (by decide +kernel)

theorem pickUnit_accepted : pickUnit.Accepted := ⟨pickTree, eq_ok_get _⟩

/-- That unit, without any model. -/
def pickContext : FlowContext := ⟨pickUnit, ⟨⟨[]⟩, ⟨[]⟩, ⟨[]⟩⟩⟩

/-- From the parameter of `pick` to its call. -/
def parameterToPick : SelectorSpec := ⟨false, [.element ⟨8⟩], [.element ⟨21⟩], [], [], []⟩

namespace Prune

/-- The call of `pick` takes part in a flow of values from its parameter, but not if taint is
    followed: then the walk gets to the choice from inside the call of `id`, and drops the
    return to `pick`. -/
theorem flow_of_values_lost_for_taint :
    pickUnit.Accepted ∧ parameterToPick.toSpec.kind = .value ∧
      parameterToPick.toSpec.IgnoresFlowModels ∧
      participants parameterToPick.toSpec pickContext (.ofUnit parameterToPick.toSpec pickContext) =
        [.expression ⟨11⟩, .expression ⟨17⟩, .expression ⟨21⟩, .parameter ⟨8⟩] ∧
      participants parameterToPick.toSpec.taint pickContext
        (.ofUnit parameterToPick.toSpec.taint pickContext) = [] :=
  ⟨pickUnit_accepted, rfl, parameterToPick.toSpec_ignoresFlowModels, by decide +kernel,
    by decide +kernel⟩

/-- All edges of the lost flow are there for taint, but its return is refused. -/
theorem taint_keeps_flows_without_refused_returns_pickUnit :
    let path : List Node := [.parameter ⟨8⟩, .expression ⟨17⟩, .expression ⟨11⟩, .expression ⟨21⟩]
    pickUnit.Accepted ∧ Flow parameterToPick.toSpec pickContext (.parameter ⟨8⟩) path ∧
      (path.IsChain fun node next =>
        next ∈ edges parameterToPick.toSpec.taint pickContext node) ∧
      Refuses parameterToPick.toSpec.taint pickContext (.parameter ⟨8⟩) (.expression ⟨11⟩)
        (.expression ⟨21⟩) ∧
      ¬ Flow parameterToPick.toSpec.taint pickContext (.parameter ⟨8⟩) path := by
  intro path
  have hflow : Flow parameterToPick.toSpec pickContext (.parameter ⟨8⟩) path :=
    ⟨by decide +kernel, rfl, ⟨.expression ⟨21⟩, rfl, by decide +kernel⟩, by decide +kernel⟩
  have hrefuses : Refuses parameterToPick.toSpec.taint pickContext (.parameter ⟨8⟩)
      (.expression ⟨11⟩) (.expression ⟨21⟩) :=
    ⟨by decide +kernel, by decide +kernel, [⟨13⟩], by decide +kernel, by decide, by decide⟩
  obtain ⟨-, hpaths, -⟩ := taint_keeps_flows_without_refused_returns parameterToPick.toSpec
    pickContext pickUnit_accepted
  obtain ⟨hedges, htaint⟩ := hpaths (.parameter ⟨8⟩) path hflow
  refine ⟨pickUnit_accepted, hflow, hedges, hrefuses, fun hkept => ?_⟩
  exact htaint.mp hkept (.expression ⟨11⟩, .expression ⟨21⟩) (by decide) hrefuses

end Prune
end ValueFlow
