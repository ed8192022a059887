/-
  ValueFlow.Proofs.LocalInGlobal

  Flows inside a method are found across methods, too.

  Three things happen to a local step on its way into a global flow. The scan explores
  with more steps, so that the edge is there. Then the edges from arguments to calls are
  dropped unless the specification has them, as it does for every local step. At last
  returned values lose edges to calls, but the local steps of a returned value lead into
  parentheses at most.
-/

import ValueFlow.Proofs.CallContexts
import ValueFlow.Proofs.LocalPaths
import ValueFlow.Proofs.ScanOrder

namespace ValueFlow

/-! ## More steps -/

section Mono

variable {spec other : FlowSpec} {cx later : FlowContext}

/-- The reads after a call that changes an operand: more steps change more operands. -/
theorem Onward.updatedReads_mono (hunit : later.unit = cx.unit)
    (hstep : ∀ a b, spec.isStep cx a b = true → other.isStep later a b = true)
    {id call : ElementId} {select : Option ElementId} {operands : List ElementId} {node : Node}
    (h : node ∈ updatedReads spec cx id call select operands) :
    node ∈ updatedReads other later id call select operands := by
  rw [updatedReads] at h
  split at h
  · next hupdated hvariable =>
    have hmore : (select == some id || operands.any fun operand =>
        operand != id && other.isStep later (.expression operand) (.expression id)) = true := by
      rw [Bool.or_eq_true, List.any_eq_true] at hupdated ⊢
      refine hupdated.imp_right ?_
      rintro ⟨operand, hoperand, hflows⟩
      rw [Bool.and_eq_true] at hflows
      refine ⟨operand, hoperand, ?_⟩
      rw [Bool.and_eq_true]
      exact ⟨hflows.1, hstep _ _ hflows.2⟩
    rw [updatedReads, hmore, hunit, hvariable]
    exact h
  · cases h

/-- Where a value goes from the element around it: to no fewer nodes if there are more
    steps. -/
theorem Onward.intoParent_mono (hunit : later.unit = cx.unit)
    (hstep : ∀ a b, spec.isStep cx a b = true → other.isStep later a b = true)
    (id parent : ElementId) (kind : Kind) :
    (∀ node ∈ (intoParent spec cx id parent kind).always,
      node ∈ (intoParent other later id parent kind).always) ∧
    (intoParent other later id parent kind).ifStep =
      (intoParent spec cx id parent kind).ifStep := by
  cases kind with
  | call select name signature arguments =>
    exact ⟨fun node hnode => updatedReads_mono hunit hstep hnode, rfl⟩
  | _ => exact ⟨fun node hnode => hnode, rfl⟩

/-- More steps lead to no fewer successors. -/
theorem FlowSpec.successors_mono (hunit : later.unit = cx.unit)
    (hstep : ∀ a b, spec.isStep cx a b = true → other.isStep later a b = true)
    {node next : Node} (h : next ∈ spec.successors cx node) :
    next ∈ other.successors later node := by
  cases node with
  | parameter id =>
    rw [successors, hunit]
    exact h
  | expression id =>
    rw [mem_successors_expression_iff] at h ⊢
    rw [hunit]
    refine h.imp_right ?_
    rintro ⟨parent, kind, hparent, hkind, honward⟩
    obtain ⟨halways, hifStep⟩ := Onward.intoParent_mono hunit hstep id parent kind
    refine ⟨parent, kind, hparent, hkind, ?_⟩
    rw [hifStep]
    exact honward.imp (halways next) (And.imp_right (hstep _ next))

end Mono

section Steps

variable {spec : FlowSpec} {cx : FlowContext} {node next : Node}

/-- A scan has the steps of the specification. -/
theorem FlowSpec.isStep_widened (h : spec.isStep cx node next = true) :
    spec.widened.isStep cx node next = true := by
  rw [isStep, Bool.or_eq_true] at h ⊢
  refine h.imp_right fun hextra => ?_
  show (spec.isExtraStep cx node next || isCallStep cx.unit node next) = true
  rw [hextra, Bool.true_or]

theorem FlowSpec.openSuccessors_widened (h : next ∈ spec.openSuccessors cx node) :
    next ∈ spec.widened.openSuccessors cx node := by
  obtain ⟨hsuccessor, hbarrier⟩ := mem_openSuccessors_iff.mp h
  exact mem_openSuccessors_iff.mpr
    ⟨successors_mono rfl (fun _ _ => isStep_widened) hsuccessor, hbarrier⟩

/-! ## What pruning leaves alone -/

/-- What reads a variable is an identifier. -/
theorem CompilationUnit.kind?_of_mem_readsReaching {u : CompilationUnit}
    {variableId definition read : ElementId} (h : read ∈ u.readsReaching variableId definition) :
    ∃ name target type, u.kind? read = some (.identifier name target type) := by
  have hread : u.isReadOf variableId read = true :=
    (List.mem_filter.mp (List.mem_filter.mp h).1).2
  rw [isReadOf, Bool.and_eq_true, Bool.and_eq_true, beq_iff_eq, variableOf?] at hread
  obtain ⟨⟨hvariable, -⟩, -⟩ := hread
  split at hvariable
  · next hkind => exact ⟨_, _, _, hkind⟩
  · cases hvariable

/-- The call that an argument steps into is the element around the argument. -/
theorem isCallStep_cases {u : CompilationUnit} (h : isCallStep u node next = true) :
    ∃ id call kind, node = .expression id ∧ next = .expression call ∧ u.parent? id = some call ∧
      u.kind? call = some kind ∧ id ∈ kind.callArguments := by
  rw [isCallStep] at h
  split at h
  · next call place target hargument htarget =>
    obtain rfl := eq_of_beq h
    cases node with
    | parameter id => cases hargument
    | expression id =>
      cases next with
      | parameter other => cases htarget
      | expression other =>
        obtain rfl : other = call := Option.some.inj htarget
        simp only [Node.argumentOf?, Node.expression?, bind, Option.bind_some,
          Option.bind_eq_some_iff, Option.some.injEq, Prod.mk.injEq] at hargument
        obtain ⟨parent, hparent, kind, hkind, found, hfound, rfl, rfl⟩ := hargument
        refine ⟨id, parent, kind, rfl, rfl, hparent, hkind, ?_⟩
        by_contra hnot
        rw [List.idxOf?_eq_none_iff.mpr hnot] at hfound
        cases hfound
  · cases h

/-- A local step from an argument to its call is a step of the specification. -/
theorem Prune.isKept_of_mem_successors (h : next ∈ spec.successors cx node) :
    isKept spec cx node next = true := by
  rw [isKept, Bool.or_eq_true, Bool.not_eq_true']
  by_cases hcall : isCallStep cx.unit node next = true
  · right
    obtain ⟨id, call, kind, rfl, rfl, hparent, hkind, hargument⟩ := isCallStep_cases hcall
    -- The call is no read, so that only a step of the specification leads to it.
    have hread : ∀ variableId definition,
        call ∉ cx.unit.readsReaching variableId definition := by
      intro variableId definition hmem
      obtain ⟨_, _, _, hidentifier⟩ := CompilationUnit.kind?_of_mem_readsReaching hmem
      cases hkind.symm.trans hidentifier
      cases hargument
    rcases FlowSpec.mem_successors_expression_iff.mp h with
      ⟨variableId, definition, -, hreads⟩ | ⟨parent, other, hother, hotherKind, honward⟩
    · obtain ⟨read, hmem, heq⟩ := List.mem_map.mp hreads
      cases heq
      exact absurd hmem (hread variableId definition)
    · cases hparent.symm.trans hother
      cases hkind.symm.trans hotherKind
      cases kind with
      | call select name signature arguments =>
        rcases honward with halways | ⟨-, hstep⟩
        · obtain ⟨read, variableId, heq, hmem⟩ := Onward.exists_read_of_mem_updatedReads halways
          cases heq
          exact absurd hmem (hread variableId call)
        · exact hstep
      | construct type signature arguments =>
        rcases honward with halways | ⟨-, hstep⟩
        · cases halways
        · exact hstep
      | _ => cases hargument
  · exact Or.inl (Bool.eq_false_iff.mpr hcall)

/-- Outside of the parentheses around an element is the element around it, unless that is
    one in parentheses. -/
theorem Tree.parentOutsideParens?_cases {tree : Tree} {id outer : ElementId}
    (h : tree.parentOutsideParens? id = some outer) :
    ∃ parent, tree.parent? id = some parent ∧
      (parent = outer ∨ tree.isKind Kind.isParens parent = true) := by
  rw [parentOutsideParens?, ancestors] at h
  cases hsize : tree.size with
  | zero =>
    rw [hsize, ancestorsUpTo] at h
    cases h
  | succ bound =>
    rw [hsize, ancestorsUpTo] at h
    cases hparent : tree.parent? id with
    | none =>
      rw [hparent] at h
      cases h
    | some parent =>
      rw [hparent] at h
      refine ⟨parent, rfl, ?_⟩
      by_cases hparens : tree.isKind Kind.isParens parent = true
      · exact Or.inr hparens
      · left
        rw [List.find?_cons_of_pos (by simpa using hparens)] at h
        exact Option.some.inj h

/-- A returned value stands in a return statement, with at most parentheses between. -/
theorem Node.isReturned_cases {u : CompilationUnit} (h : node.isReturned u = true) :
    ∃ id parent kind, node = .expression id ∧ u.parent? id = some parent ∧
      u.kind? parent = some kind ∧
      ((∃ inner, kind = .parens inner) ∨ ∃ value, kind = .ret value) := by
  rw [isReturned] at h
  split at h
  · cases h
  · next id hid =>
    cases node with
    | parameter other => cases hid
    | expression other =>
      cases hid
      split at h
      · next value hvalue =>
        obtain ⟨outer, houter, hkind⟩ := Option.bind_eq_some_iff.mp hvalue
        obtain ⟨parent, hparent, rfl | hparens⟩ := Tree.parentOutsideParens?_cases houter
        · exact ⟨id, parent, _, rfl, hparent, hkind, Or.inr ⟨some value, rfl⟩⟩
        · rw [Tree.isKind, Option.any_eq_true] at hparens
          obtain ⟨kind, hparentKind, hisParens⟩ := hparens
          refine ⟨id, parent, kind, rfl, hparent, hparentKind, Or.inl ?_⟩
          cases kind with
          | parens inner => exact ⟨inner, rfl⟩
          | _ => cases hisParens
      · cases h

/-- A returned value takes no local step to a method call. -/
theorem Prune.not_isMethodCall_of_isReturned (hreturned : node.isReturned cx.unit = true)
    (h : next ∈ spec.successors cx node) : isMethodCall cx.unit next = false := by
  obtain ⟨id, parent, kind, rfl, hparent, hkind, hcases⟩ := Node.isReturned_cases hreturned
  -- Parentheses and return statements define no variable, and neither is a call.
  rcases FlowSpec.mem_successors_expression_iff.mp h with
    ⟨variableId, definition, hdefinition, -⟩ | ⟨other, otherKind, hother, hotherKind, honward⟩
  · rw [CompilationUnit.definition?, hparent] at hdefinition
    rcases hcases with ⟨inner, rfl⟩ | ⟨value, rfl⟩
    · simp [hkind] at hdefinition
    · simp [hkind] at hdefinition
  · cases hparent.symm.trans hother
    cases hkind.symm.trans hotherKind
    rcases hcases with ⟨inner, rfl⟩ | ⟨value, rfl⟩
    · simp only [Onward.intoParent, List.mem_singleton, List.not_mem_nil, false_and,
        or_false] at honward
      subst honward
      simp [isMethodCall, Node.expressionKind?, Node.expression?, hkind]
    · simp [Onward.intoParent, Kind.isExpression, Onward.nowhere] at honward

/-! ## Local flows in a scan -/

/-- An edge to an open successor survives for every source. -/
theorem Prune.mem_surviving_of_openSuccessors (hu : cx.unit.Accepted) (source : Node)
    (hnode : node ∈ (ScannedFlow.ofUnit spec cx).graph.nodes)
    (h : next ∈ spec.openSuccessors cx node) :
    next ∈ surviving cx.unit (dropCallSteps spec cx (.ofUnit spec cx)) source node := by
  have hscan := ScannedFlow.ofUnit_faithful spec hu
  have hsuccessor : next ∈ spec.successors cx node := (FlowSpec.mem_openSuccessors_iff.mp h).1
  obtain ⟨-, -, hchildren⟩ := dropCallSteps_spec spec cx hscan.toWellFormed
  have hchild : next ∈ (ScannedFlow.ofUnit spec cx).graph.children node :=
    (hscan.children_iff node hnode next).mpr (Or.inl (FlowSpec.openSuccessors_widened h))
  refine mem_surviving_iff.mpr ⟨(hchildren node next).mpr ⟨hchild, ?_⟩, ?_⟩
  · exact fun _ => isKept_of_mem_successors hsuccessor
  · intro hreturned hcall
    rw [not_isMethodCall_of_isReturned hreturned hsuccessor] at hcall
    cases hcall

/-- What a node of the scan flows to in its method, it flows to along edges that
    survive. -/
theorem Prune.reach_surviving_of_reach (hu : cx.unit.Accepted) (source : Node) {first last : Node}
    (hfirst : first ∈ (ScannedFlow.ofUnit spec cx).graph.nodes)
    (h : Search.Reach (spec.openSuccessors cx) first last) :
    last ∈ (ScannedFlow.ofUnit spec cx).graph.nodes ∧
      Search.Reach (surviving cx.unit (dropCallSteps spec cx (.ofUnit spec cx)) source)
        first last := by
  have hscan := ScannedFlow.ofUnit_faithful spec hu
  induction h with
  | refl => exact ⟨hfirst, .refl⟩
  | tail _ hstep ih =>
    obtain ⟨hmem, hreach⟩ := ih
    have hsurvives := mem_surviving_of_openSuccessors hu source hmem hstep
    refine ⟨?_, hreach.tail hsurvives⟩
    exact hscan.graph.mem_nodes_of_child
      ((hscan.children_iff _ hmem _).mpr (Or.inl (FlowSpec.openSuccessors_widened hstep)))

/-- A summary is found for sources only, if the control flow of their methods can be built,
    and has a path. -/
theorem source_of_findSinks {start : Node} {summary : SinkSummary}
    (h : findSinks spec cx start = .ok (some summary)) :
    spec.isSource cx start = true ∧ summary.isEmpty = false ∧
      ∀ method, start.enclosingMethod? cx.unit = some method →
        ∃ flow, ControlFlow.build cx.unit method = .ok flow := by
  rw [findSinks] at h
  split at h
  · next hsource =>
    split at h
    · cases h
    · next reachable hreachable =>
      refine ⟨hsource, ?_, fun method hmethod => ?_⟩
      · rw [Except.ok.injEq] at h
        split at h
        · cases h
        · next hnonempty =>
          cases h
          exact Bool.eq_false_iff.mpr hnonempty
      · rw [reachableExpressions, hmethod] at hreachable
        obtain ⟨flow, hbuild, -⟩ := bind_eq_ok_iff.mp hreachable
        exact ⟨flow, hbuild⟩
  · cases h

/-- A summary that is found lists the trails from the source to sinks. -/
theorem findSinks_eq_some (hu : cx.unit.Accepted) {start : Node}
    (hstart : start ∈ Node.attached cx.unit) {summary : SinkSummary}
    (h : findSinks spec cx start = .ok (some summary)) :
    spec.isSource cx start = true ∧ ∀ path, path ∈ summary.paths ↔
      Search.Trail (spec.LocalStep cx start) start path.reverse ∧
        ∃ sink, path.getLast? = some sink ∧ spec.isSink cx sink = true := by
  obtain ⟨hsource, -, hflow⟩ := source_of_findSinks h
  obtain ⟨other, hother, hpaths⟩ := findSinks_eq_ok hu hstart hflow hsource
  rw [h] at hother
  split at hother
  · cases hother
  · cases hother
    exact ⟨hsource, hpaths⟩

/-- A scan enters the parameters that have a position. -/
theorem Accumulator.isEntered_of_position {u : CompilationUnit} (hu : u.Accepted)
    (h : ∀ id, node = .parameter id → (u.parameterPosition? id).isSome = true) :
    isEntered u node = true := by
  cases node with
  | expression id => rfl
  | parameter id =>
    obtain ⟨⟨method, place⟩, hposition⟩ := Option.isSome_iff_exists.mp (h id rfl)
    obtain ⟨signature, parameters, body, hkind, -⟩ :=
      (parameterPosition?_eq_some_iff hu).mp hposition
    have hsignature : u.methodSignature? method = some signature := by
      rw [CompilationUnit.methodSignature?, hkind]
    simp [isEntered, Node.parameterSlot?, Node.parameter?, hposition, hsignature]

/-- Global analysis finds what local analysis does: whatever takes part in a flow inside a
    method takes part in the flows of the unit. -/
theorem participants_of_findSinks (hu : cx.unit.Accepted) {start : Node}
    (hstart : start ∈ Node.attached cx.unit)
    (hposition : ∀ id, start = .parameter id → (cx.unit.parameterPosition? id).isSome = true)
    {summary : SinkSummary} (hfind : findSinks spec cx start = .ok (some summary)) :
    ∀ node ∈ summary.participants, node ∈ Prune.participants spec cx (.ofUnit spec cx) := by
  have hscan := ScannedFlow.ofUnit_faithful spec hu
  obtain ⟨hsource, hpaths⟩ := findSinks_eq_some hu hstart hfind
  have hentered := Accumulator.isEntered_of_position hu hposition
  have hrecorded : start ∈ (ScannedFlow.ofUnit spec cx).sourceNodes :=
    (hscan.sourceNodes_iff start).mpr ⟨hstart, hentered, hsource⟩
  have hmem : start ∈ (ScannedFlow.ofUnit spec cx).graph.nodes :=
    (hscan.nodes_iff start).mpr ⟨start, hstart, hentered, .refl⟩
  have hopen : ∀ a b, Relation.ReflTransGen (spec.LocalStep cx start) a b →
      Search.Reach (spec.openSuccessors cx) a b := by
    intro a b hreach
    refine Relation.ReflTransGen.mono ?_ a b hreach
    exact fun x y hstep => FlowSpec.mem_openSuccessors_iff.mpr ⟨hstep.1, hstep.2.1⟩
  intro node hnode
  rw [SinkSummary.participants, Sorted.mem_ofList, List.mem_flatten] at hnode
  obtain ⟨path, hpath, hnode⟩ := hnode
  obtain ⟨htrail, sink, hlast, hsink⟩ := (hpaths path).mp hpath
  -- The node lies between the source and the sink of its path.
  rw [← List.head?_reverse, List.head?_eq_some_iff] at hlast
  obtain ⟨rest, hrest⟩ := hlast
  rw [← List.mem_reverse, hrest] at hnode
  rw [hrest] at htrail
  obtain ⟨hforward, hbackward⟩ := htrail.between hnode
  obtain ⟨hnodeMem, hsurvives⟩ :=
    Prune.reach_surviving_of_reach hu start hmem (hopen start node hforward)
  obtain ⟨-, hsurvives'⟩ :=
    Prune.reach_surviving_of_reach hu start hnodeMem (hopen node sink hbackward)
  exact (Prune.mem_participants_iff hscan.toWellFormed).mpr
    ⟨start, hrecorded, sink, hsink, hsurvives, hsurvives'⟩

end Steps

/-- In the small unit the flow from the parameter of `id` to what `id` returns is found by
    both analyses. -/
theorem participants_of_findSinks_relayUnit :
    ∃ summary, findSinks parameterToReturn relayContext (.parameter ⟨3⟩) = .ok (some summary) ∧
      summary.participants = [.expression ⟨6⟩, .parameter ⟨3⟩] ∧
      ∀ node ∈ summary.participants,
        node ∈ Prune.participants parameterToReturn relayContext
          (.ofUnit parameterToReturn relayContext) := by
  have hfind : (findSinks parameterToReturn relayContext (.parameter ⟨3⟩)).toOption.map
      (·.map SinkSummary.participants) = some (some [.expression ⟨6⟩, .parameter ⟨3⟩]) := by
    decide +kernel
  obtain ⟨result, hok, hresult⟩ := Option.map_eq_some_iff.mp hfind
  obtain ⟨summary, rfl, hparticipants⟩ := Option.map_eq_some_iff.mp hresult
  have hsome := toOption_eq_some_iff.mp hok
  refine ⟨summary, hsome, hparticipants, ?_⟩
  refine @participants_of_findSinks parameterToReturn relayContext relayUnit_accepted _
    (by decide +kernel) ?_ _ hsome
  intro id heq
  cases heq
  decide +kernel

end ValueFlow
