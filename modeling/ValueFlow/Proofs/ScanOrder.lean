/-
  ValueFlow.Proofs.ScanOrder

  A scan is the same in every order.

  The nodes of a scanned graph and the children of each are fixed by the unit and the
  specification. Vertices are numbered as they are met, so that graphs of two orders
  differ in their numbers, but all that follows from a scan is the same.
-/

import ValueFlow.Proofs.Prune

namespace ValueFlow

/-! ## Calls in the tree -/

section Calls

variable {u : CompilationUnit}

variable (u) in
/-- A value that a method returns, and a call of the method. -/
def ReturnsInto (node call : Node) : Prop :=
  node.isReturned u = true ∧ ∃ method signature called,
    node.enclosingMethod? u = some method ∧ u.methodSignature? method = some signature ∧
    call.callSignature? u = some called ∧ u.declarationOf called = signature

variable (u) in
/-- The argument at a place of a call with this signature. -/
def IsArgument (node : Node) (called : Signature) (place : Nat) : Prop :=
  ∃ argument call kind, node = .expression argument ∧ u.kind? call = some kind ∧
    kind.callSignature? = some called ∧ kind.callArguments[place]? = some argument

variable (u) in
/-- The parameter at a place of an attached method declaration. -/
def IsParameter (node : Node) (signature : Signature) (place : Nat) : Prop :=
  ∃ method ∈ u.attached, ∃ parameters body parameter,
    u.kind? method = some (.method signature parameters body) ∧
    parameters[place]? = some parameter ∧ u.tree.isKind Kind.isParameter parameter = true ∧
    node = .parameter parameter

variable (u) in
/-- An argument, and the parameter at its place in the declaration that its call names. -/
def PassesInto (node parameter : Node) : Prop :=
  ∃ called place, IsArgument u node called place ∧
    IsParameter u parameter (u.declarationOf called) place

theorem returnsInto_iff {node call : Node} :
    ReturnsInto u node call ↔ ∃ method, node.returnedFrom? u = some method ∧
      call.calledDeclaration? u = some method := by
  simp only [Node.returnedFrom?, Node.calledDeclaration?, Option.map_eq_some_iff]
  refine ⟨?_, ?_⟩
  · rintro ⟨hreturned, method, signature, called, hmethod, hsignature, hcalled, hdeclaration⟩
    refine ⟨signature, ?_, called, hcalled, hdeclaration⟩
    rw [if_pos hreturned, hmethod, Option.bind_some, hsignature]
  · rintro ⟨signature, hreturned, called, hcalled, hdeclaration⟩
    split at hreturned
    · next hisReturned =>
      obtain ⟨method, hmethod, hsignature⟩ := Option.bind_eq_some_iff.mp hreturned
      exact ⟨hisReturned, method, signature, called, hmethod, hsignature, hcalled, hdeclaration⟩
    · cases hreturned

/-- In a list without repetition the first place of a member is its only place. -/
theorem idxOf?_eq_some_iff_of_nodup {members : List ElementId} (hnodup : members.Nodup)
    {id : ElementId} {place : Nat} :
    members.idxOf? id = some place ↔ members[place]? = some id := by
  rw [List.idxOf?, List.findIdx?_eq_some_iff_getElem, List.getElem?_eq_some_iff]
  refine ⟨?_, ?_⟩
  · rintro ⟨hlt, hid, -⟩
    exact ⟨hlt, eq_of_beq hid⟩
  · rintro ⟨hlt, hid⟩
    refine ⟨hlt, beq_iff_eq.mpr hid, ?_⟩
    intro earlier hearlier heq
    have hsame : members[earlier] = members[place] := (eq_of_beq heq).trans hid.symm
    have hplace := (List.Nodup.getElem_inj_iff hnodup).mp hsame
    omega

theorem Kind.callArguments_sublist (kind : Kind) : kind.callArguments.Sublist kind.children := by
  cases kind with
  | call select name signature arguments => exact List.sublist_append_right _ _
  | construct type signature arguments => exact List.Sublist.refl _
  | _ => exact List.nil_sublist _

/-- The call of an argument is its parent, and it has one place there. -/
theorem argumentOf?_eq_some_iff (hu : u.Accepted) {node : Node} {call : ElementId} {place : Nat} :
    node.argumentOf? u = some (call, place) ↔ ∃ argument kind, node = .expression argument ∧
      u.kind? call = some kind ∧ kind.callArguments[place]? = some argument := by
  have hplace : ∀ kind, u.kind? call = some kind → ∀ argument,
      kind.callArguments.idxOf? argument = some place ↔
        kind.callArguments[place]? = some argument := by
    intro kind hkind argument
    refine idxOf?_eq_some_iff_of_nodup (kind.callArguments_sublist.nodup ?_)
    rw [← CompilationUnit.children_of_kind? hkind]
    exact hu.linked.nodup call
  cases node with
  | parameter id => simp [Node.argumentOf?, Node.expression?]
  | expression id =>
    simp only [Node.argumentOf?, Node.expression?, bind, Option.bind_some, Option.bind_eq_some_iff,
      Option.some.injEq, Prod.mk.injEq, Node.expression.injEq]
    refine ⟨?_, ?_⟩
    · rintro ⟨_, -, kind, hkind, _, hidx, rfl, rfl⟩
      exact ⟨id, kind, rfl, hkind, (hplace kind hkind id).mp hidx⟩
    · rintro ⟨_, kind, rfl, hkind, hget⟩
      have hchild : id ∈ u.tree.children call := by
        rw [CompilationUnit.children_of_kind? hkind]
        exact kind.callArguments_sublist.subset (List.mem_of_getElem? hget)
      exact ⟨call, (hu.linked.parent_iff id call).mpr hchild, kind, hkind, place,
        (hplace kind hkind id).mpr hget, rfl, rfl⟩

theorem argumentSlot?_eq_some_iff (hu : u.Accepted) {node : Node} {declaration : Signature}
    {place : Nat} :
    node.argumentSlot? u = some (declaration, place) ↔
      ∃ called, IsArgument u node called place ∧ u.declarationOf called = declaration := by
  simp only [Node.argumentSlot?, bind, Option.bind_eq_some_iff, Option.some.injEq, Prod.mk.injEq,
    Prod.exists]
  refine ⟨?_, ?_⟩
  · rintro ⟨call, _, hargument, called, ⟨kind, hkind, hcalled⟩, rfl, rfl⟩
    obtain ⟨argument, other, rfl, hother, hget⟩ := (argumentOf?_eq_some_iff hu).mp hargument
    cases hkind.symm.trans hother
    exact ⟨called, ⟨argument, call, kind, rfl, hkind, hcalled, hget⟩, rfl⟩
  · rintro ⟨called, ⟨argument, call, kind, rfl, hkind, hcalled, hget⟩, rfl⟩
    exact ⟨call, place, (argumentOf?_eq_some_iff hu).mpr ⟨argument, kind, rfl, hkind, hget⟩,
      called, ⟨kind, hkind, hcalled⟩, rfl, rfl⟩

theorem parameterPosition?_eq_some_iff (hu : u.Accepted) {id method : ElementId} {place : Nat} :
    u.parameterPosition? id = some (method, place) ↔ ∃ signature parameters body,
      u.kind? method = some (.method signature parameters body) ∧
      parameters[place]? = some id := by
  have hplace : ∀ signature parameters body,
      u.kind? method = some (.method signature parameters body) →
      (parameters.idxOf? id = some place ↔ parameters[place]? = some id) := by
    intro signature parameters body hkind
    have hnodup := hu.linked.nodup method
    rw [CompilationUnit.children_of_kind? hkind] at hnodup
    exact idxOf?_eq_some_iff_of_nodup (List.nodup_append.mp hnodup).1
  rw [CompilationUnit.parameterPosition?]
  refine ⟨?_, ?_⟩
  · intro h
    split at h
    · cases h
    · split at h
      · next signature parameters body hkind =>
        obtain ⟨_, hidx, heq⟩ := Option.map_eq_some_iff.mp h
        cases heq
        exact ⟨signature, parameters, body, hkind, (hplace _ _ _ hkind).mp hidx⟩
      · cases h
  · rintro ⟨signature, parameters, body, hkind, hget⟩
    have hchild : id ∈ u.tree.children method := by
      rw [CompilationUnit.children_of_kind? hkind]
      exact List.mem_append_left _ (List.mem_of_getElem? hget)
    have hparent : u.parent? id = some method := (hu.linked.parent_iff id method).mpr hchild
    rw [hparent]
    simp only [hkind]
    rw [(hplace _ _ _ hkind).mpr hget, Option.map_some]

theorem Node.parameter_mem_attached_iff {id : ElementId} :
    Node.parameter id ∈ Node.attached u ↔
      id ∈ u.attached ∧ u.tree.isKind Kind.isParameter id = true := by
  have hnot : u.tree.isKind Kind.isParameter id = true →
      u.tree.isKind Kind.isExpression id = false := by
    rw [Tree.isKind, Tree.isKind]
    cases u.tree.kind? id with
    | none => simp
    | some kind => cases kind <;> simp [Kind.isParameter, Kind.isExpression]
  rw [mem_attached_iff]
  refine and_congr_right fun _ => ?_
  rw [ofElement?, ofElement, ofExpression, ofParameter]
  cases hparameter : u.tree.isKind Kind.isParameter id with
  | true => simp [Node.id, hnot hparameter, hparameter, Except.toOption]
  | false =>
    cases hexpression : u.tree.isKind Kind.isExpression id with
    | true => simp [Node.id, hexpression, Except.toOption]
    | false => simp [Node.id, hexpression, hparameter, Except.toOption]

/-- The nodes that a scan finds in the slot of a parameter are the parameters of attached
    declarations. -/
theorem isParameter_iff (hu : u.Accepted) {node : Node} {signature : Signature} {place : Nat} :
    IsParameter u node signature place ↔
      node ∈ Node.attached u ∧ node.parameterSlot? u = some (signature, place) := by
  cases node with
  | expression id => simp [IsParameter, Node.parameterSlot?, Node.parameter?]
  | parameter id =>
    simp only [IsParameter, Node.parameterSlot?, Node.parameter?, bind, Option.bind_some,
      Option.bind_eq_some_iff, Option.some.injEq, Prod.mk.injEq, Prod.exists,
      Node.parameter.injEq, Node.parameter_mem_attached_iff, parameterPosition?_eq_some_iff hu]
    have hattached : ∀ method signature parameters body,
        u.kind? method = some (.method signature parameters body) →
        parameters[place]? = some id → (id ∈ u.attached ↔ method ∈ u.attached) := by
      intro method signature parameters body hkind hget
      refine hu.attached_child_iff ?_
      rw [CompilationUnit.children_of_kind? hkind]
      exact List.mem_append_left _ (List.mem_of_getElem? hget)
    refine ⟨?_, ?_⟩
    · rintro ⟨method, hmethod, parameters, body, _, hkind, hget, hparameter, rfl⟩
      refine ⟨⟨(hattached _ _ _ _ hkind hget).mpr hmethod, hparameter⟩, method, place,
        ⟨signature, parameters, body, hkind, hget⟩, signature, ?_, rfl, rfl⟩
      simp only [CompilationUnit.methodSignature?, hkind]
    · rintro ⟨⟨hid, hparameter⟩, method, _, ⟨other, parameters, body, hkind, hget⟩, _, hsignature,
        rfl, rfl⟩
      simp only [CompilationUnit.methodSignature?, hkind, Option.some.injEq] at hsignature
      subst hsignature
      exact ⟨method, (hattached _ _ _ _ hkind hget).mp hid, parameters, body, id, hkind, hget,
        hparameter, rfl⟩

end Calls

/-! ## What is fixed by nodes and children -/

/-- Two scans that differ in the numbers of their vertices only. -/
structure ScannedFlow.Same (flow other : ScannedFlow) : Prop where
  nodes : ∀ node, node ∈ flow.graph.nodes ↔ node ∈ other.graph.nodes
  children : ∀ node, flow.graph.children node = other.graph.children node
  sources : ∀ node, node ∈ flow.sourceNodes ↔ node ∈ other.sourceNodes

section Same

variable {spec : FlowSpec} {cx : FlowContext} {flow other : ScannedFlow}

/-- The steps of the widening are dropped from both alike. -/
theorem ScannedFlow.Same.dropCallSteps (spec : FlowSpec) (cx : FlowContext)
    (h : flow.Same other) (hflow : flow.WellFormed) (hother : other.WellFormed) :
    (Prune.dropCallSteps spec cx flow).children = (Prune.dropCallSteps spec cx other).children ∧
    (Prune.dropCallSteps spec cx flow).size = (Prune.dropCallSteps spec cx other).size := by
  obtain ⟨hleft, hnodes, hchildren⟩ := Prune.dropCallSteps_spec spec cx hflow
  obtain ⟨hright, hnodes', hchildren'⟩ := Prune.dropCallSteps_spec spec cx hother
  have hkept : Prune.keptChildren spec cx flow.graph = Prune.keptChildren spec cx other.graph := by
    funext node
    rw [Prune.keptChildren, Prune.keptChildren, h.children]
  refine ⟨?_, ?_⟩
  · funext node
    refine (hleft.children_increasing node).eq_of_mem_iff (hright.children_increasing node) ?_
    intro child
    rw [hchildren, hchildren', h.children, hkept]
    simp only [h.sources]
  · -- Both graphs have a vertex for each of the same nodes.
    have hperm : flow.graph.nodes.Perm other.graph.nodes :=
      (List.perm_ext_iff_of_nodup hflow.graph.nodup_nodes hother.graph.nodup_nodes).mpr h.nodes
    have hlength := hperm.length_eq
    rw [← FlowGraph.nodes_eq_of_node? hnodes, ← FlowGraph.nodes_eq_of_node? hnodes'] at hlength
    simpa [FlowGraph.nodes, FlowGraph.size] using hlength

/-- The same nodes take part. -/
theorem ScannedFlow.Same.participants (h : flow.Same other) (hflow : flow.WellFormed)
    (hother : other.WellFormed) :
    Prune.participants spec cx flow = Prune.participants spec cx other := by
  obtain ⟨hchildren, hsize⟩ := h.dropCallSteps spec cx hflow hother
  have hsurviving : Prune.surviving cx.unit (Prune.dropCallSteps spec cx flow) =
      Prune.surviving cx.unit (Prune.dropCallSteps spec cx other) := by
    funext source node
    rw [Prune.surviving, Prune.surviving, Prune.arrivals, Prune.arrivals, hchildren, hsize]
  refine Sorted.Increasing.eq_of_mem_iff (Sorted.increasing_ofList _)
    (Sorted.increasing_ofList _) ?_
  intro node
  refine (Prune.mem_participants_iff hflow).trans ?_
  refine Iff.trans ?_ (Prune.mem_participants_iff hother).symm
  rw [hsurviving]
  simp only [h.sources]

end Same

/-! ## Orders -/

namespace ScannedFlow

variable {spec : FlowSpec} {cx : FlowContext}

/-- Scans of the same nodes are the same. -/
theorem same_ofNodes (hu : cx.unit.Accepted) {nodes others : List Node}
    (hspace : ∀ node ∈ nodes, node ∈ Node.space cx.unit)
    (hmem : ∀ node, node ∈ nodes ↔ node ∈ others) :
    (ofNodes spec cx nodes).Same (ofNodes spec cx others) := by
  have hleft := ofNodes_faithful spec hu hspace
  have hright := ofNodes_faithful spec hu fun node (hnode : node ∈ others) =>
    hspace node ((hmem node).mpr hnode)
  have hsame : ∀ x, x ∈ (ofNodes spec cx nodes).graph.nodes ↔
      x ∈ (ofNodes spec cx others).graph.nodes := by
    intro x
    rw [hleft.nodes_iff, hright.nodes_iff]
    simp only [hmem]
  refine ⟨hsame, ?_, ?_⟩
  · intro node
    by_cases hnode : node ∈ (ofNodes spec cx nodes).graph.nodes
    · refine (hleft.graph.children_increasing node).eq_of_mem_iff
        (hright.graph.children_increasing node) ?_
      intro child
      rw [hleft.children_iff node hnode, hright.children_iff node ((hsame node).mp hnode), hsame]
    · rw [hleft.graph.children_of_not_mem hnode,
        hright.graph.children_of_not_mem (mt (hsame node).mpr hnode)]
  · intro node
    rw [hleft.sourceNodes_iff, hright.sourceNodes_iff, hmem]

/-- Among nodes that are scanned in full, the edges of calls are those that the tree has. -/
theorem callEdge_iff_of_attached (hu : cx.unit.Accepted) {order : List Node}
    (horder : ∀ node, node ∈ order ↔ node ∈ Node.attached cx.unit) {node child : Node} :
    child ∈ (ofNodes spec cx order).graph.nodes ∧ CallEdge cx.unit node child ↔
      (child ∈ (ofNodes spec cx order).graph.nodes ∧ ReturnsInto cx.unit node child) ∨
        PassesInto cx.unit node child := by
  have hscan := ofNodes_faithful spec hu fun node (hnode : node ∈ order) =>
    Node.space_of_attached hu ((horder node).mp hnode)
  -- A parameter with a slot has a vertex exactly if it was scanned.
  have hparameter : ∀ slot, child.parameterSlot? cx.unit = some slot →
      (child ∈ (ofNodes spec cx order).graph.nodes ↔ child ∈ Node.attached cx.unit) := by
    intro slot hslot
    rw [hscan.nodes_iff, ← horder]
    cases child with
    | expression id => cases hslot
    | parameter id =>
      refine ⟨?_, fun hid => ⟨.parameter id, hid, ?_, .refl⟩⟩
      · rintro ⟨start, hstart, -, hreach⟩
        exact Accumulator.eq_of_reach_parameter hu hreach ▸ hstart
      · rw [Accumulator.isEntered, hslot]
        rfl
  rw [CallEdge, and_or_left, or_comm, returnsInto_iff]
  refine or_congr_right ⟨?_, ?_⟩
  · rintro ⟨hchild, ⟨declaration, place⟩, hargument, hslot⟩
    obtain ⟨called, hcalled, rfl⟩ := (argumentSlot?_eq_some_iff hu).mp hargument
    exact ⟨called, place, hcalled,
      (isParameter_iff hu).mpr ⟨(hparameter _ hslot).mp hchild, hslot⟩⟩
  · rintro ⟨called, place, hcalled, hplace⟩
    obtain ⟨hchild, hslot⟩ := (isParameter_iff hu).mp hplace
    exact ⟨(hparameter _ hslot).mpr hchild, (cx.unit.declarationOf called, place),
      (argumentSlot?_eq_some_iff hu).mpr ⟨called, hcalled, rfl⟩, hslot⟩

/-- A scan joins exactly what the tree says, and comes to the same in every order. -/
theorem ofNodes_perm (hu : cx.unit.Accepted) {order : List Node}
    (horder : order.Perm (Node.attached cx.unit)) :
    (∀ node, node ∈ (ofNodes spec cx order).graph.nodes ↔
      node ∈ (ofUnit spec cx).graph.nodes) ∧
    (∀ node ∈ (ofNodes spec cx order).graph.nodes, ∀ child,
      child ∈ (ofNodes spec cx order).graph.children node ↔
        (child ∈ spec.widened.successors cx node ∧ spec.isBarrier cx child = false) ∨
        (child ∈ (ofNodes spec cx order).graph.nodes ∧ ReturnsInto cx.unit node child) ∨
        PassesInto cx.unit node child) ∧
    (∀ node, (ofNodes spec cx order).graph.children node =
      (ofUnit spec cx).graph.children node) ∧
    (∀ node, node ∈ (ofNodes spec cx order).sourceNodes ↔
      node ∈ (ofUnit spec cx).sourceNodes) ∧
    Prune.participants spec cx (ofNodes spec cx order) =
      Prune.participants spec cx (ofUnit spec cx) := by
  have hmem : ∀ node, node ∈ order ↔ node ∈ Node.attached cx.unit := fun _ => horder.mem_iff
  have hspace : ∀ node ∈ order, node ∈ Node.space cx.unit :=
    fun node hnode => Node.space_of_attached hu ((hmem node).mp hnode)
  have hscan := ofNodes_faithful spec hu hspace
  have hsame : (ofNodes spec cx order).Same (ofUnit spec cx) := same_ofNodes hu hspace hmem
  refine ⟨hsame.nodes, ?_, hsame.children, hsame.sources,
    hsame.participants hscan.toWellFormed (ofUnit_faithful spec hu).toWellFormed⟩
  intro node hnode child
  rw [hscan.children_iff node hnode, callEdge_iff_of_attached hu hmem]
  exact or_congr_left FlowSpec.mem_openSuccessors_iff

/-- The small unit scanned backwards: the literal still flows into its call by way of
    `id`. -/
theorem ofNodes_perm_relayUnit :
    (Node.attached relayUnit).reverse.Perm (Node.attached relayUnit) ∧
    (Node.attached relayUnit).reverse ≠ Node.attached relayUnit ∧
    Prune.participants (literalTo (.expression ⟨10⟩)) relayContext
        (ofNodes (literalTo (.expression ⟨10⟩)) relayContext (Node.attached relayUnit).reverse) =
      [.expression ⟨6⟩, .expression ⟨10⟩, .expression ⟨11⟩, .parameter ⟨3⟩] := by
  have hperm : (Node.attached relayUnit).reverse.Perm (Node.attached relayUnit) :=
    List.reverse_perm _
  refine ⟨hperm, by decide +kernel, ?_⟩
  have hsame := @ofNodes_perm (literalTo (.expression ⟨10⟩)) relayContext relayUnit_accepted _ hperm
  rw [hsame.2.2.2.2]
  decide +kernel

end ScannedFlow
end ValueFlow
