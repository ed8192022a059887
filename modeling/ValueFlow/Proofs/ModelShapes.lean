/-
  ValueFlow.Proofs.ModelShapes

  What a group of models says is what one of its models says.

  Models of different methods share one predicate if they move values between the same
  positions. The predicate asks for the source and for the target separately, and each time
  any of its models may answer. Still both answers are about one call, and the model that
  matches this call describes the whole step.
-/

import ValueFlow.Proofs.ArgumentPassing
import ValueFlow.Proofs.ModelGrowth
import ValueFlow.Proofs.NearestStatement

namespace ValueFlow

/-! ## Shapes of models -/

/-- A range that may be missing has a position. -/
def ArgumentRange.Covers (range? : Option ArgumentRange) (position : Int) : Prop :=
  ∃ range, range? = some range ∧ range.first ≤ position ∧ position ≤ range.last

namespace ArgumentRange

variable {range : ArgumentRange} {range? : Option ArgumentRange} {position : Int}

theorem mem_positions_iff :
    position ∈ range.positions ↔ range.first ≤ position ∧ position ≤ range.last := by
  simp only [positions, leading, count, min_self, List.mem_map, List.mem_range]
  constructor
  · rintro ⟨offset, hoffset, rfl⟩
    omega
  · rintro ⟨hfirst, hlast⟩
    exact ⟨(position - range.first).toNat, by omega, by omega⟩

theorem mem_getD_positions_iff :
    position ∈ (range?.map positions).getD [] ↔ Covers range? position := by
  cases range? with
  | none => simp [Covers]
  | some range => simp [Covers, mem_positions_iff]

end ArgumentRange

/-- A flow model moves values between the positions of a shape. -/
inductive FlowModel.HasShape (model : FlowModel) : FlowShape → Prop
  | toReturn {i : Int} (input : ArgumentRange.Covers model.method.inputRange? i)
      (output : model.output = returnPosition ∨ model.method.isConstructor = true) :
      HasShape model (.toReturn i)
  | toReceiver {i : Int} (input : ArgumentRange.Covers model.method.inputRange? i)
      (ne_receiver : i ≠ -1) (output : model.output = receiverPosition)
      (isMethod : model.method.isConstructor = false) : HasShape model (.toReceiver i)
  | toArgument {i j : Int} (input : ArgumentRange.Covers model.method.inputRange? i)
      (output : ArgumentRange.Covers model.outputRange? j) (nonneg : 0 ≤ j) :
      HasShape model (.toArgument i j)

/-- A sink model is about the position of a shape. -/
inductive SinkModel.HasShape (model : SinkModel) : SinkShape → Prop
  | returned (input : model.method.input = returnPosition) : HasShape model .returned
  | argument {i : Int} (input : ArgumentRange.Covers model.method.inputRange? i) :
      HasShape model (.argument i)

theorem FlowModel.mem_shapes_iff {model : FlowModel} {shape : FlowShape} :
    shape ∈ model.shapes ↔ model.HasShape shape := by
  simp only [shapes, MethodModel.inputs, List.mem_append, List.mem_flatMap]
  refine ⟨?_, fun h => ?_⟩
  · rintro ((hreturn | hreceiver) | ⟨i, hi, hargument⟩)
    · split at hreturn
      · next houtput =>
        obtain ⟨i, hi, rfl⟩ := List.mem_map.mp hreturn
        rw [Bool.or_eq_true, beq_iff_eq] at houtput
        exact .toReturn (ArgumentRange.mem_getD_positions_iff.mp hi) houtput
      · cases hreturn
    · split at hreceiver
      · next houtput =>
        obtain ⟨i, hi, rfl⟩ := List.mem_map.mp hreceiver
        rw [List.mem_filter, bne_iff_ne] at hi
        rw [Bool.and_eq_true, beq_iff_eq, Bool.not_eq_true'] at houtput
        exact .toReceiver (ArgumentRange.mem_getD_positions_iff.mp hi.1) hi.2 houtput.1 houtput.2
      · cases hreceiver
    · obtain ⟨j, hj, rfl⟩ := List.mem_map.mp hargument
      rw [List.mem_filter, decide_eq_true_eq] at hj
      exact .toArgument (ArgumentRange.mem_getD_positions_iff.mp hi)
        (ArgumentRange.mem_getD_positions_iff.mp hj.1) hj.2
  · cases h with
    | toReturn input output =>
      refine Or.inl (Or.inl ?_)
      rw [if_pos (by rwa [Bool.or_eq_true, beq_iff_eq])]
      exact List.mem_map_of_mem (ArgumentRange.mem_getD_positions_iff.mpr input)
    | toReceiver input hne output isMethod =>
      refine Or.inl (Or.inr ?_)
      rw [if_pos (by rw [Bool.and_eq_true, beq_iff_eq, isMethod]; exact ⟨output, rfl⟩)]
      exact List.mem_map_of_mem (List.mem_filter.mpr
        ⟨ArgumentRange.mem_getD_positions_iff.mpr input, bne_iff_ne.mpr hne⟩)
    | @toArgument i j input output nonneg =>
      refine Or.inr ⟨i, ArgumentRange.mem_getD_positions_iff.mpr input, ?_⟩
      exact List.mem_map_of_mem (List.mem_filter.mpr
        ⟨ArgumentRange.mem_getD_positions_iff.mpr output, decide_eq_true nonneg⟩)

theorem SinkModel.mem_shapes_iff {model : SinkModel} {shape : SinkShape} :
    shape ∈ model.shapes ↔ model.HasShape shape := by
  simp only [shapes, MethodModel.inputs, List.mem_append]
  refine ⟨?_, fun h => ?_⟩
  · rintro (hreturn | hargument)
    · split at hreturn
      · next hinput =>
        rw [List.mem_singleton.mp hreturn]
        exact .returned (beq_iff_eq.mp hinput)
      · cases hreturn
    · obtain ⟨i, hi, rfl⟩ := List.mem_map.mp hargument
      exact .argument (ArgumentRange.mem_getD_positions_iff.mp hi)
  · cases h with
    | returned input =>
      refine Or.inl ?_
      rw [if_pos (beq_iff_eq.mpr input)]
      exact List.mem_singleton_self _
    | argument input =>
      exact Or.inr (List.mem_map_of_mem (ArgumentRange.mem_getD_positions_iff.mpr input))

/-! ## Comparing shapes and flow models -/

/-- Shapes come by their outputs and then by their positions. -/
theorem FlowShape.compare_eq : (compare : FlowShape → FlowShape → Ordering) =
    compareLex (compareOn fun | .toReturn _ => 0 | .toReceiver _ => 1 | .toArgument _ _ => 2)
      (compareLex (compareOn fun | .toReturn i => i | .toReceiver i => i | .toArgument i _ => i)
        (compareOn fun | .toArgument _ j => j | _ => 0)) := by
  funext a b
  cases a with
  | toReturn i => cases b <;> rfl
  | toReceiver i => cases b <;> rfl
  | toArgument i j =>
    cases b with
    | toArgument other target =>
      exact congrArg (compare i other).then Ordering.then_eq
    | _ => rfl

instance : Std.TransOrd FlowShape := by
  rw [Std.TransOrd, FlowShape.compare_eq]
  infer_instance

instance : Std.LawfulEqOrd FlowShape where
  eq_of_compare {a b} h := by
    rw [FlowShape.compare_eq, compareLex, compareLex, Ordering.then_eq_eq,
      Ordering.then_eq_eq] at h
    cases a <;> cases b <;> simp_all [compareOn]

theorem FlowKind.compare_eq : (compare : FlowKind → FlowKind → Ordering) =
    compareOn fun | .value => 0 | .taint => 1 := by
  funext a b
  cases a <;> cases b <;> rfl

instance : Std.TransOrd FlowKind := by
  rw [Std.TransOrd, FlowKind.compare_eq]
  infer_instance

instance : Std.LawfulEqOrd FlowKind where
  eq_of_compare {a b} h := by
    cases a <;> cases b <;> first | rfl | cases h

theorem FlowModel.compare_eq : (compare : FlowModel → FlowModel → Ordering) =
    compareLex (compareOn FlowModel.method) (compareLex (compareOn FlowModel.output)
      (compareLex (compareOn FlowModel.kind) (compareOn FlowModel.provenance))) := by
  funext a b
  simp only [compareLex, compareOn]
  rw [← Ordering.then_eq (o := compare a.provenance b.provenance)]
  rfl

instance : Std.TransOrd FlowModel := by
  rw [Std.TransOrd, FlowModel.compare_eq]
  infer_instance

instance : Std.LawfulEqOrd FlowModel where
  eq_of_compare {a b} h := by
    rw [FlowModel.compare_eq] at h
    simp only [compareLex, compareOn, Ordering.then_eq_eq,
      Std.LawfulEqOrd.compare_eq_iff_eq] at h
    cases a
    cases b
    simp_all

/-! ## Positions in a call -/

/-- A node takes a position of a call: it is the receiver, or an argument, where all arguments
    from a variadic last parameter on are at the position of that parameter. -/
inductive Occupies (u : CompilationUnit) (node : Node) (call : ElementId) : Int → Prop
  | receiver {id : ElementId} {name : String} {called : Option Signature}
      {arguments : List ElementId} (node_eq : node = .expression id)
      (kind : u.kind? call = some (.call (some id) name called arguments)) :
      Occupies u node call (-1)
  | argument {id : ElementId} {kind : Kind} {called : Signature} {place : Nat}
      (node_eq : node = .expression id) (kind_eq : u.kind? call = some kind)
      (called_eq : kind.callSignature? = some called)
      (place_eq : kind.callArguments[place]? = some id)
      (fixed : called.isVarargs = true → place + 1 < called.parameterTypes.length ∨
        called.parameterTypes = []) : Occupies u node call place
  | variadic {id : ElementId} {kind : Kind} {called : Signature} {place last : Nat}
      (node_eq : node = .expression id) (kind_eq : u.kind? call = some kind)
      (called_eq : kind.callSignature? = some called)
      (place_eq : kind.callArguments[place]? = some id) (isVarargs : called.isVarargs = true)
      (length_eq : called.parameterTypes.length = last + 1) (le_place : last ≤ place) :
      Occupies u node call last

/-- Two nodes take the positions of a shape in a call. -/
inductive FlowShape.Joins (u : CompilationUnit) (call : ElementId) :
    FlowShape → Node → Node → Prop
  | toReturn {i : Int} {source : Node} (input : Occupies u source call i) :
      Joins u call (.toReturn i) source (.expression call)
  | toReceiver {i : Int} {source target : Node} (input : Occupies u source call i)
      (output : Occupies u target call (-1)) : Joins u call (.toReceiver i) source target
  | toArgument {i j : Int} {source target : Node} (input : Occupies u source call i)
      (output : Occupies u target call j) : Joins u call (.toArgument i j) source target

/-- A node takes the position of a shape in a call. -/
inductive SinkShape.At (u : CompilationUnit) (call : ElementId) : SinkShape → Node → Prop
  | returned : At u call .returned (.expression call)
  | argument {i : Int} {node : Node} (input : Occupies u node call i) :
      At u call (.argument i) node

section Positions

variable {u : CompilationUnit} {node : Node} {call : ElementId} {index : Int}

theorem Occupies.eq_neg_one_or_natCast (h : Occupies u node call index) :
    index = -1 ∨ ∃ place : Nat, index = place := by
  cases h with
  | receiver => exact Or.inl rfl
  | argument => exact Or.inr ⟨_, rfl⟩
  | variadic => exact Or.inr ⟨_, rfl⟩

/-- What takes a position of a call stands directly below it. -/
theorem Occupies.exists_child (h : Occupies u node call index) :
    ∃ id ∈ u.tree.children call, node = .expression id := by
  have hargument : ∀ {id : ElementId} {kind : Kind} {place : Nat}, u.kind? call = some kind →
      kind.callArguments[place]? = some id → id ∈ u.tree.children call := by
    intro id kind place hkind hplace
    rw [CompilationUnit.children_of_kind? hkind]
    exact kind.callArguments_sublist.subset (List.mem_of_getElem? hplace)
  cases h with
  | @receiver id _ _ _ hnode hkind =>
    refine ⟨id, ?_, hnode⟩
    rw [CompilationUnit.children_of_kind? hkind]
    exact List.mem_cons_self
  | argument hnode hkind _ hplace => exact ⟨_, hargument hkind hplace, hnode⟩
  | variadic hnode hkind _ hplace => exact ⟨_, hargument hkind hplace, hnode⟩

variable (hu : u.Accepted)
include hu

theorem receiverOf?_eq_some_iff :
    node.receiverOf? u = some call ↔ Occupies u node call (-1) := by
  refine ⟨fun h => ?_, fun h => ?_⟩
  · cases node with
    | parameter id => cases h
    | expression id =>
      obtain ⟨parent, -, hmatch⟩ := Option.bind_eq_some_iff.mp h
      split at hmatch
      · next select name called arguments hkind =>
        split at hmatch
        · next heq =>
          cases hmatch
          exact .receiver (heq ▸ rfl) hkind
        · cases hmatch
      · cases hmatch
  · -- Only receivers are at this position: the others are not negative.
    generalize hindex : (-1 : Int) = index at h
    cases h with
    | @receiver id name called arguments hnode hkind =>
      have hchild : id ∈ u.tree.children call := by
        rw [CompilationUnit.children_of_kind? hkind]
        exact List.mem_cons_self
      have hparent : u.parent? id = some call := (hu.linked.parent_iff id call).mpr hchild
      simp [hnode, Node.receiverOf?, Node.expression?, hparent, hkind]
    | argument => omega
    | variadic => omega

/-- The other positions are those of arguments. -/
theorem occupies_natCast_iff {index : Nat} :
    Occupies u node call index ↔ ∃ place called, node.argumentOf? u = some (call, place) ∧
      (u.kind? call).bind Kind.callSignature? = some called ∧
      Matcher.parameterIndex called place = index := by
  simp only [argumentOf?_eq_some_iff hu, Option.bind_eq_some_iff]
  refine ⟨fun h => ?_, ?_⟩
  · generalize hindex : (index : Int) = position at h
    cases h with
    | receiver => omega
    | @argument id kind called place hnode hkind hcalled hplace hfixed =>
      refine ⟨place, called, ⟨id, kind, hnode, hkind, hplace⟩, ⟨kind, hkind, hcalled⟩, ?_⟩
      rw [Matcher.parameterIndex, if_neg]
      · omega
      · rintro ⟨hvarargs, hpositive, hlast⟩
        rcases hfixed hvarargs with hbefore | hempty
        · omega
        · rw [hempty] at hpositive
          exact absurd hpositive (Nat.lt_irrefl 0)
    | @variadic id kind called place last hnode hkind hcalled hplace hvarargs hlength hlast =>
      refine ⟨place, called, ⟨id, kind, hnode, hkind, hplace⟩, ⟨kind, hkind, hcalled⟩, ?_⟩
      rw [Matcher.parameterIndex, if_pos ⟨hvarargs, by omega, by omega⟩]
      omega
  · rintro ⟨place, called, ⟨id, kind, hnode, hkind, hplace⟩, ⟨other, hother, hcalled⟩, rfl⟩
    cases hkind.symm.trans hother
    rw [Matcher.parameterIndex]
    split
    · next hfolded =>
      exact .variadic hnode hkind hcalled hplace hfolded.1 (by omega) hfolded.2.2
    · next hfixed =>
      refine .argument hnode hkind hcalled hplace fun hvarargs => ?_
      by_cases hempty : called.parameterTypes = []
      · exact Or.inr hempty
      · have hpositive := List.length_pos_of_ne_nil hempty
        have hbefore : ¬ called.parameterTypes.length - 1 ≤ place := fun hlast =>
          hfixed ⟨hvarargs, hpositive, hlast⟩
        exact Or.inl (by omega)

/-- A matcher takes a node to be passed to a parameter if the node takes that position in a
    call that is matched. -/
theorem Matcher.isParameter_iff {m : Matcher} :
    m.isParameter u node index = true ↔
      0 ≤ index ∧ ∃ call, m.matchesCall u call = true ∧ Occupies u node call index := by
  rw [isParameter, Option.any_eq_true]
  refine ⟨?_, ?_⟩
  · rintro ⟨⟨call, place⟩, hfound, hcalled⟩
    obtain ⟨hargument, hmatches⟩ := Option.filter_eq_some_iff.mp hfound
    rw [Option.any_eq_true] at hcalled
    obtain ⟨called, hcalled, hindex⟩ := hcalled
    rw [beq_iff_eq] at hindex
    subst hindex
    exact ⟨Int.natCast_nonneg _, call, hmatches,
      (occupies_natCast_iff hu).mpr ⟨place, called, hargument, hcalled, rfl⟩⟩
  · rintro ⟨hnonneg, call, hmatches, hoccupies⟩
    obtain ⟨position, rfl⟩ := Int.eq_ofNat_of_zero_le hnonneg
    obtain ⟨place, called, hargument, hcalled, rfl⟩ := (occupies_natCast_iff hu).mp hoccupies
    refine ⟨(call, place), Option.filter_eq_some_iff.mpr ⟨hargument, hmatches⟩, ?_⟩
    rw [Option.any_eq_true]
    exact ⟨called, hcalled, beq_self_eq_true _⟩

/-- In a call that is matched, the inputs are the nodes at the position. -/
theorem FlowPredicate.isInput_iff {predicate : FlowPredicate}
    (hmatches : predicate.matcher.matchesCall u call = true) :
    predicate.isInput u node call index = true ↔ Occupies u node call index := by
  rw [isInput]
  split
  · next hreceiver =>
    rw [beq_iff_eq, receiverOf?_eq_some_iff hu, beq_iff_eq.mp hreceiver]
  · next hnot =>
    rw [beq_iff_eq] at hnot
    rw [Bool.and_eq_true, beq_iff_eq, Matcher.isParameter_iff hu]
    refine ⟨?_, fun h => ?_⟩
    · rintro ⟨hargument, hnonneg, other, -, hoccupies⟩
      obtain ⟨position, rfl⟩ := Int.eq_ofNat_of_zero_le hnonneg
      obtain ⟨place, -, hplace, -⟩ := (occupies_natCast_iff hu).mp hoccupies
      rw [hplace] at hargument
      cases hargument
      exact hoccupies
    · obtain ⟨position, rfl⟩ := h.eq_neg_one_or_natCast.resolve_left hnot
      obtain ⟨place, -, hplace, -⟩ := (occupies_natCast_iff hu).mp h
      exact ⟨by rw [hplace]; rfl, Int.natCast_nonneg _, call, hmatches, h⟩

/-- No node is the receiver and an argument of the same call. -/
theorem Occupies.eq_neg_one (h : Occupies u node call index)
    (hreceiver : Occupies u node call (-1)) : index = -1 := by
  refine h.eq_neg_one_or_natCast.resolve_right ?_
  rintro ⟨position, rfl⟩
  obtain ⟨place, -, hargument, -⟩ := (occupies_natCast_iff hu).mp h
  obtain ⟨id, kind, rfl, hkind, hplace⟩ := (argumentOf?_eq_some_iff hu).mp hargument
  generalize hindex : (-1 : Int) = index at hreceiver
  cases hreceiver with
  | receiver hnode hcall =>
    cases hnode
    cases hkind.symm.trans hcall
    have hnodup := hu.linked.nodup call
    rw [CompilationUnit.children_of_kind? hcall] at hnodup
    exact (List.nodup_cons.mp hnodup).1 (List.mem_of_getElem? hplace)
  | argument => omega
  | variadic => omega

end Positions

/-! ## Steps of a predicate -/

section Steps

variable {u : CompilationUnit} (hu : u.Accepted) {predicate : FlowPredicate} {i j : Int}
  {source target : Node} {call : ElementId}
include hu

theorem FlowPredicate.isStep_toReturn_iff (hshape : predicate.shape = .toReturn i) :
    predicate.isStep u source target = true ↔ ∃ call,
      predicate.matcher.matchesCall u call = true ∧
        (FlowShape.toReturn i).Joins u call source target := by
  simp only [isStep, hshape]
  refine ⟨fun h => ?_, ?_⟩
  · cases target with
    | parameter id => cases h
    | expression call =>
      obtain ⟨hinput, hmatches⟩ := Bool.and_eq_true_iff.mp h
      exact ⟨call, hmatches, .toReturn ((isInput_iff hu hmatches).mp hinput)⟩
  · rintro ⟨call, hmatches, hjoins⟩
    cases hjoins with
    | toReturn hinput =>
      exact Bool.and_eq_true_iff.mpr ⟨(isInput_iff hu hmatches).mpr hinput, hmatches⟩

theorem FlowPredicate.isStep_toReceiver_iff (hshape : predicate.shape = .toReceiver i) :
    predicate.isStep u source target = true ↔ ∃ call,
      predicate.matcher.matchesCall u call = true ∧
        (FlowShape.toReceiver i).Joins u call source target := by
  simp only [isStep, hshape]
  refine ⟨fun h => ?_, ?_⟩
  · split at h
    · cases h
    · next call hreceiver =>
      obtain ⟨hinput, hmatches⟩ := Bool.and_eq_true_iff.mp h
      exact ⟨call, hmatches, .toReceiver ((isInput_iff hu hmatches).mp hinput)
        ((receiverOf?_eq_some_iff hu).mp hreceiver)⟩
  · rintro ⟨call, hmatches, hjoins⟩
    cases hjoins with
    | toReceiver hinput houtput =>
      rw [(receiverOf?_eq_some_iff hu).mpr houtput]
      exact Bool.and_eq_true_iff.mpr ⟨(isInput_iff hu hmatches).mpr hinput, hmatches⟩

/-- The call of the target is the one that is matched, and the source is looked for there. -/
theorem FlowPredicate.isStep_toArgument_iff (hshape : predicate.shape = .toArgument i j)
    (hj : 0 ≤ j) :
    predicate.isStep u source target = true ↔ source ≠ target ∧ ∃ call,
      predicate.matcher.matchesCall u call = true ∧
        (FlowShape.toArgument i j).Joins u call source target := by
  have hargument : ∀ {call : ElementId}, Occupies u target call j →
      ∃ place, target.argumentOf? u = some (call, place) := by
    intro call houtput
    obtain ⟨position, rfl⟩ := Int.eq_ofNat_of_zero_le hj
    obtain ⟨place, -, hplace, -⟩ := (occupies_natCast_iff hu).mp houtput
    exact ⟨place, hplace⟩
  simp only [isStep, hshape]
  refine ⟨fun h => ?_, ?_⟩
  · split at h
    · cases h
    · next call place hplace =>
      rw [Bool.and_eq_true, Bool.and_eq_true, bne_iff_ne, Matcher.isParameter_iff hu] at h
      obtain ⟨⟨hne, hinput⟩, -, other, hmatches, houtput⟩ := h
      obtain ⟨_, hother⟩ := hargument houtput
      cases hplace.symm.trans hother
      exact ⟨hne, call, hmatches, .toArgument ((isInput_iff hu hmatches).mp hinput) houtput⟩
  · rintro ⟨hne, call, hmatches, hjoins⟩
    cases hjoins with
    | toArgument hinput houtput =>
      obtain ⟨place, hplace⟩ := hargument houtput
      rw [hplace]
      simp only [Bool.and_eq_true, bne_iff_ne, Matcher.isParameter_iff hu]
      exact ⟨⟨hne, (isInput_iff hu hmatches).mpr hinput⟩, hj, call, hmatches, houtput⟩

/-- An attached call is none of its own inputs. -/
theorem Occupies.ne_call {index : Int} (h : Occupies u source call index)
    (hsource : source ∈ Node.attached u) : source ≠ .expression call := by
  rintro rfl
  obtain ⟨id, hchild, heq⟩ := h.exists_child
  cases heq
  have hattached : call ∈ u.attached := (Node.mem_attached_iff.mp hsource).1
  exact hu.not_contains_parent hattached hchild (hu.contains_self hattached)

/-- A predicate for a shape of some model has the steps between different nodes at the
    positions of the shape, in the calls that it matches. -/
theorem FlowPredicate.isStep_iff {model : FlowModel} (hshape : model.HasShape predicate.shape)
    (hsource : source ∈ Node.attached u) :
    predicate.isStep u source target = true ↔ source ≠ target ∧ ∃ call,
      predicate.matcher.matchesCall u call = true ∧
        predicate.shape.Joins u call source target := by
  generalize heq : predicate.shape = shape at hshape
  cases hshape with
  | toReturn _ _ =>
    rw [isStep_toReturn_iff hu heq]
    refine (and_iff_right_of_imp ?_).symm
    rintro ⟨call, -, hjoins⟩
    cases hjoins with
    | toReturn hinput => exact hinput.ne_call hu hsource
  | toReceiver _ hne _ _ =>
    rw [isStep_toReceiver_iff hu heq]
    refine (and_iff_right_of_imp ?_).symm
    rintro ⟨call, -, hjoins⟩ rfl
    cases hjoins with
    | toReceiver hinput houtput => exact hne (hinput.eq_neg_one hu houtput)
  | toArgument _ _ hnonneg => exact isStep_toArgument_iff hu heq hnonneg

/-- A node takes an argument position in a matched call if the matcher takes it for the
    receiver or for an argument passed there. -/
theorem SinkPredicate.isSink_argument_iff {predicate : SinkPredicate} {node : Node} {index : Int}
    (hshape : predicate.shape = .argument index) :
    predicate.isSink u node = true ↔ ∃ call,
      predicate.matcher.matchesCall u call = true ∧ Occupies u node call index := by
  simp only [isSink, hshape]
  split
  · next hreceiver =>
    rw [Matcher.isReceiver, Option.any_eq_true, beq_iff_eq.mp hreceiver]
    simp only [receiverOf?_eq_some_iff hu, and_comm]
  · next hnot =>
    rw [beq_iff_eq] at hnot
    rw [Matcher.isParameter_iff hu]
    refine and_iff_right_of_imp ?_
    rintro ⟨call, -, hinput⟩
    obtain ⟨position, rfl⟩ := hinput.eq_neg_one_or_natCast.resolve_left hnot
    exact Int.natCast_nonneg _

theorem SinkPredicate.isSink_iff {predicate : SinkPredicate} {node : Node} :
    predicate.isSink u node = true ↔ ∃ call,
      predicate.matcher.matchesCall u call = true ∧ predicate.shape.At u call node := by
  cases hshape : predicate.shape with
  | argument index =>
    rw [isSink_argument_iff hu hshape]
    refine exists_congr fun call => and_congr_right fun _ => ⟨.argument, fun hat => ?_⟩
    cases hat with
    | argument hinput => exact hinput
  | returned =>
    simp only [isSink, hshape, Option.any_eq_true]
    refine ⟨?_, ?_⟩
    · rintro ⟨call, hcall, hmatches⟩
      cases node with
      | parameter id => cases hcall
      | expression id =>
        cases hcall
        exact ⟨_, hmatches, .returned⟩
    · rintro ⟨call, hmatches, hat⟩
      cases hat
      exact ⟨call, rfl, hmatches⟩

end Steps

/-! ## Groups of models -/

/-- A single model moves values from one node into another one: it is about the method of a
    call, and the nodes take positions there that it moves values between. -/
def FlowModel.Moves (model : FlowModel) (u : CompilationUnit) (source target : Node) : Prop :=
  ∃ call called shape, (u.kind? call).bind Kind.callSignature? = some called ∧
    model.method.isAbout u.hierarchy called = true ∧ model.HasShape shape ∧
    shape.Joins u call source target

/-- A single sink model is about a node: it is about the method of a call, and the node takes
    a position of the model there. -/
def SinkModel.Marks (model : SinkModel) (u : CompilationUnit) (node : Node) : Prop :=
  ∃ call called shape, (u.kind? call).bind Kind.callSignature? = some called ∧
    model.method.isAbout u.hierarchy called = true ∧ model.HasShape shape ∧
    shape.At u call node

section Groups

variable {u : CompilationUnit} {call : ElementId}

theorem FlowPredicate.mem_models_ofShape_iff {models : List FlowModel} {shape : FlowShape}
    {model : FlowModel} :
    model ∈ (ofShape models shape).models.toList ↔ model ∈ models ∧ model.HasShape shape := by
  rw [ofShape, Alternatives.toList_ofList, Sorted.mem_ofList, List.mem_filter,
    List.contains_iff_mem, FlowModel.mem_shapes_iff]

theorem FlowPredicate.nodup_models_ofShape (models : List FlowModel) (shape : FlowShape) :
    (ofShape models shape).models.toList.Nodup := by
  rw [ofShape, Alternatives.toList_ofList]
  exact (Sorted.increasing_ofList _).nodup

theorem FlowPredicate.matchesCall_ofShape_iff {models : List FlowModel} {shape : FlowShape} :
    (ofShape models shape).matcher.matchesCall u call = true ↔ ∃ model ∈ models,
      model.HasShape shape ∧ Matcher.matchesCall model.method.isAbout u call = true := by
  refine Alternatives.matchesCall_ofList_iff.trans (exists_congr fun model => ?_)
  rw [Sorted.mem_ofList, List.mem_filter, List.contains_iff_mem, FlowModel.mem_shapes_iff,
    and_assoc]

theorem SinkPredicate.matchesCall_ofShape_iff {models : List SinkModel} {kind : String}
    {shape : SinkShape} :
    (ofShape models kind shape).matcher.matchesCall u call = true ↔ ∃ model ∈ models,
      model.kind = kind ∧ model.HasShape shape ∧
        Matcher.matchesCall model.method.isAbout u call = true := by
  refine Alternatives.matchesCall_ofList_iff.trans (exists_congr fun model => ?_)
  rw [Sorted.mem_ofList, List.mem_filter, Bool.and_eq_true, beq_iff_eq, List.contains_iff_mem,
    SinkModel.mem_shapes_iff, and_assoc, and_assoc]

theorem CompiledFlows.map_shape_compile (models : List FlowModel) :
    (compile models).predicates.map (·.shape) =
      Sorted.ofList (models.flatMap FlowModel.shapes) := by
  rw [compile, List.map_map]
  exact List.map_id _

/-- Grouped flow models have the steps between different nodes that single ones have. -/
theorem CompiledFlows.isStep_compile_iff_moves (hu : u.Accepted) {models : List FlowModel}
    {source target : Node} (hsource : source ∈ Node.attached u) :
    (compile models).isStep u source target = true ↔
      source ≠ target ∧ ∃ model ∈ models, model.Moves u source target := by
  rw [isStep_compile_iff]
  refine ⟨?_, ?_⟩
  · rintro ⟨shape, hstep⟩
    obtain ⟨member, -, hmember⟩ := FlowPredicate.exists_model_of_isStep hstep
    obtain ⟨hne, call, hmatches, hjoins⟩ :=
      (FlowPredicate.isStep_iff hu (FlowModel.mem_shapes_iff.mp hmember) hsource).mp hstep
    -- The model that matches the call has the shape too, so it has the whole step.
    obtain ⟨model, hmodel, hshape, habout⟩ := FlowPredicate.matchesCall_ofShape_iff.mp hmatches
    obtain ⟨called, hcalled, habout⟩ := Matcher.matchesCall_iff.mp habout
    exact ⟨hne, model, hmodel, call, called, shape, hcalled, habout, hshape, hjoins⟩
  · rintro ⟨hne, model, hmodel, call, called, shape, hcalled, habout, hshape, hjoins⟩
    refine ⟨shape, (FlowPredicate.isStep_iff hu hshape hsource).mpr ⟨hne, call, ?_, hjoins⟩⟩
    exact FlowPredicate.matchesCall_ofShape_iff.mpr
      ⟨model, hmodel, hshape, Matcher.matchesCall_iff.mpr ⟨called, hcalled, habout⟩⟩

/-- Grouped sink models are about the nodes that single ones are about. -/
theorem CompiledSinks.isSinkNode_compile_iff_marks (hu : u.Accepted) {models : List SinkModel}
    {node : Node} {kind : String} :
    (compile models).isSinkNode u node kind = true ↔
      ∃ model ∈ models, model.kind = kind ∧ model.Marks u node := by
  rw [isSinkNode_compile_iff]
  refine ⟨?_, ?_⟩
  · rintro ⟨shape, hsink⟩
    obtain ⟨call, hmatches, hat⟩ := (SinkPredicate.isSink_iff hu).mp hsink
    obtain ⟨model, hmodel, hkind, hshape, habout⟩ :=
      SinkPredicate.matchesCall_ofShape_iff.mp hmatches
    obtain ⟨called, hcalled, habout⟩ := Matcher.matchesCall_iff.mp habout
    exact ⟨model, hmodel, hkind, call, called, shape, hcalled, habout, hshape, hat⟩
  · rintro ⟨model, hmodel, hkind, call, called, shape, hcalled, habout, hshape, hat⟩
    refine ⟨shape, (SinkPredicate.isSink_iff hu).mpr ⟨call, ?_, hat⟩⟩
    exact SinkPredicate.matchesCall_ofShape_iff.mpr
      ⟨model, hmodel, hkind, hshape, Matcher.matchesCall_iff.mpr ⟨called, hcalled, habout⟩⟩

end Groups

/-- Models are grouped by their shapes: one predicate for each, with the models that have it.
    What the groups say about the nodes of a unit is what some model says alone, except that
    a node is never a step from itself. -/
theorem CompiledModels.grouping_faithful (flows : List FlowModel) (sinks : List SinkModel)
    {u : CompilationUnit} (hu : u.Accepted) :
    let predicates := (CompiledFlows.compile flows).predicates
    (predicates.map (·.shape)).Nodup ∧
    (∀ shape, shape ∈ predicates.map (·.shape) ↔ ∃ model ∈ flows, model.HasShape shape) ∧
    (∀ predicate ∈ predicates, predicate.models.toList.Nodup ∧ ∀ model,
      model ∈ predicate.models.toList ↔ model ∈ flows ∧ model.HasShape predicate.shape) ∧
    (∀ source ∈ Node.attached u, ∀ target,
      (CompiledFlows.compile flows).isStep u source target = true ↔
        source ≠ target ∧ ∃ model ∈ flows, model.Moves u source target) ∧
    ∀ node kind, (CompiledSinks.compile sinks).isSinkNode u node kind = true ↔
      ∃ model ∈ sinks, model.kind = kind ∧ model.Marks u node := by
  intro predicates
  refine ⟨?_, fun shape => ?_, fun predicate hpredicate => ?_,
    fun source hsource target => CompiledFlows.isStep_compile_iff_moves hu hsource,
    fun node kind => CompiledSinks.isSinkNode_compile_iff_marks hu⟩
  · rw [CompiledFlows.map_shape_compile]
    exact (Sorted.increasing_ofList _).nodup
  · rw [CompiledFlows.map_shape_compile, Sorted.mem_ofList, List.mem_flatMap]
    simp only [FlowModel.mem_shapes_iff]
  · obtain ⟨shape, -, rfl⟩ := List.mem_map.mp hpredicate
    exact ⟨FlowPredicate.nodup_models_ofShape flows shape,
      fun model => FlowPredicate.mem_models_ofShape_iff⟩

/-- The variadic method moves values among its arguments. -/
def variadicModel : FlowModel :=
  ⟨⟨"", "A", false, "all", "", "", "Argument[0]"⟩, "Argument[0]", .value, "manual"⟩

/-- Every argument of the variadic call is at the position of the only parameter. -/
theorem occupies_variadicContext {place : Nat} {id : ElementId}
    (h : [⟨9⟩, ⟨10⟩][place]? = some id) :
    Occupies variadicContext.unit (.expression id) ⟨8⟩ 0 := by
  have hkind : variadicContext.unit.kind? ⟨8⟩ =
      some (.call none "all" (some variadicMethod) [⟨9⟩, ⟨10⟩]) := by decide +kernel
  exact @Occupies.variadic _ _ _ id _ variadicMethod place 0 rfl hkind rfl h (by decide) rfl
    (Nat.zero_le _)

theorem variadicModel_moves {place other : Nat} {source target : ElementId}
    (hsource : [⟨9⟩, ⟨10⟩][place]? = some source) (htarget : [⟨9⟩, ⟨10⟩][other]? = some target) :
    variadicModel.Moves variadicContext.unit (.expression source) (.expression target) := by
  have hrange : ArgumentRange.parse? "Argument[0]" = some ⟨0, 0⟩ := by decide +kernel
  have hcovers : ArgumentRange.Covers (ArgumentRange.parse? "Argument[0]") 0 :=
    ⟨⟨0, 0⟩, hrange, Int.le_refl 0, Int.le_refl 0⟩
  exact ⟨⟨8⟩, variadicMethod, .toArgument 0 0, by decide +kernel, by decide +kernel,
    .toArgument hcovers hcovers (Int.le_refl 0),
    .toArgument (occupies_variadicContext hsource) (occupies_variadicContext htarget)⟩

/-- The model moves values from the first argument of the variadic call into the second one,
    for both are at the position of the same parameter. -/
theorem CompiledModels.grouping_faithful_variadicContext :
    Node.expression ⟨9⟩ ∈ Node.attached variadicContext.unit ∧
    variadicModel.Moves variadicContext.unit (.expression ⟨9⟩) (.expression ⟨10⟩) ∧
    (CompiledFlows.compile [variadicModel]).isStep variadicContext.unit (.expression ⟨9⟩)
      (.expression ⟨10⟩) = true := by
  have hsource : Node.expression ⟨9⟩ ∈ Node.attached variadicContext.unit := by decide +kernel
  have hmoves : variadicModel.Moves variadicContext.unit (.expression ⟨9⟩) (.expression ⟨10⟩) :=
    @variadicModel_moves 0 1 _ _ rfl rfl
  obtain ⟨-, -, -, hsteps, -⟩ := grouping_faithful [variadicModel] [] variadicContext_accepted
  exact ⟨hsource, hmoves, (hsteps _ hsource _).mpr
    ⟨by decide, variadicModel, List.mem_singleton_self _, hmoves⟩⟩

/-- The model moves values among all arguments of the call, but the compiled models have no
    step from an argument into itself. -/
theorem CompiledModels.no_step_from_argument_into_itself :
    variadicContext.unit.Accepted ∧
    Node.expression ⟨9⟩ ∈ Node.attached variadicContext.unit ∧
    variadicModel.Moves variadicContext.unit (.expression ⟨9⟩) (.expression ⟨9⟩) ∧
    (CompiledFlows.compile [variadicModel]).isStep variadicContext.unit (.expression ⟨9⟩)
      (.expression ⟨9⟩) = false :=
  ⟨variadicContext_accepted, by decide +kernel, @variadicModel_moves 0 0 _ _ rfl rfl,
    by decide +kernel⟩

end ValueFlow
