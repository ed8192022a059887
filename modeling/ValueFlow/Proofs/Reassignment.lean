/-
  ValueFlow.Proofs.Reassignment

  Which reassignments hide earlier values.

  A value reaches a read unless an assignment between the two hides it. What counts is the
  statement around the assignment and the block that this statement stands in. So a value
  from within a reassignment (`s = s.clean()`) reaches all that the reassignment reaches,
  for the reassignment stands around it and not behind it. And an assignment in the branch
  of a statement hides nothing from the reads outside, while one in an operand that may not
  be evaluated hides as much as any other.
-/

import ValueFlow.Proofs.ReachingReads

namespace ValueFlow

/-- The branches of a statement: control may pass over each of them. -/
def Kind.branches : Kind → List ElementId
  | .ifElse _ thenBranch elseBranch => thenBranch :: elseBranch.toList
  | .whileLoop _ body => [body]
  | _ => []

/-- The operands of an expression that may not be evaluated. -/
def Kind.optionalOperands : Kind → List ElementId
  | .ternary _ whenTrue whenFalse _ => [whenTrue, whenFalse]
  | .binary .and _ right _ => [right]
  | .binary .or _ right _ => [right]
  | _ => []

theorem Kind.branches_subset_children (kind : Kind) : kind.branches ⊆ kind.children := by
  cases kind with
  | ifElse condition thenBranch elseBranch => exact List.subset_cons_self _ _
  | whileLoop condition body => exact List.subset_cons_self _ _
  | _ => exact List.nil_subset _

theorem Kind.isExpression_of_optionalOperands {kind : Kind} {id : ElementId}
    (h : id ∈ kind.optionalOperands) : kind.isExpression = true := by
  cases kind <;> first | rfl | cases h

theorem Kind.optionalOperands_subset_children (kind : Kind) :
    kind.optionalOperands ⊆ kind.children := by
  cases kind with
  | ternary condition whenTrue whenFalse type => exact List.subset_cons_self _ _
  | binary operator left right type =>
    cases operator <;> first | exact List.nil_subset _ | exact List.subset_cons_self _ _
  | _ => exact List.nil_subset _

namespace CompilationUnit

/-- An element stands in a branch of a statement that the read does not stand in. -/
def InBranch (u : CompilationUnit) (id read : ElementId) : Prop :=
  ∃ whole ∈ u.attached, ∃ branch ∈ ((u.kind? whole).map Kind.branches).getD [],
    u.tree.isKind Kind.isStatement branch = true ∧ u.contains branch id = true ∧
      u.contains branch read = false

/-- Within its statement, an element stands in an operand that may not be evaluated and that
    the read does not stand in. -/
def InOptionalOperand (u : CompilationUnit) (id read : ElementId) : Prop :=
  ∃ statement ∈ u.enclosingStatement? id, ∃ whole ∈ u.attached,
    u.contains statement whole = true ∧
      ∃ operand ∈ ((u.kind? whole).map Kind.optionalOperands).getD [],
        u.contains operand id = true ∧ u.contains operand read = false

instance (u : CompilationUnit) (id read : ElementId) : Decidable (u.InBranch id read) :=
  inferInstanceAs (Decidable (∃ _ ∈ _, _))

instance (u : CompilationUnit) (id read : ElementId) : Decidable (u.InOptionalOperand id read) :=
  inferInstanceAs (Decidable (∃ _ ∈ _, _))

theorem exists_of_mem_choices {u : CompilationUnit} {choices : Kind → List ElementId}
    {whole id : ElementId} (h : id ∈ ((u.kind? whole).map choices).getD []) :
    ∃ kind, u.kind? whole = some kind ∧ id ∈ choices kind := by
  cases hkind : u.kind? whole with
  | none =>
    rw [hkind] at h
    cases h
  | some kind =>
    rw [hkind] at h
    exact ⟨kind, rfl, h⟩

theorem mem_assignmentsTo {u : CompilationUnit} {variableId assignment : ElementId}
    (h : u.isAssignmentTo variableId assignment = true) (hattached : assignment ∈ u.attached) :
    assignment ∈ u.assignmentsTo variableId :=
  List.mem_filter.mpr ⟨List.mem_append_right _ hattached, h⟩

section Order

variable {u : CompilationUnit} (h : u.Accepted)
include h

theorem Accepted.not_isBefore_of_contains {a b : ElementId} (hab : u.contains a b = true) :
    ¬ u.isBefore a b = true ∧ ¬ u.isBefore b a = true := by
  have hself := h.contains_self (h.attached_of_contains hab).2
  refine ⟨fun hbefore => ?_, fun hbefore => ?_⟩
  · have hirrefl := h.isBefore_of_contains hbefore hab hself
    exact h.not_isBefore_of_isBefore hirrefl hirrefl
  · have hirrefl := h.isBefore_of_contains hbefore hself hab
    exact h.not_isBefore_of_isBefore hirrefl hirrefl

/-- Of two attached elements, one contains the other or one comes before the other. -/
theorem Accepted.contains_or_isBefore {a b : ElementId} (ha : a ∈ u.attached)
    (hb : b ∈ u.attached) : u.contains a b = true ∨ u.contains b a = true ∨
      u.isBefore a b = true ∨ u.isBefore b a = true := by
  rw [h.contains_iff ha hb, h.contains_iff hb ha, h.mem_subtree_iff ha, h.mem_subtree_iff hb]
  obtain ⟨placement, hholds, -⟩ := h.existsUnique_placement ha hb
  cases placement with
  | same => exact Or.inl (Or.inl hholds)
  | around => exact Or.inl (Or.inr hholds)
  | inside => exact Or.inr (Or.inl (Or.inr hholds))
  | before => exact Or.inr (Or.inr (Or.inl hholds))
  | after => exact Or.inr (Or.inr (Or.inr hholds))

/-- The block that an assignment stands in, by its statements. That the assignment is not the
    definition follows from their order. -/
theorem Accepted.cutsOff_iff_block {definition read assignment : ElementId} :
    u.cutsOff definition read assignment = true ↔
      u.isBefore definition assignment = true ∧ u.isBefore assignment read = true ∧
      ∃ statement block statements, u.enclosingStatement? assignment = some statement ∧
        u.kind? block = some (.block statements) ∧ statement ∈ statements ∧
        u.contains block read = true := by
  rw [cutsOff_iff]
  refine ⟨?_, ?_⟩
  · rintro ⟨-, hafter, hbefore, statement, block, hstatement, hparent, hblock, hread⟩
    obtain ⟨statements, hkind⟩ := Tree.exists_of_isBlock hblock
    have hchild : statement ∈ u.tree.children block := (h.linked.parent_iff _ _).mp hparent
    rw [Tree.children_eq hkind] at hchild
    exact ⟨hafter, hbefore, statement, block, statements, hstatement, hkind, hchild, hread⟩
  · rintro ⟨hafter, hbefore, statement, block, statements, hstatement, hkind, hmem, hread⟩
    have hchild : statement ∈ u.tree.children block := by
      rw [Tree.children_eq hkind]
      exact hmem
    refine ⟨?_, hafter, hbefore, statement, block, hstatement, (h.linked.parent_iff _ _).mpr hchild,
      Tree.isKind_of_kind? hkind rfl, hread⟩
    rintro rfl
    exact h.not_isBefore_of_isBefore hafter hafter

/-- What stands in the statement of an element and around the element has the same
    statement. -/
theorem Accepted.enclosingStatement?_eq {id whole statement : ElementId}
    (hstatement : u.enclosingStatement? id = some statement)
    (hwhole : u.contains statement whole = true) (hne : statement ≠ whole)
    (hid : u.contains whole id = true) : u.enclosingStatement? whole = some statement := by
  obtain ⟨-, hattached⟩ := h.attached_of_contains hid
  obtain ⟨hkind, -, -, hinner⟩ := h.enclosingStatement?_spec hattached hstatement
  obtain ⟨hstatementAttached, depth, hbelow⟩ := h.contains_iff_below.mp hwhole
  -- The statement is an ancestor of the element between, so a closest one exists there.
  have hsome : (u.enclosingStatement? whole).isSome = true := by
    rw [enclosingStatement?, List.find?_isSome]
    cases hbelow with
    | self => exact absurd rfl hne
    | child hparent hmem =>
      exact ⟨statement, h.mem_ancestors_of_below hstatementAttached (.child hparent hmem), hkind⟩
  obtain ⟨closest, hclosest⟩ := Option.isSome_iff_exists.mp hsome
  obtain ⟨hclosestKind, hcontains, -, hclosestInner⟩ :=
    h.enclosingStatement?_spec (h.attached_of_contains hid).1 hclosest
  have hdown : u.contains statement closest = true := hclosestInner statement hkind hwhole hne
  have hup : u.contains closest statement = true := by
    refine hinner closest hclosestKind (h.contains_trans hcontains hid) ?_
    -- Else the element would contain what stands around it.
    rintro rfl
    obtain rfl := h.contains_antisymm hcontains hid
    exact (h.enclosingStatement?_spec hattached hclosest).2.2.1 rfl
  rw [hclosest, h.contains_antisymm hup hdown]

end Order

/-! ## Values from within a reassignment -/

section Values

variable {u : CompilationUnit} (hu : u.Accepted)
  {assignment target value statement definition read other : ElementId}
include hu

/-- What comes behind a part of the assigned value stands behind the assignment, or in the
    value as well: what contains the part and what precedes the value does not come behind. -/
theorem Accepted.isBefore_or_contains_of_isBefore
    (hkind : u.kind? assignment = some (.assign target value))
    (hdefinition : u.contains value definition = true)
    (hafter : u.isBefore definition other = true) :
    u.isBefore assignment other = true ∨ u.contains value other = true := by
  have hchildren : u.tree.children assignment = [target, value] := Tree.children_eq hkind
  have hchild : value ∈ u.tree.children assignment := by
    rw [hchildren]
    exact List.mem_cons_of_mem _ List.mem_cons_self
  have hassignment : assignment ∈ u.attached :=
    (hu.attached_child_iff hchild).mp (hu.attached_of_contains hdefinition).1
  have hinside := hu.contains_trans (hu.contains_child hassignment hchild) hdefinition
  have hother := (hu.attached_of_isBefore hafter).2
  rcases hu.contains_or_isBefore hassignment hother with hin | haround | hbehind | hbefore
  · rcases hu.contains_cases hin with rfl | ⟨child, hmem, hchildContains⟩
    · exact absurd hafter (hu.not_isBefore_of_contains hinside).2
    · rw [hchildren, List.mem_cons, List.mem_singleton] at hmem
      rcases hmem with rfl | rfl
      · -- The target comes before the value and all that is in it.
        have hsiblings : u.isBefore child value = true :=
          hu.isBefore_of_siblings hassignment (by rw [hchildren])
        exact absurd (hu.isBefore_of_contains hsiblings hchildContains hdefinition)
          (hu.not_isBefore_of_isBefore hafter)
      · exact Or.inr hchildContains
  · exact absurd hafter (hu.not_isBefore_of_contains (hu.contains_trans haround hinside)).2
  · exact Or.inl hbehind
  · exact absurd (hu.isBefore_of_contains hbefore (hu.contains_self hother) hinside)
      (hu.not_isBefore_of_isBefore hafter)

/-- In an expression statement, what hides something from a read behind it has no other
    statement around it: the block of an inner one would end before the read. -/
theorem Accepted.enclosingStatement?_of_hides {expression : ElementId}
    (hkind : u.kind? statement = some (.exprStmt expression))
    (hexpression : u.tree.isKind Kind.isExpression expression = true)
    (hother : u.contains expression other = true)
    (hbefore : u.isBefore expression read = true) (hhides : u.hides other read = true) :
    u.enclosingStatement? other = some statement := by
  obtain ⟨gate, block, hgate, hparent, -, hread⟩ := hides_iff.mp hhides
  obtain ⟨hattached, hotherAttached⟩ := hu.attached_of_contains hother
  have hchild : expression ∈ u.tree.children statement := by
    rw [Tree.children_eq hkind]
    exact List.mem_singleton_self _
  have hstatement : u.contains statement expression = true :=
    hu.contains_child ((hu.attached_child_iff hchild).mp hattached) hchild
  obtain ⟨hgateKind, hgateContains, -, hinner⟩ := hu.enclosingStatement?_spec hotherAttached hgate
  have hgateInside : u.contains statement gate = true := by
    refine hinner statement (Tree.isKind_of_kind? hkind rfl)
      (hu.contains_trans hstatement hother) ?_
    rintro rfl
    exact hu.not_contains_parent hotherAttached hchild hother
  rcases hu.contains_cases hgateInside with rfl | ⟨inner, hmem, hgateInner⟩
  · exact hgate
  · rw [Tree.children_eq hkind, Kind.children, List.mem_singleton] at hmem
    subst hmem
    have hblock : u.contains inner block = true := by
      refine hu.contains_parent ((hu.linked.parent_iff gate block).mp hparent) hgateInner ?_
      rintro rfl
      rw [Tree.not_isStatement_of_isExpression hexpression] at hgateKind
      cases hgateKind
    exact absurd hbefore (hu.not_isBefore_of_contains (hu.contains_trans hblock hread)).1

end Values

/-! ## Assignments that may not take place -/

section Choices

variable {u : CompilationUnit} (hu : u.Accepted) {id read : ElementId}
include hu

/-- An assignment in a branch hides nothing from a read outside. Its statement is the branch,
    and then it stands in no block, or it stands in a block of the branch. -/
theorem Accepted.hides_of_inBranch (hkind : u.tree.isKind Kind.isExpression id = true)
    (h : u.InBranch id read) : u.hides id read = false := by
  obtain ⟨whole, -, branch, hbranch, hstatement, hid, hread⟩ := h
  obtain ⟨kind, hwhole, hmem⟩ := exists_of_mem_choices hbranch
  have hchild : branch ∈ u.tree.children whole := by
    rw [Tree.children_eq hwhole]
    exact kind.branches_subset_children hmem
  refine Bool.eq_false_iff.mpr fun hhides => ?_
  obtain ⟨gate, block, hgate, hparent, hblock, hblockRead⟩ := hides_iff.mp hhides
  have hgateChild : gate ∈ u.tree.children block := (hu.linked.parent_iff gate block).mp hparent
  obtain ⟨-, -, -, hinner⟩ := hu.enclosingStatement?_spec (hu.attached_of_contains hid).2 hgate
  have hgateInside : u.contains branch gate = true := by
    refine hinner branch hstatement hid ?_
    rintro rfl
    rw [Tree.not_isStatement_of_isExpression hkind] at hstatement
    cases hstatement
  by_cases heq : branch = gate
  · subst heq
    obtain rfl := hu.linked.parent_unique hgateChild hchild
    obtain ⟨statements, hstatements⟩ := Tree.exists_of_isBlock hblock
    cases hwhole.symm.trans hstatements
    cases hmem
  · have hblockInside := hu.contains_parent hgateChild hgateInside heq
    rw [hu.contains_trans hblockInside hblockRead] at hread
    cases hread

/-- An element in an operand that may not be evaluated hides what the whole expression
    hides. -/
theorem Accepted.hides_of_optionalOperand {statement whole operand : ElementId}
    (hstatement : u.enclosingStatement? id = some statement)
    (hwhole : u.contains statement whole = true)
    (hoperand : operand ∈ ((u.kind? whole).map Kind.optionalOperands).getD [])
    (hid : u.contains operand id = true) : u.hides id read = u.hides whole read := by
  obtain ⟨kind, hkind, hmem⟩ := exists_of_mem_choices hoperand
  have hchild : operand ∈ u.tree.children whole := by
    rw [Tree.children_eq hkind]
    exact kind.optionalOperands_subset_children hmem
  have hinside := hu.contains_trans
    (hu.contains_child (hu.attached_of_contains hwhole).2 hchild) hid
  have hne : statement ≠ whole := by
    rintro rfl
    have hexpression := Tree.not_isStatement_of_isExpression
      (Tree.isKind_of_kind? hkind (Kind.isExpression_of_optionalOperands hmem))
    rw [(hu.enclosingStatement?_spec (hu.attached_of_contains hid).2 hstatement).1] at hexpression
    cases hexpression
  rw [hides, hides, hstatement, hu.enclosingStatement?_eq hstatement hwhole hne hinside]

end Choices

/-! ## A small unit -/

/-- A class with one method, which assigns a variable in an operand and then once more from
    its own value:
    `m(c) { s = "x"; t = c ? (s = "y") : "z"; use(s); s = s.clean(); use(s); }`. -/
def reassignmentTree : Tree :=
  let method (name : String) (parameters : List TypeRef) (result : TypeRef) : Signature :=
    ⟨.named "A", name, parameters, result, ⟨0⟩⟩
  let variableUse : Kind := .identifier "s" (some ⟨5⟩) .string
  let use (argument : Nat) : Kind :=
    .call none "use" (some (method "use" [.string] (.primitive .void))) [⟨argument⟩]
  let clean : Signature := ⟨.string, "clean", [], .string, ⟨0⟩⟩
  let kinds : List Kind := [
    .compilationUnit "" [⟨1⟩], .classDecl "A" [⟨2⟩],
    .method (method "m" [.primitive .boolean] (.primitive .void)) [⟨3⟩] (some ⟨4⟩),
    .parameter "c" (.primitive .boolean),
    .block [⟨5⟩, ⟨8⟩, ⟨17⟩, ⟨20⟩, ⟨25⟩],
    .localVar .string ⟨6⟩ (some ⟨7⟩), variableUse, .literal (.string "x") .string,
    -- 8 to 19: the operand, and a read behind it
    .localVar .string ⟨9⟩ (some ⟨10⟩), .identifier "t" (some ⟨8⟩) .string,
    .ternary ⟨11⟩ ⟨12⟩ ⟨16⟩ .string, .identifier "c" (some ⟨3⟩) (.primitive .boolean),
    .parens ⟨13⟩, .assign ⟨14⟩ ⟨15⟩, variableUse, .literal (.string "y") .string,
    .literal (.string "z") .string, .exprStmt ⟨18⟩, use 19, variableUse,
    -- 20 to 27: the variable from its own value, and a read behind it
    .exprStmt ⟨21⟩, .assign ⟨22⟩ ⟨23⟩, variableUse, .call (some ⟨24⟩) "clean" (some clean) [],
    variableUse, .exprStmt ⟨26⟩, use 27, variableUse]
  { root := ⟨0⟩, elements := (kinds.map fun kind => ⟨none, kind⟩).toArray, types := [] }

/-- The unit of that tree. -/
def reassignmentUnit : CompilationUnit :=
  (CompilationUnit.ofTree reassignmentTree).toOption.get (by decide +kernel)

theorem reassignmentUnit_accepted : reassignmentUnit.Accepted := ⟨reassignmentTree, eq_ok_get _⟩

/-! ## The reads that a reassignment leaves -/

/-- The value from before a reassignment reaches the reads behind it that the reassignment
    reaches, unless an assignment of the same statement comes between. The reassignment
    itself hides nothing. -/
theorem mem_readsReaching_iff_of_in_value {u : CompilationUnit} (hu : u.Accepted)
    {variableId assignment target value statement block definition read : ElementId}
    {statements : List ElementId} (hkind : u.kind? assignment = some (.assign target value))
    (hstatement : u.kind? statement = some (.exprStmt assignment))
    (hblock : u.kind? block = some (.block statements)) (hmem : statement ∈ statements)
    (hdefinition : u.contains value definition = true) (hread : u.contains block read = true)
    (hbefore : u.isBefore assignment read = true) :
    read ∈ u.readsReaching variableId definition ↔
      read ∈ u.readsReaching variableId assignment ∧
      ∀ other ∈ u.assignmentsTo variableId, u.contains value other = true →
        u.isBefore definition other = true → u.enclosingStatement? other ≠ some statement := by
  have hvalue : value ∈ u.tree.children assignment := by
    rw [Tree.children_eq hkind]
    exact List.mem_cons_of_mem _ List.mem_cons_self
  obtain ⟨hassignment, hreadAttached⟩ := hu.attached_of_isBefore hbefore
  have hwhole := hu.contains_child hassignment hvalue
  have hahead : ∀ {part}, u.contains value part = true → u.isBefore part read = true :=
    fun hpart => hu.isBefore_of_contains hbefore (hu.contains_trans hwhole hpart)
      (hu.contains_self hreadAttached)
  rw [mem_readsReaching_iff hu, mem_readsReaching_iff hu]
  refine ⟨?_, ?_⟩
  · rintro ⟨hisRead, -, hnone⟩
    refine ⟨⟨hisRead, hbefore, fun other hother => Bool.eq_false_iff.mpr fun hcut => ?_⟩, ?_⟩
    · -- What stands behind the assignment stands behind the value too.
      obtain ⟨hafter, hrest⟩ := hu.cutsOff_iff_block.mp hcut
      have hbehind := hu.isBefore_of_contains hafter (hu.contains_trans hwhole hdefinition)
        (hu.contains_self (hu.attached_of_isBefore hafter).2)
      exact Bool.eq_false_iff.mp (hnone other hother)
        (hu.cutsOff_iff_block.mpr ⟨hbehind, hrest⟩)
    · intro other hother hotherValue hafter hgate
      refine Bool.eq_false_iff.mp (hnone other (List.mem_filter.mp hother).2) ?_
      exact hu.cutsOff_iff_block.mpr ⟨hafter, hahead hotherValue, statement, block, statements,
        hgate, hblock, hmem, hread⟩
  · rintro ⟨⟨hisRead, -, hnone⟩, hvalueNone⟩
    refine ⟨hisRead, hahead hdefinition, fun other hother => Bool.eq_false_iff.mpr fun hcut => ?_⟩
    obtain ⟨-, hafter, hotherBefore, hhides⟩ := cutsOff_iff.mp hcut
    rcases hu.isBefore_or_contains_of_isBefore hkind hdefinition hafter with hbehind | hotherValue
    · obtain ⟨-, hrest⟩ := hu.cutsOff_iff_block.mp hcut
      exact Bool.eq_false_iff.mp (hnone other hother)
        (hu.cutsOff_iff_block.mpr ⟨hbehind, hrest⟩)
    · refine hvalueNone other (mem_assignmentsTo hother (hu.attached_of_isBefore hafter).2)
        hotherValue hafter ?_
      exact hu.enclosingStatement?_of_hides hstatement (Tree.isKind_of_kind? hkind rfl)
        (hu.contains_trans hwhole hotherValue) hbefore (hides_iff.mpr hhides)

/-- What `s` was within `s.clean()` reaches the read behind the reassignment. -/
theorem mem_readsReaching_iff_of_in_value_reassignmentUnit :
    reassignmentUnit.contains ⟨23⟩ ⟨24⟩ = true ∧ reassignmentUnit.isBefore ⟨21⟩ ⟨27⟩ = true ∧
      ⟨27⟩ ∈ reassignmentUnit.readsReaching ⟨5⟩ ⟨24⟩ := by
  have hdefinition : reassignmentUnit.contains ⟨23⟩ ⟨24⟩ = true := by decide +kernel
  have hbefore : reassignmentUnit.isBefore ⟨21⟩ ⟨27⟩ = true := by decide +kernel
  have hassignment : reassignmentUnit.kind? ⟨21⟩ = some (.assign ⟨22⟩ ⟨23⟩) := by decide +kernel
  have hstatement : reassignmentUnit.kind? ⟨20⟩ = some (.exprStmt ⟨21⟩) := by decide +kernel
  have hblock : reassignmentUnit.kind? ⟨4⟩ = some (.block [⟨5⟩, ⟨8⟩, ⟨17⟩, ⟨20⟩, ⟨25⟩]) := by
    decide +kernel
  refine ⟨hdefinition, hbefore, ?_⟩
  exact (mem_readsReaching_iff_of_in_value reassignmentUnit_accepted hassignment hstatement hblock
    (by decide) hdefinition (by decide +kernel) hbefore).mpr
    ⟨by decide +kernel, by decide +kernel⟩

/-- The read behind `s = s.clean()` sees the value that the receiver has right after the call,
    though the reassignment has stored another one before the read. -/
theorem read_behind_reassignment_sees_old_value :
    reassignmentUnit.Accepted ∧ reassignmentUnit.isAssignmentTo ⟨5⟩ ⟨21⟩ = true ∧
      reassignmentUnit.kind? ⟨21⟩ = some (.assign ⟨22⟩ ⟨23⟩) ∧
      reassignmentUnit.kind? ⟨20⟩ = some (.exprStmt ⟨21⟩) ∧
      reassignmentUnit.kind? ⟨4⟩ = some (.block [⟨5⟩, ⟨8⟩, ⟨17⟩, ⟨20⟩, ⟨25⟩]) ∧
      reassignmentUnit.contains ⟨23⟩ ⟨23⟩ = true ∧ reassignmentUnit.isReadOf ⟨5⟩ ⟨27⟩ = true ∧
      reassignmentUnit.contains ⟨4⟩ ⟨27⟩ = true ∧ reassignmentUnit.isBefore ⟨21⟩ ⟨27⟩ = true ∧
      ⟨27⟩ ∈ reassignmentUnit.readsReaching ⟨5⟩ ⟨23⟩ :=
  ⟨reassignmentUnit_accepted, by decide +kernel⟩

/-- A value reaches the reads behind it that no assignment hides it from, and only assignments
    outside the branches that the read is not in can hide it. An operand that may not be
    evaluated is no such branch: an assignment there hides what the whole expression does. -/
theorem mem_readsReaching_iff_outside_branches {u : CompilationUnit} (hu : u.Accepted)
    {variableId definition read : ElementId} (hread : u.isReadOf variableId read = true)
    (hbefore : u.isBefore definition read = true) :
    (read ∈ u.readsReaching variableId definition ↔
      ∀ assignment ∈ u.assignmentsTo variableId, u.isBefore definition assignment = true →
        u.isBefore assignment read = true → ¬ u.InBranch assignment read →
        ∀ statement block statements, u.enclosingStatement? assignment = some statement →
          u.kind? block = some (.block statements) → statement ∈ statements →
          u.contains block read = false) ∧
    ∀ assignment statement whole operand, u.enclosingStatement? assignment = some statement →
      u.contains statement whole = true →
      operand ∈ ((u.kind? whole).map Kind.optionalOperands).getD [] →
      u.contains operand assignment = true → u.hides assignment read = u.hides whole read := by
  refine ⟨?_, fun assignment statement whole operand hstatement hwhole hoperand hinside =>
    hu.hides_of_optionalOperand hstatement hwhole hoperand hinside⟩
  rw [mem_readsReaching_iff hu]
  refine ⟨?_, ?_⟩
  · rintro ⟨-, -, hnone⟩ assignment hassignment hafter hfirst - statement block statements
      hstatement hblock hmem
    refine Bool.eq_false_iff.mpr fun hcontains => ?_
    refine Bool.eq_false_iff.mp (hnone assignment (List.mem_filter.mp hassignment).2) ?_
    exact hu.cutsOff_iff_block.mpr
      ⟨hafter, hfirst, statement, block, statements, hstatement, hblock, hmem, hcontains⟩
  · intro hnone
    refine ⟨hread, hbefore, fun assignment hassignment => Bool.eq_false_iff.mpr fun hcut => ?_⟩
    obtain ⟨-, -, -, hhides⟩ := cutsOff_iff.mp hcut
    obtain ⟨hafter, hfirst, statement, block, statements, hstatement, hblock, hmem, hcontains⟩ :=
      hu.cutsOff_iff_block.mp hcut
    have houtside : ¬ u.InBranch assignment read := fun hbranch =>
      Bool.eq_false_iff.mp (hu.hides_of_inBranch (isExpression_of_isAssignmentTo hassignment)
        hbranch) (hides_iff.mpr hhides)
    have hlisted := mem_assignmentsTo hassignment (hu.attached_of_isBefore hafter).2
    rw [hnone assignment hlisted hafter hfirst houtside statement block statements hstatement
      hblock hmem] at hcontains
    cases hcontains

/-- The assignment in the loop does not hide the declaration from the read behind the loop. -/
theorem mem_readsReaching_iff_outside_branches_loopUnit :
    loopUnit.isReadOf ⟨5⟩ ⟨24⟩ = true ∧ loopUnit.isBefore ⟨5⟩ ⟨24⟩ = true ∧
      ⟨24⟩ ∈ loopUnit.readsReaching ⟨5⟩ ⟨5⟩ := by
  have hread : loopUnit.isReadOf ⟨5⟩ ⟨24⟩ = true := by decide +kernel
  have hbefore : loopUnit.isBefore ⟨5⟩ ⟨24⟩ = true := by decide +kernel
  have hbranch : ∀ assignment ∈ loopUnit.assignmentsTo ⟨5⟩, loopUnit.InBranch assignment ⟨24⟩ := by
    decide +kernel
  refine ⟨hread, hbefore,
    (mem_readsReaching_iff_outside_branches loopUnit_accepted hread hbefore).1.mpr ?_⟩
  intro assignment hassignment _ _ houtside
  exact absurd (hbranch assignment hassignment) houtside

/-- The declaration is hidden from the read behind the conditional expression, though the only
    assignment between them stands in an operand that may not be evaluated. -/
theorem read_behind_optional_assignment_lost :
    reassignmentUnit.Accepted ∧ reassignmentUnit.isReadOf ⟨5⟩ ⟨19⟩ = true ∧
      reassignmentUnit.isBefore ⟨5⟩ ⟨19⟩ = true ∧
      (∀ assignment ∈ reassignmentUnit.assignmentsTo ⟨5⟩,
        reassignmentUnit.isBefore ⟨5⟩ assignment = true →
        reassignmentUnit.isBefore assignment ⟨19⟩ = true →
        reassignmentUnit.InOptionalOperand assignment ⟨19⟩) ∧
      ⟨19⟩ ∉ reassignmentUnit.readsReaching ⟨5⟩ ⟨5⟩ :=
  ⟨reassignmentUnit_accepted, by decide +kernel⟩

end CompilationUnit
end ValueFlow
