/-
  ValueFlow.Proofs.FlowConstruction

  How the control flow of a method is put together.

  Building goes through the statements of a body and hands the open ends of each one to
  the next. `Adds` says what it does without a bound on the depth, in one rule for each kind
  of statement. Everything about built control flows is shown by induction on these
  rules: which statements are met, in which order, and where edges come from.
-/

import ValueFlow.Proofs.ControlFlow
import Mathlib.Data.List.Basic

namespace ValueFlow

/-! ## Statements inside statements -/

/-- The statements that a statement is made of. -/
def Kind.parts : Kind → List ElementId
  | .block statements => statements
  | .ifElse _ thenBranch elseBranch => thenBranch :: elseBranch.toList
  | .whileLoop _ body => [body]
  | _ => []

/-- The parts of a statement come behind its expressions. -/
theorem Kind.parts_suffix_children (kind : Kind) : kind.parts <:+ kind.children := by
  cases kind with
  | block statements => exact List.suffix_refl _
  | ifElse condition thenBranch elseBranch => exact List.suffix_cons _ _
  | whileLoop condition body => exact List.suffix_cons _ _
  | _ => exact List.nil_suffix

namespace Tree

/-- The statements that an element is made of, if it is a statement. -/
def parts (tree : Tree) (id : ElementId) : List ElementId :=
  ((tree.kind? id).map Kind.parts).getD []

/-- A statement is another one or a part of it, at any depth. -/
def Within (tree : Tree) : ElementId → ElementId → Prop :=
  Relation.ReflTransGen fun whole part => part ∈ tree.parts whole

theorem parts_eq {tree : Tree} {id : ElementId} {kind : Kind} (h : tree.kind? id = some kind) :
    tree.parts id = kind.parts := by
  rw [parts, h]
  rfl

theorem children_eq {tree : Tree} {id : ElementId} {kind : Kind} (h : tree.kind? id = some kind) :
    tree.children id = kind.children := by
  rw [children, h]
  rfl

theorem parts_suffix_children (tree : Tree) (id : ElementId) :
    tree.parts id <:+ tree.children id := by
  cases hkind : tree.kind? id with
  | none =>
    rw [parts, hkind]
    exact List.nil_suffix
  | some kind =>
    rw [parts_eq hkind, children_eq hkind]
    exact kind.parts_suffix_children

theorem isKind_of_kind? {tree : Tree} {id : ElementId} {kind : Kind} {test : Kind → Bool}
    (h : tree.kind? id = some kind) (htest : test kind = true) : tree.isKind test id = true := by
  rw [isKind, h]
  exact htest

theorem exists_of_isKind {tree : Tree} {id : ElementId} {test : Kind → Bool}
    (h : tree.isKind test id = true) : ∃ kind, tree.kind? id = some kind ∧ test kind = true := by
  rw [isKind, Option.any_eq_true] at h
  exact h

/-- What is within a statement is the statement or within one of its parts. -/
theorem within_iff {tree : Tree} {whole part : ElementId} {kind : Kind}
    (h : tree.kind? whole = some kind) :
    tree.Within whole part ↔ whole = part ∨ ∃ next ∈ kind.parts, tree.Within next part := by
  rw [Within, Relation.ReflTransGen.cases_head_iff, parts_eq h]

/-- A part at any depth stands below the whole. -/
theorem Within.exists_below {tree : Tree} {whole part : ElementId} (h : tree.Within whole part) :
    ∃ depth, tree.Below whole depth part := by
  induction h with
  | refl => exact ⟨0, .self⟩
  | tail _ hpart ih =>
    obtain ⟨depth, hbelow⟩ := ih
    exact ⟨depth + 1, .child hbelow ((tree.parts_suffix_children _).subset hpart)⟩

/-- The parts of an element below the root are below the root. -/
theorem below_parts {tree : Tree} {id : ElementId} {kind : Kind}
    (h : ∃ depth, tree.Below tree.root depth id) (hkind : tree.kind? id = some kind) :
    ∀ part ∈ kind.parts, ∃ depth, tree.Below tree.root depth part := by
  intro part hpart
  obtain ⟨depth, hid⟩ := h
  refine ⟨depth + 1, .child hid ?_⟩
  rw [children_eq hkind]
  exact kind.parts_suffix_children.subset hpart

theorem Linked.flatMap_subtree_singleton {tree : Tree} (hl : tree.Linked) {id : ElementId}
    {kind : Kind} (h : ∃ depth, tree.Below tree.root depth id)
    (hkind : tree.kind? id = some kind) :
    [id].flatMap tree.subtree = id :: kind.children.flatMap tree.subtree := by
  obtain ⟨depth, hid⟩ := h
  rw [List.flatMap_singleton, hl.subtree_eq hid, children_eq hkind]

/-- A statement is within one of these. -/
def WithinAny (tree : Tree) (statements : List ElementId) (part : ElementId) : Prop :=
  ∃ whole ∈ statements, tree.Within whole part

theorem withinAny_self (tree : Tree) (id : ElementId) : tree.WithinAny [id] id :=
  ⟨id, List.mem_cons_self, .refl⟩

theorem WithinAny.mono {tree : Tree} {statements more : List ElementId} {part : ElementId}
    (h : tree.WithinAny statements part) (hsub : statements ⊆ more) : tree.WithinAny more part := by
  obtain ⟨whole, hwhole, hwithin⟩ := h
  exact ⟨whole, hsub hwhole, hwithin⟩

theorem WithinAny.of_parts {tree : Tree} {statements : List ElementId} {id part : ElementId}
    {kind : Kind} (h : tree.WithinAny statements part) (hkind : tree.kind? id = some kind)
    (hsub : statements ⊆ kind.parts) : tree.WithinAny [id] part := by
  obtain ⟨whole, hwhole, hwithin⟩ := h
  exact ⟨id, List.mem_cons_self, (within_iff hkind).mpr (Or.inr ⟨whole, hsub hwhole, hwithin⟩)⟩

end Tree

/-- The parts of an attached statement are attached. -/
theorem CompilationUnit.Accepted.attached_parts {u : CompilationUnit} (hu : u.Accepted)
    {id : ElementId} {kind : Kind} (hid : id ∈ u.attached) (hkind : u.kind? id = some kind) :
    ∀ part ∈ kind.parts, part ∈ u.attached := by
  intro part hpart
  exact hu.mem_attached_iff.mpr (Tree.below_parts (hu.mem_attached_iff.mp hid) hkind part hpart)

/-- What is within attached statements stands in their subtrees. -/
theorem CompilationUnit.Accepted.mem_subtrees_of_withinAny {u : CompilationUnit} (hu : u.Accepted)
    {statements : List ElementId} (hattached : ∀ id ∈ statements, id ∈ u.attached)
    {part : ElementId} (h : u.tree.WithinAny statements part) :
    part ∈ statements.flatMap u.tree.subtree := by
  obtain ⟨whole, hwhole, hwithin⟩ := h
  obtain ⟨depth, hbelow⟩ := hu.mem_attached_iff.mp (hattached whole hwhole)
  exact List.mem_flatMap.mpr
    ⟨whole, hwhole, (hu.linked.mem_subtree_iff hbelow).mpr hwithin.exists_below⟩

namespace ControlFlow

/-! ## Edges -/

section Edges

variable (flow : ControlFlow) (ends : OpenEnds)

theorem edges_foldl_addEdge (target : Point) (branch : Point × Branch → Branch) :
    (ends.foldl (fun flow e => flow.addEdge e.1 target (branch e)) flow).edges =
      flow.edges ++ ends.map fun e => ⟨e.1, target, branch e⟩ := by
  induction ends generalizing flow with
  | nil => simp
  | cons e ends ih =>
    rw [List.foldl_cons, ih, addEdge, List.map_cons, List.append_assoc, List.singleton_append]

theorem statements_foldl_addEdge (target : Point) (branch : Point × Branch → Branch) :
    (ends.foldl (fun flow e => flow.addEdge e.1 target (branch e)) flow).statements =
      flow.statements := by
  induction ends generalizing flow with
  | nil => rfl
  | cons e ends ih => exact ih _

@[simp] theorem edges_connect (target : Point) :
    (flow.connect ends target).edges = flow.edges ++ ends.map fun e => ⟨e.1, target, e.2⟩ :=
  edges_foldl_addEdge flow ends target (·.2)

@[simp] theorem statements_connect (target : Point) :
    (flow.connect ends target).statements = flow.statements :=
  statements_foldl_addEdge flow ends target (·.2)

@[simp] theorem edges_addStatement (id : ElementId) :
    (flow.addStatement id ends).edges =
      flow.edges ++ ends.map fun e => ⟨e.1, .statement id, e.2⟩ := by
  simp [addStatement]

@[simp] theorem statements_addStatement (id : ElementId) :
    (flow.addStatement id ends).statements = flow.statements ++ [id] := by
  simp [addStatement]

@[simp] theorem edges_goBack (loop : ElementId) :
    (flow.goBack ends loop).edges =
      flow.edges ++ ends.map fun e => ⟨e.1, .statement loop, .jump⟩ :=
  edges_foldl_addEdge flow ends (.statement loop) fun _ => .jump

@[simp] theorem statements_goBack (loop : ElementId) :
    (flow.goBack ends loop).statements = flow.statements :=
  statements_foldl_addEdge flow ends (.statement loop) fun _ => .jump

@[simp] theorem edges_leave (id : ElementId) :
    (flow.leave id).edges = flow.edges ++ [⟨.statement id, .exit, .jump⟩] := rfl

@[simp] theorem statements_leave (id : ElementId) :
    (flow.leave id).statements = flow.statements := rfl

end Edges

/-! ## Rules of construction -/

/-- Whether control goes straight on behind a statement. -/
def isPlain : Kind → Bool
  | .localVar .. | .exprStmt _ => true
  | _ => false

theorem parts_of_isPlain {kind : Kind} (h : isPlain kind = true) : kind.parts = [] := by
  cases kind <;> first | rfl | cases h

/-- Whether a kind is that of a point of the control flow: a statement, but no block. -/
def isPointKind (kind : Kind) : Bool := kind.isStatement && !kind.isBlock

theorem isPointKind_of_isPlain {kind : Kind} (h : isPlain kind = true) :
    isPointKind kind = true := by
  cases kind <;> first | rfl | cases h

/-- `Adds tree statements ends flow after endsAfter`: adding these statements one after the
    other, the first one behind the open ends, makes `after` of the flow. -/
inductive Adds (tree : Tree) :
    List ElementId → OpenEnds → ControlFlow → ControlFlow → OpenEnds → Prop where
  | nil {ends : OpenEnds} {flow : ControlFlow} : Adds tree [] ends flow flow ends
  | cons {first : ElementId} {rest : List ElementId} {ends middleEnds lastEnds : OpenEnds}
      {flow middle last : ControlFlow} :
      Adds tree [first] ends flow middle middleEnds →
      Adds tree rest middleEnds middle last lastEnds →
      Adds tree (first :: rest) ends flow last lastEnds
  | block {id : ElementId} {statements : List ElementId} {ends lastEnds : OpenEnds}
      {flow last : ControlFlow} :
      tree.kind? id = some (.block statements) →
      Adds tree statements ends flow last lastEnds →
      Adds tree [id] ends flow last lastEnds
  -- A missing second branch is one without statements.
  | ifElse {id condition thenBranch : ElementId} {elseBranch : Option ElementId}
      {ends thenEnds elseEnds : OpenEnds} {flow middle last : ControlFlow} :
      tree.kind? id = some (.ifElse condition thenBranch elseBranch) →
      Adds tree [thenBranch] [(.statement id, .ifTrue)] (flow.addStatement id ends) middle
        thenEnds →
      Adds tree elseBranch.toList [(.statement id, .ifFalse)] middle last elseEnds →
      Adds tree [id] ends flow last (thenEnds ++ elseEnds)
  | whileLoop {id condition body : ElementId} {ends bodyEnds : OpenEnds}
      {flow middle : ControlFlow} :
      tree.kind? id = some (.whileLoop condition body) →
      Adds tree [body] [(.statement id, .ifTrue)] (flow.addStatement id ends) middle bodyEnds →
      Adds tree [id] ends flow (middle.goBack bodyEnds id) [(.statement id, .ifFalse)]
  | ret {id : ElementId} {expression : Option ElementId} {ends : OpenEnds} {flow : ControlFlow} :
      tree.kind? id = some (.ret expression) →
      Adds tree [id] ends flow ((flow.addStatement id ends).leave id) []
  | plain {id : ElementId} {kind : Kind} {ends : OpenEnds} {flow : ControlFlow} :
      tree.kind? id = some kind → isPlain kind = true →
      Adds tree [id] ends flow (flow.addStatement id ends) [(.statement id, .sequence)]

/-- Statements that are added one after the other by a function that follows the rules. -/
theorem adds_of_foldlM {tree : Tree} {add : ElementId → OpenEnds → ControlFlow →
      Except TreeError (ControlFlow × OpenEnds)} {statements : List ElementId}
    (hadd : ∀ id ∈ statements, ∀ ends flow result, add id ends flow = .ok result →
      Adds tree [id] ends flow result.1 result.2)
    {ends : OpenEnds} {flow : ControlFlow} {result : ControlFlow × OpenEnds}
    (h : statements.foldlM (fun state inner => add inner state.2 state.1) (flow, ends) =
      .ok result) : Adds tree statements ends flow result.1 result.2 := by
  induction statements generalizing flow ends with
  | nil =>
    cases h
    exact .nil
  | cons first statements ih =>
    rw [List.foldlM_cons] at h
    obtain ⟨middle, hfirst, hrest⟩ := bind_eq_ok_iff.mp h
    exact .cons (hadd first List.mem_cons_self _ _ _ hfirst)
      (ih (fun id hid => hadd id (List.mem_cons_of_mem _ hid)) hrest)

/-- Adding a statement follows the rules. -/
theorem adds_of_addUpTo {tree : Tree} (bound : Nat) {id : ElementId} {ends : OpenEnds}
    {flow : ControlFlow} {result : ControlFlow × OpenEnds}
    (h : addUpTo tree bound id ends flow = .ok result) :
    Adds tree [id] ends flow result.1 result.2 := by
  induction bound generalizing id ends flow result with
  | zero => cases h
  | succ bound ih =>
    rw [addUpTo] at h
    split at h
    · cases h
    · next statements hkind =>
      exact .block hkind (adds_of_foldlM (fun inner _ _ _ _ hinner => ih hinner) h)
    · next condition thenBranch elseBranch hkind =>
      obtain ⟨middle, hthen, h⟩ := bind_eq_ok_iff.mp h
      cases elseBranch with
      | none =>
        cases h
        exact .ifElse hkind (ih hthen) .nil
      | some elseBranch =>
        obtain ⟨last, helse, h⟩ := bind_eq_ok_iff.mp h
        cases h
        exact .ifElse hkind (ih hthen) (ih helse)
    · next condition body hkind =>
      obtain ⟨middle, hbody, h⟩ := bind_eq_ok_iff.mp h
      cases h
      exact .whileLoop hkind (ih hbody)
    · next expression hkind =>
      cases h
      exact .ret hkind
    · next hkind =>
      cases h
      exact .plain hkind rfl
    · next hkind =>
      cases h
      exact .plain hkind rfl
    · cases h

/-- The control flow of a method is made from its body, if it has one, between the entry and
    the exit. -/
theorem build_eq_ok {u : CompilationUnit} {method : ElementId} {flow : ControlFlow}
    (h : build u method = .ok flow) :
    ∃ signature parameters body inner ends,
      u.kind? method = some (.method signature parameters body) ∧
      Adds u.tree body.toList [(.entry, .sequence)] ⟨[], []⟩ inner ends ∧
      flow = inner.connect ends .exit := by
  rw [build] at h
  split at h
  · cases h
  · next signature parameters body hkind =>
    refine ⟨signature, parameters, body, ?_⟩
    cases body with
    | none =>
      cases h
      exact ⟨_, _, hkind, .nil, rfl⟩
    | some body =>
      obtain ⟨result, hadd, h⟩ := bind_eq_ok_iff.mp h
      cases h
      exact ⟨_, _, hkind, adds_of_addUpTo _ hadd, rfl⟩
  · cases h

/-! ## What is met -/

/-- A statement that was just added is met. -/
theorem mem_addStatement_point {tree : Tree} {flow : ControlFlow} {ends : OpenEnds}
    {id other : ElementId} (hother : other ∈ (flow.addStatement id ends).statements)
    (hid : tree.isKind isPointKind id = true) : other ∈ flow.statements ∨
      tree.isKind isPointKind other = true ∧ tree.WithinAny [id] other := by
  rw [statements_addStatement] at hother
  rcases List.mem_append.mp hother with hother | hother
  · exact Or.inl hother
  · obtain rfl := List.mem_singleton.mp hother
    exact Or.inr ⟨hid, tree.withinAny_self other⟩

section Adds

variable {tree : Tree} {statements : List ElementId} {ends lastEnds : OpenEnds}
  {flow last : ControlFlow}

/-- No edge is lost. -/
theorem Adds.edges_subset (h : Adds tree statements ends flow last lastEnds) :
    flow.edges ⊆ last.edges := by
  induction h with
  | nil => exact List.Subset.refl _
  | cons _ _ ihFirst ihRest => exact List.Subset.trans ihFirst ihRest
  | block _ _ ih => exact ih
  | ifElse _ _ _ ihThen ihElse =>
    rw [edges_addStatement] at ihThen
    exact List.Subset.trans (List.subset_append_left _ _) (List.Subset.trans ihThen ihElse)
  | whileLoop _ _ ih =>
    rw [edges_addStatement] at ih
    rw [edges_goBack]
    exact List.Subset.trans (List.subset_append_left _ _)
      (List.Subset.trans ih (List.subset_append_left _ _))
  | ret _ =>
    rw [edges_leave, edges_addStatement, List.append_assoc]
    exact List.subset_append_left _ _
  | plain _ _ =>
    rw [edges_addStatement]
    exact List.subset_append_left _ _

/-- All that is within statements that can be added is a statement. -/
theorem Adds.isStatement_of_within (h : Adds tree statements ends flow last lastEnds)
    {whole part : ElementId} (hwhole : whole ∈ statements) (hwithin : tree.Within whole part) :
    tree.isKind Kind.isStatement part = true := by
  induction h generalizing whole with
  | nil => cases hwhole
  | cons _ _ ihFirst ihRest =>
    rcases List.mem_cons.mp hwhole with rfl | hwhole
    · exact ihFirst List.mem_cons_self hwithin
    · exact ihRest hwhole hwithin
  | block hkind _ ih =>
    obtain rfl := List.mem_singleton.mp hwhole
    rcases (Tree.within_iff hkind).mp hwithin with rfl | ⟨next, hnext, hwithin⟩
    · exact Tree.isKind_of_kind? hkind rfl
    · exact ih hnext hwithin
  | ifElse hkind _ _ ihThen ihElse =>
    obtain rfl := List.mem_singleton.mp hwhole
    rcases (Tree.within_iff hkind).mp hwithin with rfl | ⟨next, hnext, hwithin⟩
    · exact Tree.isKind_of_kind? hkind rfl
    · rcases List.mem_cons.mp hnext with rfl | hnext
      · exact ihThen List.mem_cons_self hwithin
      · exact ihElse hnext hwithin
  | whileLoop hkind _ ih =>
    obtain rfl := List.mem_singleton.mp hwhole
    rcases (Tree.within_iff hkind).mp hwithin with rfl | ⟨next, hnext, hwithin⟩
    · exact Tree.isKind_of_kind? hkind rfl
    · exact ih hnext hwithin
  | ret hkind =>
    obtain rfl := List.mem_singleton.mp hwhole
    rcases (Tree.within_iff hkind).mp hwithin with rfl | ⟨next, hnext, -⟩
    · exact Tree.isKind_of_kind? hkind rfl
    · cases hnext
  | plain hkind hplain =>
    obtain rfl := List.mem_singleton.mp hwhole
    rcases (Tree.within_iff hkind).mp hwithin with rfl | ⟨next, hnext, -⟩
    · have hpoint := isPointKind_of_isPlain hplain
      exact Tree.isKind_of_kind? hkind (Bool.and_eq_true_iff.mp hpoint).1
    · rw [parts_of_isPlain hplain] at hnext
      cases hnext

/-- An open end was open before, or it is at a statement inside those that are added. -/
theorem Adds.mem_lastEnds (h : Adds tree statements ends flow last lastEnds)
    {e : Point × Branch} (he : e ∈ lastEnds) :
    e ∈ ends ∨ ∃ part, e.1 = .statement part ∧ tree.WithinAny statements part := by
  induction h with
  | nil => exact Or.inl he
  | cons _ _ ihFirst ihRest =>
    rcases ihRest he with he | ⟨part, hpart, hwithin⟩
    · rcases ihFirst he with he | ⟨part, hpart, hwithin⟩
      · exact Or.inl he
      · exact Or.inr ⟨part, hpart, hwithin.mono (by simp)⟩
    · exact Or.inr ⟨part, hpart, hwithin.mono (by simp)⟩
  | block hkind _ ih =>
    rcases ih he with he | ⟨part, hpart, hwithin⟩
    · exact Or.inl he
    · exact Or.inr ⟨part, hpart, hwithin.of_parts hkind (List.Subset.refl _)⟩
  | @ifElse id _ _ _ _ _ _ _ _ _ hkind _ _ ihThen ihElse =>
    right
    rcases List.mem_append.mp he with he | he
    · rcases ihThen he with he | ⟨part, hpart, hwithin⟩
      · obtain rfl := List.mem_singleton.mp he
        exact ⟨id, rfl, tree.withinAny_self id⟩
      · exact ⟨part, hpart, hwithin.of_parts hkind (by simp [Kind.parts])⟩
    · rcases ihElse he with he | ⟨part, hpart, hwithin⟩
      · obtain rfl := List.mem_singleton.mp he
        exact ⟨id, rfl, tree.withinAny_self id⟩
      · exact ⟨part, hpart, hwithin.of_parts hkind (by simp [Kind.parts])⟩
  | @whileLoop id _ _ _ _ _ _ _ _ _ =>
    obtain rfl := List.mem_singleton.mp he
    exact Or.inr ⟨id, rfl, tree.withinAny_self id⟩
  | ret _ => cases he
  | @plain id _ _ _ _ _ =>
    obtain rfl := List.mem_singleton.mp he
    exact Or.inr ⟨id, rfl, tree.withinAny_self id⟩

/-- Every statement that is met is inside those that are added, and it is no block. -/
theorem Adds.mem_statements (h : Adds tree statements ends flow last lastEnds) {id : ElementId}
    (hid : id ∈ last.statements) :
    id ∈ flow.statements ∨ tree.isKind isPointKind id = true ∧ tree.WithinAny statements id := by
  induction h with
  | nil => exact Or.inl hid
  | cons _ _ ihFirst ihRest =>
    rcases ihRest hid with hid | ⟨hpoint, hwithin⟩
    · rcases ihFirst hid with hid | ⟨hpoint, hwithin⟩
      · exact Or.inl hid
      · exact Or.inr ⟨hpoint, hwithin.mono (by simp)⟩
    · exact Or.inr ⟨hpoint, hwithin.mono (by simp)⟩
  | block hkind _ ih =>
    rcases ih hid with hid | ⟨hpoint, hwithin⟩
    · exact Or.inl hid
    · exact Or.inr ⟨hpoint, hwithin.of_parts hkind (List.Subset.refl _)⟩
  | ifElse hkind _ _ ihThen ihElse =>
    rcases ihElse hid with hid | ⟨hpoint, hwithin⟩
    · rcases ihThen hid with hid | ⟨hpoint, hwithin⟩
      · exact mem_addStatement_point hid (Tree.isKind_of_kind? hkind rfl)
      · exact Or.inr ⟨hpoint, hwithin.of_parts hkind (by simp [Kind.parts])⟩
    · exact Or.inr ⟨hpoint, hwithin.of_parts hkind (by simp [Kind.parts])⟩
  | whileLoop hkind _ ih =>
    rw [statements_goBack] at hid
    rcases ih hid with hid | ⟨hpoint, hwithin⟩
    · exact mem_addStatement_point hid (Tree.isKind_of_kind? hkind rfl)
    · exact Or.inr ⟨hpoint, hwithin.of_parts hkind (List.Subset.refl _)⟩
  | ret hkind => exact mem_addStatement_point hid (Tree.isKind_of_kind? hkind rfl)
  | plain hkind hplain =>
    exact mem_addStatement_point hid
      (Tree.isKind_of_kind? hkind (isPointKind_of_isPlain hplain))

/-- The statements that are met come in source order. -/
theorem Adds.exists_met (hl : tree.Linked) (h : Adds tree statements ends flow last lastEnds)
    (hbelow : ∀ id ∈ statements, ∃ depth, tree.Below tree.root depth id) :
    ∃ met, last.statements = flow.statements ++ met ∧
      met.Sublist (statements.flatMap tree.subtree) := by
  induction h with
  | nil => exact ⟨[], by simp, List.nil_sublist _⟩
  | @cons first rest _ _ _ _ _ _ _ _ ihFirst ihRest =>
    obtain ⟨hfirst, hrest⟩ := List.forall_mem_cons.mp hbelow
    obtain ⟨met, hmet, hsub⟩ := ihFirst (by simpa using hfirst)
    obtain ⟨more, hmore, hsubMore⟩ := ihRest hrest
    refine ⟨met ++ more, by rw [hmore, hmet, List.append_assoc], ?_⟩
    rw [List.flatMap_singleton] at hsub
    exact hsub.append hsubMore
  | @block id inner _ _ _ _ hkind _ ih =>
    have hid := hbelow id List.mem_cons_self
    obtain ⟨met, hmet, hsub⟩ := ih (Tree.below_parts hid hkind)
    refine ⟨met, hmet, ?_⟩
    rw [hl.flatMap_subtree_singleton hid hkind]
    exact hsub.cons id
  | @ifElse id condition thenBranch elseBranch _ _ _ _ _ _ hkind _ _ ihThen ihElse =>
    have hid := hbelow id List.mem_cons_self
    obtain ⟨hthen, helse⟩ := List.forall_mem_cons.mp (Tree.below_parts hid hkind)
    obtain ⟨met, hmet, hsub⟩ := ihThen (List.forall_mem_singleton.mpr hthen)
    obtain ⟨more, hmore, hsubMore⟩ := ihElse helse
    refine ⟨id :: (met ++ more), by rw [hmore, hmet, statements_addStatement]; simp, ?_⟩
    rw [List.flatMap_singleton] at hsub
    rw [hl.flatMap_subtree_singleton hid hkind]
    exact ((hsub.append hsubMore).trans (List.sublist_append_right _ _)).cons_cons id
  | @whileLoop id condition body _ _ _ _ hkind _ ih =>
    have hid := hbelow id List.mem_cons_self
    obtain ⟨met, hmet, hsub⟩ := ih (Tree.below_parts hid hkind)
    refine ⟨id :: met, by rw [statements_goBack, hmet, statements_addStatement]; simp, ?_⟩
    rw [hl.flatMap_subtree_singleton hid hkind]
    exact (hsub.trans (List.sublist_append_right _ _)).cons_cons id
  | @ret id _ _ _ hkind =>
    refine ⟨[id], by simp, ?_⟩
    rw [hl.flatMap_subtree_singleton (hbelow id List.mem_cons_self) hkind]
    exact List.singleton_sublist.mpr List.mem_cons_self
  | @plain id _ _ _ hkind _ =>
    refine ⟨[id], by simp, ?_⟩
    rw [hl.flatMap_subtree_singleton (hbelow id List.mem_cons_self) hkind]
    exact List.singleton_sublist.mpr List.mem_cons_self

end Adds

/-! ## Order -/

/-- The points that control can go on from. -/
def departures (flow : ControlFlow) : List Point := .entry :: flow.statements.map .statement

/-- The points that control can come to. -/
def arrivals (flow : ControlFlow) : List Point := .exit :: flow.statements.map .statement

theorem statement_mem_departures {flow : ControlFlow} {id : ElementId} :
    .statement id ∈ flow.departures ↔ id ∈ flow.statements := by
  simp [departures]

theorem statement_mem_arrivals {flow : ControlFlow} {id : ElementId} :
    .statement id ∈ flow.arrivals ↔ id ∈ flow.statements := by
  simp [arrivals]

section Order

variable {flow after : ControlFlow} {ends : OpenEnds}

theorem departures_subset (hsub : flow.statements ⊆ after.statements) :
    flow.departures ⊆ after.departures :=
  List.cons_subset_cons _ (List.map_subset _ hsub)

theorem arrivals_subset (hsub : flow.statements ⊆ after.statements) :
    flow.arrivals ⊆ after.arrivals :=
  List.cons_subset_cons _ (List.map_subset _ hsub)

variable (flow ends) in
/-- Open ends are at the entry or at statements that were met. -/
def Known : Prop := ∀ e ∈ ends, e.1 ∈ flow.departures

/-- Edges join points of the flow, and only jumps go back. -/
structure Orderly (flow : ControlFlow) : Prop where
  source : ∀ edge ∈ flow.edges, edge.source ∈ flow.departures
  target : ∀ edge ∈ flow.edges, edge.target ∈ flow.arrivals
  forward : ∀ edge ∈ flow.edges, edge.branch ≠ .jump → ∀ a b, edge.source = .statement a →
    edge.target = .statement b → [a, b].Sublist flow.statements

theorem Known.mono (h : Known flow ends) (hsub : flow.statements ⊆ after.statements) :
    Known after ends :=
  fun e he => departures_subset hsub (h e he)

theorem known_singleton {id : ElementId} (hid : id ∈ flow.statements) (branch : Branch) :
    Known flow [(.statement id, branch)] := by
  intro e he
  obtain rfl := List.mem_singleton.mp he
  exact statement_mem_departures.mpr hid

/-- New edges between points of the flow, those that are no jumps going forward. -/
theorem Orderly.append (h : Orderly flow) {edges : List FlowEdge}
    (hedges : after.edges = flow.edges ++ edges)
    (hstatements : flow.statements.Sublist after.statements)
    (hnew : ∀ edge ∈ edges, edge.source ∈ after.departures ∧ edge.target ∈ after.arrivals ∧
      (edge.branch ≠ .jump → ∀ a b, edge.source = .statement a → edge.target = .statement b →
        [a, b].Sublist after.statements)) : Orderly after where
  source := by
    intro edge hedge
    rw [hedges] at hedge
    rcases List.mem_append.mp hedge with hedge | hedge
    · exact departures_subset hstatements.subset (h.source edge hedge)
    · exact (hnew edge hedge).1
  target := by
    intro edge hedge
    rw [hedges] at hedge
    rcases List.mem_append.mp hedge with hedge | hedge
    · exact arrivals_subset hstatements.subset (h.target edge hedge)
    · exact (hnew edge hedge).2.1
  forward := by
    intro edge hedge hbranch a b ha hb
    rw [hedges] at hedge
    rcases List.mem_append.mp hedge with hedge | hedge
    · exact (h.forward edge hedge hbranch a b ha hb).trans hstatements
    · exact (hnew edge hedge).2.2 hbranch a b ha hb

theorem Orderly.addStatement (h : Orderly flow) (hends : Known flow ends) (id : ElementId) :
    Orderly (flow.addStatement id ends) := by
  have hsub : flow.statements.Sublist (flow.addStatement id ends).statements := by simp
  refine h.append (edges_addStatement flow ends id) hsub ?_
  intro edge hedge
  obtain ⟨e, he, rfl⟩ := List.mem_map.mp hedge
  refine ⟨departures_subset hsub.subset (hends e he), statement_mem_arrivals.mpr (by simp), ?_⟩
  intro _ a b ha hb
  cases hb
  have hmem : a ∈ flow.statements := statement_mem_departures.mp (ha ▸ hends e he)
  rw [statements_addStatement]
  exact (List.singleton_sublist.mpr hmem).append (List.Sublist.refl [id])

/-- The open ends of a loop body can go back to the loop. -/
theorem Orderly.goBack (h : Orderly flow) (hends : Known flow ends) {loop : ElementId}
    (hloop : loop ∈ flow.statements) : Orderly (flow.goBack ends loop) := by
  have hsub : flow.statements.Sublist (flow.goBack ends loop).statements := by simp
  refine h.append (edges_goBack flow ends loop) hsub ?_
  intro edge hedge
  obtain ⟨e, he, rfl⟩ := List.mem_map.mp hedge
  exact ⟨departures_subset hsub.subset (hends e he),
    statement_mem_arrivals.mpr (hsub.subset hloop), fun hbranch => absurd rfl hbranch⟩

/-- Ends can be connected to the exit. -/
theorem Orderly.exit (h : Orderly flow) {edges : List FlowEdge}
    (hedges : after.edges = flow.edges ++ edges) (hstatements : after.statements = flow.statements)
    (hnew : ∀ edge ∈ edges, edge.source ∈ flow.departures ∧ edge.target = .exit) :
    Orderly after := by
  have hsub : flow.statements.Sublist after.statements := by rw [hstatements]
  refine h.append hedges hsub ?_
  intro edge hedge
  obtain ⟨hsource, htarget⟩ := hnew edge hedge
  refine ⟨departures_subset hsub.subset hsource, ?_, ?_⟩
  · rw [htarget]
    exact List.mem_cons_self
  · intro _ a b _ hb
    rw [htarget] at hb
    cases hb

/-- What is added to an orderly flow, behind known ends, keeps the order. -/
theorem Adds.orderly {tree : Tree} {statements : List ElementId} {lastEnds : OpenEnds}
    {last : ControlFlow} (h : Adds tree statements ends flow last lastEnds)
    (horderly : Orderly flow) (hknown : Known flow ends) :
    Orderly last ∧ Known last lastEnds ∧ flow.statements ⊆ last.statements := by
  induction h with
  | nil => exact ⟨horderly, hknown, List.Subset.refl _⟩
  | cons _ _ ihFirst ihRest =>
    obtain ⟨hmiddle, hmiddleKnown, hsub⟩ := ihFirst horderly hknown
    obtain ⟨hlast, hlastKnown, hsubLast⟩ := ihRest hmiddle hmiddleKnown
    exact ⟨hlast, hlastKnown, List.Subset.trans hsub hsubLast⟩
  | block _ _ ih => exact ih horderly hknown
  | @ifElse id _ _ _ ends _ _ flow _ _ _ _ _ ihThen ihElse =>
    have hid : id ∈ (flow.addStatement id ends).statements := by simp
    obtain ⟨hmiddle, hthenKnown, hsub⟩ :=
      ihThen (horderly.addStatement hknown id) (known_singleton hid _)
    obtain ⟨hlast, helseKnown, hsubLast⟩ := ihElse hmiddle (known_singleton (hsub hid) _)
    refine ⟨hlast, ?_, fun other hother => hsubLast (hsub (by simp [hother]))⟩
    intro e he
    rcases List.mem_append.mp he with he | he
    · exact (hthenKnown.mono hsubLast) e he
    · exact helseKnown e he
  | @whileLoop id _ _ ends bodyEnds flow middle _ _ ih =>
    have hid : id ∈ (flow.addStatement id ends).statements := by simp
    obtain ⟨hmiddle, hbodyKnown, hsub⟩ :=
      ih (horderly.addStatement hknown id) (known_singleton hid _)
    refine ⟨hmiddle.goBack hbodyKnown (hsub hid), known_singleton ?_ _, ?_⟩
    · rw [statements_goBack]
      exact hsub hid
    · intro other hother
      rw [statements_goBack]
      exact hsub (by simp [hother])
  | @ret id _ ends flow _ =>
    have hid : id ∈ (flow.addStatement id ends).statements := by simp
    refine ⟨(horderly.addStatement hknown id).exit (edges_leave _ _) rfl ?_, ?_, ?_⟩
    · intro edge hedge
      obtain rfl := List.mem_singleton.mp hedge
      exact ⟨statement_mem_departures.mpr hid, rfl⟩
    · intro e he
      cases he
    · intro other hother
      simp [hother]
  | @plain id _ ends flow _ _ =>
    refine ⟨horderly.addStatement hknown id, known_singleton (by simp) _, ?_⟩
    intro other hother
    simp [hother]

/-- Every built control flow is orderly. -/
theorem orderly_of_build {u : CompilationUnit} {method : ElementId}
    (h : build u method = .ok flow) : Orderly flow := by
  obtain ⟨signature, parameters, body, inner, lastEnds, -, hadds, rfl⟩ := build_eq_ok h
  have hempty : Orderly ⟨[], []⟩ := ⟨by simp, by simp, by simp⟩
  have hentry : Known ⟨[], []⟩ [(.entry, .sequence)] := by
    intro e he
    obtain rfl := List.mem_singleton.mp he
    exact List.mem_cons_self
  obtain ⟨hinner, hknown, -⟩ := hadds.orderly hempty hentry
  refine hinner.exit (edges_connect inner lastEnds .exit) (statements_connect inner lastEnds .exit)
    ?_
  intro edge hedge
  obtain ⟨e, he, rfl⟩ := List.mem_map.mp hedge
  exact ⟨hknown e he, rfl⟩

end Order

end ControlFlow

/-! ## A small unit with a loop -/

/-- A class with one method, whose loop reads a variable before it assigns it:
    `m(c) { s = "x"; while (c) { if (c) { use(s); } else return; s = "y"; } use(s); }`. -/
def loopTree : Tree :=
  let method (name : String) (parameter : TypeRef) : Signature :=
    ⟨.named "A", name, [parameter], .primitive .void, ⟨0⟩⟩
  let flag (id : Nat) : Kind := .identifier "c" (some ⟨id⟩) (.primitive .boolean)
  let variableUse : Kind := .identifier "s" (some ⟨5⟩) .string
  let use (argument : Nat) : Kind := .call none "use" (some (method "use" .string)) [⟨argument⟩]
  let kinds : List Kind := [
    .compilationUnit "" [⟨1⟩], .classDecl "A" [⟨2⟩],
    .method (method "m" (.primitive .boolean)) [⟨3⟩] (some ⟨4⟩),
    .parameter "c" (.primitive .boolean),
    .block [⟨5⟩, ⟨8⟩, ⟨22⟩],
    .localVar .string ⟨6⟩ (some ⟨7⟩), variableUse, .literal (.string "x") .string,
    -- 8 to 21: the loop
    .whileLoop ⟨9⟩ ⟨10⟩, flag 3, .block [⟨11⟩, ⟨18⟩],
    .ifElse ⟨12⟩ ⟨13⟩ (some ⟨17⟩), flag 3,
    .block [⟨14⟩], .exprStmt ⟨15⟩, use 16, variableUse, .ret none,
    .exprStmt ⟨19⟩, .assign ⟨20⟩ ⟨21⟩, variableUse, .literal (.string "y") .string,
    -- 22 to 24: behind the loop
    .exprStmt ⟨23⟩, use 24, variableUse]
  { root := ⟨0⟩, elements := (kinds.map fun kind => ⟨none, kind⟩).toArray, types := [] }

/-- The unit of that tree. -/
def loopUnit : CompilationUnit :=
  (CompilationUnit.ofTree loopTree).toOption.get (by decide +kernel)

theorem loopUnit_accepted : loopUnit.Accepted := ⟨loopTree, eq_ok_get _⟩

/-- The control flow of its method. -/
def loopFlow : ControlFlow :=
  (ControlFlow.build loopUnit ⟨2⟩).toOption.get (by decide +kernel)

theorem build_loopUnit : ControlFlow.build loopUnit ⟨2⟩ = .ok loopFlow := eq_ok_get _

end ValueFlow
