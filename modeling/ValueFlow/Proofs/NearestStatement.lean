/-
  ValueFlow.Proofs.NearestStatement

  Elements and the statements around them.

  Containing and coming before go together: what comes before an element comes before all
  that it contains. The statement around an expression is the innermost one, and the
  expression stands in it before the statements that it is made of.
-/

import Mathlib.Data.List.Flatten
import ValueFlow.Flow.Reaching
import ValueFlow.Proofs.FlowConstruction
import ValueFlow.Proofs.SourceOrder

namespace ValueFlow

/-! ## Containing -/

theorem Tree.exists_of_isBlock {tree : Tree} {id : ElementId}
    (h : tree.isKind Kind.isBlock id = true) :
    ∃ statements, tree.kind? id = some (.block statements) := by
  obtain ⟨kind, hkind, hblock⟩ := exists_of_isKind h
  cases kind <;> first | exact ⟨_, hkind⟩ | cases hblock

theorem Tree.isKind_eq_false {tree : Tree} {id : ElementId} {test other : Kind → Bool}
    (h : tree.isKind test id = true) (hdisjoint : ∀ kind, test kind = true → other kind = false) :
    tree.isKind other id = false := by
  obtain ⟨kind, hkind, htest⟩ := exists_of_isKind h
  rw [isKind, hkind]
  exact hdisjoint kind htest

/-- Expressions are no statements. -/
theorem Tree.not_isStatement_of_isExpression {tree : Tree} {id : ElementId}
    (h : tree.isKind Kind.isExpression id = true) : tree.isKind Kind.isStatement id = false := by
  refine isKind_eq_false h fun kind hkind => ?_
  cases kind <;> first | rfl | cases hkind

/-- What passes a test and stands above an element stands above the closest such ancestor. -/
theorem Tree.Linked.below_of_find?_ancestorsUpTo {tree : Tree} (hl : tree.Linked)
    {test : ElementId → Bool} {bound depth : Nat} {id found other : ElementId}
    (hfind : (tree.ancestorsUpTo bound id).find? test = some found) (hother : test other = true)
    (hbelow : tree.Below other (depth + 1) id) : ∃ level, tree.Below other level found := by
  induction bound generalizing id depth with
  | zero => cases hfind
  | succ bound ih =>
    cases hbelow with
    | @child _ parent _ hparent hmem =>
      rw [ancestorsUpTo, (hl.parent_iff _ _).mpr hmem, List.find?_cons] at hfind
      split at hfind
      · cases hfind
        exact ⟨depth, hparent⟩
      · next hfail =>
        cases depth with
        | zero =>
          cases hparent
          rw [hother] at hfail
          cases hfail
        | succ depth => exact ih hfind hparent

/-- The subtrees of siblings stand in the subtree of the parent as the siblings do. -/
theorem Tree.Linked.subtrees_sublist {tree : Tree} (hl : tree.Linked) {parent : ElementId}
    {depth : Nat} (hparent : tree.Below tree.root depth parent) {siblings : List ElementId}
    (hsiblings : siblings.Sublist (tree.children parent)) :
    (siblings.flatMap tree.subtree).Sublist (tree.subtree parent) := by
  rw [hl.subtree_eq hparent]
  exact (hsiblings.flatMap tree.subtree).trans (List.sublist_cons_self _ _)

namespace CompilationUnit

section Contains

variable {u : CompilationUnit} (h : u.Accepted)
include h

theorem Accepted.contains_iff_below {a b : ElementId} :
    u.contains a b = true ↔ a ∈ u.attached ∧ ∃ depth, u.tree.Below a depth b := by
  by_cases ha : a ∈ u.attached
  · obtain ⟨level, hlevel⟩ := h.mem_attached_iff.mp ha
    by_cases hb : b ∈ u.attached
    · rw [h.contains_iff ha hb, h.linked.mem_subtree_iff hlevel]
      exact ⟨fun hbelow => ⟨ha, hbelow⟩, And.right⟩
    · refine ⟨fun hcontains => ?_, ?_⟩
      · rw [contains, h.span?_eq_none_iff.mpr hb] at hcontains
        split at hcontains
        · next hsome => cases hsome
        · cases hcontains
      · rintro ⟨-, depth, hbelow⟩
        exact absurd (h.mem_attached_iff.mpr ⟨_, hlevel.trans hbelow⟩) hb
  · rw [contains, h.span?_eq_none_iff.mpr ha]
    simp [ha]

theorem Accepted.attached_of_contains {a b : ElementId} (hab : u.contains a b = true) :
    a ∈ u.attached ∧ b ∈ u.attached := by
  obtain ⟨ha, depth, hbelow⟩ := h.contains_iff_below.mp hab
  obtain ⟨level, hlevel⟩ := h.mem_attached_iff.mp ha
  exact ⟨ha, h.mem_attached_iff.mpr ⟨_, hlevel.trans hbelow⟩⟩

theorem Accepted.contains_self {a : ElementId} (ha : a ∈ u.attached) : u.contains a a = true :=
  h.contains_iff_below.mpr ⟨ha, 0, .self⟩

theorem Accepted.contains_trans {a b c : ElementId} (hab : u.contains a b = true)
    (hbc : u.contains b c = true) : u.contains a c = true := by
  obtain ⟨ha, depth, hbelow⟩ := h.contains_iff_below.mp hab
  obtain ⟨-, level, hlevel⟩ := h.contains_iff_below.mp hbc
  exact h.contains_iff_below.mpr ⟨ha, _, hbelow.trans hlevel⟩

theorem Accepted.contains_antisymm {a b : ElementId} (hab : u.contains a b = true)
    (hba : u.contains b a = true) : a = b := by
  obtain ⟨ha, m, hm⟩ := h.contains_iff_below.mp hab
  obtain ⟨-, n, hn⟩ := h.contains_iff_below.mp hba
  obtain ⟨depth, hdepth⟩ := h.mem_attached_iff.mp ha
  have hlevel := h.linked.depth_unique hdepth ((hdepth.trans hm).trans hn)
  obtain rfl : m = 0 := by omega
  cases hm
  rfl

/-- What an element contains is the element or contained in one of its children. -/
theorem Accepted.contains_cases {a b : ElementId} (hab : u.contains a b = true) :
    a = b ∨ ∃ child ∈ u.tree.children a, u.contains child b = true := by
  obtain ⟨ha, depth, hbelow⟩ := h.contains_iff_below.mp hab
  cases depth with
  | zero =>
    cases hbelow
    exact Or.inl rfl
  | succ depth =>
    obtain ⟨child, hchild, hbelow⟩ := hbelow.cases_head
    refine Or.inr ⟨child, hchild, h.contains_iff_below.mpr ⟨?_, depth, hbelow⟩⟩
    exact (h.attached_child_iff hchild).mpr ha

theorem Accepted.contains_child {parent child : ElementId} (hparent : parent ∈ u.attached)
    (hchild : child ∈ u.tree.children parent) : u.contains parent child = true :=
  h.contains_iff_below.mpr ⟨hparent, 1, .child .self hchild⟩

theorem Accepted.not_contains_parent {parent child : ElementId} (hparent : parent ∈ u.attached)
    (hchild : child ∈ u.tree.children parent) : ¬ u.contains child parent = true := by
  intro hcontains
  obtain ⟨-, level, hlevel⟩ := h.contains_iff_below.mp hcontains
  obtain ⟨depth, hdepth⟩ := h.mem_attached_iff.mp hparent
  have hsame := h.linked.depth_unique hdepth (hdepth.trans (.head hchild hlevel))
  omega

/-- What contains a child, and is not the child itself, contains the parent. -/
theorem Accepted.contains_parent {a parent child : ElementId}
    (hchild : child ∈ u.tree.children parent) (hcontains : u.contains a child = true)
    (hne : a ≠ child) : u.contains a parent = true := by
  obtain ⟨ha, depth, hbelow⟩ := h.contains_iff_below.mp hcontains
  cases hbelow with
  | self => exact absurd rfl hne
  | child hparent hmem =>
    rw [h.linked.parent_unique hmem hchild] at hparent
    exact h.contains_iff_below.mpr ⟨ha, _, hparent⟩

/-! ## Containing and coming before -/

/-- All of an element comes before all of another one, if it comes before it. -/
theorem Accepted.isBefore_iff_forall {a b : ElementId} (ha : a ∈ u.attached)
    (hb : b ∈ u.attached) :
    u.isBefore a b = true ↔ ∀ x y, u.contains a x = true → u.contains b y = true →
      u.attached.idxOf x < u.attached.idxOf y := by
  obtain ⟨span, -, hfirst, hinside⟩ := h.exists_span ha
  obtain ⟨other, -, hotherFirst, hother⟩ := h.exists_span hb
  rw [h.isBefore_iff ha hb, ← hinside b hb]
  refine ⟨?_, fun hall => ⟨hall a b (h.contains_self ha) (h.contains_self hb), ?_⟩⟩
  · rintro ⟨hlt, hnot⟩ x y hx hy
    obtain ⟨-, hx'⟩ := h.attached_of_contains hx
    obtain ⟨-, hy'⟩ := h.attached_of_contains hy
    have hxSpan := (hinside x hx').mpr ((h.contains_iff ha hx').mp hx)
    have hySpan := (hother y hy').mpr ((h.contains_iff hb hy').mp hy)
    omega
  · intro hmem
    have hcontains := (h.contains_iff ha hb).mpr ((hinside b hb).mp hmem)
    exact Nat.lt_irrefl _ (hall b b hcontains (h.contains_self hb))

theorem Accepted.attached_of_isBefore {a b : ElementId} (hab : u.isBefore a b = true) :
    a ∈ u.attached ∧ b ∈ u.attached := by
  refine ⟨by_contra fun ha => ?_, by_contra fun hb => ?_⟩
  · rw [isBefore, h.span?_eq_none_iff.mpr ha] at hab
    cases hab
  · rw [isBefore, h.span?_eq_none_iff.mpr hb] at hab
    split at hab
    · next hsome => cases hsome
    · cases hab

theorem Accepted.isBefore_of_contains {a b x y : ElementId} (hab : u.isBefore a b = true)
    (hx : u.contains a x = true) (hy : u.contains b y = true) : u.isBefore x y = true := by
  obtain ⟨ha, hb⟩ := h.attached_of_isBefore hab
  have hall := (h.isBefore_iff_forall ha hb).mp hab
  refine (h.isBefore_iff_forall (h.attached_of_contains hx).2 (h.attached_of_contains hy).2).mpr ?_
  intro x' y' hx' hy'
  exact hall x' y' (h.contains_trans hx hx') (h.contains_trans hy hy')

theorem Accepted.not_isBefore_of_isBefore {a b : ElementId} (hab : u.isBefore a b = true) :
    ¬ u.isBefore b a = true := by
  obtain ⟨ha, hb⟩ := h.attached_of_isBefore hab
  intro hba
  have hlt := ((h.isBefore_iff ha hb).mp hab).1
  have hgt := ((h.isBefore_iff hb ha).mp hba).1
  omega

/-- What stands between two parts of an element stands inside it. -/
theorem Accepted.contains_of_between {whole a x b : ElementId} (ha : u.contains whole a = true)
    (hb : u.contains whole b = true) (hax : u.isBefore a x = true) (hxb : u.isBefore x b = true) :
    u.contains whole x = true := by
  obtain ⟨hwhole, ha'⟩ := h.attached_of_contains ha
  obtain ⟨hx, hb'⟩ := h.attached_of_isBefore hxb
  obtain ⟨span, -, -, hinside⟩ := h.exists_span hwhole
  have haSpan := (hinside a ha').mpr ((h.contains_iff hwhole ha').mp ha)
  have hbSpan := (hinside b hb').mpr ((h.contains_iff hwhole hb').mp hb)
  have hax' := ((h.isBefore_iff ha' hx).mp hax).1
  have hxb' := ((h.isBefore_iff hx hb').mp hxb).1
  rw [h.contains_iff hwhole hx, ← hinside x hx]
  omega

theorem Accepted.subtree_sublist_attached {id : ElementId} {depth : Nat}
    (hid : u.tree.Below u.tree.root depth id) : (u.tree.subtree id).Sublist u.attached := by
  induction hid with
  | self => rw [h.attached_eq]
  | child hparent hmem ih =>
    have hinner := h.linked.subtrees_sublist hparent (List.singleton_sublist.mpr hmem)
    rw [List.flatMap_singleton] at hinner
    exact hinner.trans ih

theorem Accepted.pairwise_idxOf :
    u.attached.Pairwise fun a b => u.attached.idxOf a < u.attached.idxOf b := by
  rw [List.pairwise_iff_getElem]
  intro i j hi hj hlt
  rwa [h.nodup_attached.idxOf_getElem i hi, h.nodup_attached.idxOf_getElem j hj]

/-- Of two siblings, all of the first one comes before the second one. -/
theorem Accepted.isBefore_of_siblings {parent a b : ElementId} (hparent : parent ∈ u.attached)
    (hsiblings : [a, b].Sublist (u.tree.children parent)) : u.isBefore a b = true := by
  have hattached : ∀ child ∈ [a, b], child ∈ u.attached := fun child hchild =>
    (h.attached_child_iff (hsiblings.subset hchild)).mpr hparent
  have ha := hattached a (by simp)
  have hb := hattached b (by simp)
  obtain ⟨depth, hbelow⟩ := h.mem_attached_iff.mp hparent
  have hpairwise := h.pairwise_idxOf.sublist
    ((h.linked.subtrees_sublist hbelow hsiblings).trans (h.subtree_sublist_attached hbelow))
  rw [List.flatMap_cons, List.flatMap_singleton, List.pairwise_append] at hpairwise
  refine (h.isBefore_iff_forall ha hb).mpr fun x y hx hy => ?_
  exact hpairwise.2.2 x ((h.contains_iff ha (h.attached_of_contains hx).2).mp hx) y
    ((h.contains_iff hb (h.attached_of_contains hy).2).mp hy)

/-- In a block, all of a statement comes behind what precedes it and before what follows. -/
theorem Accepted.isBefore_in_block {block statement : ElementId} {before later : List ElementId}
    (hblock : block ∈ u.attached)
    (hkind : u.kind? block = some (.block (before ++ statement :: later))) :
    (∀ sibling ∈ before, u.isBefore sibling statement = true) ∧
      ∀ sibling ∈ later, u.isBefore statement sibling = true := by
  have hchildren : u.tree.children block = before ++ statement :: later := Tree.children_eq hkind
  refine ⟨fun sibling hsibling => ?_, fun sibling hsibling => ?_⟩
  · refine h.isBefore_of_siblings hblock ?_
    rw [hchildren]
    exact (List.singleton_sublist.mpr hsibling).append
      (List.singleton_sublist.mpr List.mem_cons_self)
  · refine h.isBefore_of_siblings hblock ?_
    rw [hchildren]
    exact ((List.singleton_sublist.mpr hsibling).cons_cons statement).trans
      (List.sublist_append_right _ _)

end Contains

/-! ## Statements around elements -/

section Statements

variable {u : CompilationUnit} (h : u.Accepted)
include h

theorem Accepted.attached_of_enclosingStatement? {id statement : ElementId}
    (hstatement : u.enclosingStatement? id = some statement) (hattached : statement ∈ u.attached) :
    id ∈ u.attached := by
  obtain ⟨depth, hbelow⟩ := h.linked.below_ancestor (List.mem_of_find?_eq_some hstatement)
  obtain ⟨level, hlevel⟩ := h.mem_attached_iff.mp hattached
  exact h.mem_attached_iff.mpr ⟨_, hlevel.trans hbelow⟩

/-- The statement around an element is the innermost one. -/
theorem Accepted.enclosingStatement?_spec {id statement : ElementId} (hid : id ∈ u.attached)
    (hstatement : u.enclosingStatement? id = some statement) :
    u.tree.isKind Kind.isStatement statement = true ∧ u.contains statement id = true ∧
      statement ≠ id ∧ ∀ other, u.tree.isKind Kind.isStatement other = true →
        u.contains other id = true → other ≠ id → u.contains other statement = true := by
  have hmem := List.mem_of_find?_eq_some hstatement
  have hattached := h.attached_of_mem_ancestors hid hmem
  refine ⟨List.find?_some hstatement, ?_, ?_, ?_⟩
  · obtain ⟨depth, hbelow⟩ := h.linked.below_ancestor hmem
    exact h.contains_iff_below.mpr ⟨hattached, _, hbelow⟩
  · rintro rfl
    exact Nat.lt_irrefl _ (h.idxOf_lt_of_mem_ancestors hid hmem)
  · intro other hother hcontains hne
    obtain ⟨hotherAttached, depth, hbelow⟩ := h.contains_iff_below.mp hcontains
    cases depth with
    | zero =>
      cases hbelow
      exact absurd rfl hne
    | succ depth =>
      obtain ⟨level, hlevel⟩ := h.linked.below_of_find?_ancestorsUpTo hstatement hother hbelow
      exact h.contains_iff_below.mpr ⟨hotherAttached, level, hlevel⟩

theorem Accepted.enclosingStatement?_of_isStatement {parent child : ElementId}
    (hparent : parent ∈ u.attached) (hchild : child ∈ u.tree.children parent)
    (hkind : u.tree.isKind Kind.isStatement parent = true) :
    u.enclosingStatement? child = some parent := by
  obtain ⟨depth, hbelow⟩ := h.mem_attached_iff.mp hparent
  rw [enclosingStatement?, h.linked.ancestors_child hbelow hchild, List.find?_cons_of_pos hkind]

/-- What is no statement has the same statement around it as its children. -/
theorem Accepted.enclosingStatement?_of_not_isStatement {parent child : ElementId}
    (hparent : parent ∈ u.attached) (hchild : child ∈ u.tree.children parent)
    (hkind : u.tree.isKind Kind.isStatement parent = false) :
    u.enclosingStatement? child = u.enclosingStatement? parent := by
  obtain ⟨depth, hbelow⟩ := h.mem_attached_iff.mp hparent
  rw [enclosingStatement?, h.linked.ancestors_child hbelow hchild,
    List.find?_cons_of_neg (by simp [hkind]), enclosingStatement?]

/-! ## Statements inside statements -/

theorem Accepted.contains_of_within {whole part : ElementId} (hwhole : whole ∈ u.attached)
    (hwithin : u.tree.Within whole part) : u.contains whole part = true :=
  h.contains_iff_below.mpr ⟨hwhole, hwithin.exists_below⟩

theorem Accepted.attached_of_within {whole part : ElementId} (hwhole : whole ∈ u.attached)
    (hwithin : u.tree.Within whole part) : part ∈ u.attached :=
  (h.attached_of_contains (h.contains_of_within hwhole hwithin)).2

/-- Whatever stands between a statement and one within it is a statement on the way. -/
theorem Accepted.within_between {whole middle part : ElementId}
    (hwithin : u.tree.Within whole part) (hmiddle : u.contains whole middle = true)
    (hpart : u.contains middle part = true) :
    u.tree.Within whole middle ∧ u.tree.Within middle part := by
  induction hwithin with
  | refl =>
    obtain rfl := h.contains_antisymm hmiddle hpart
    exact ⟨.refl, .refl⟩
  | @tail above part habove hmem ih =>
    by_cases heq : middle = part
    · subst heq
      exact ⟨habove.tail hmem, .refl⟩
    · have hchild := (u.tree.parts_suffix_children above).subset hmem
      obtain ⟨hfirst, hsecond⟩ := ih (h.contains_parent hchild hpart heq)
      exact ⟨hfirst, hsecond.tail hmem⟩

end Statements

/-- The body of a method: all that is within it is a statement. -/
structure IsBody (u : CompilationUnit) (method body : ElementId) : Prop where
  isMethod : u.tree.isKind Kind.isMethod method = true
  attached : body ∈ u.attached
  parent : u.parent? body = some method
  statements : ∀ part, u.tree.Within body part → u.tree.isKind Kind.isStatement part = true

section Bodies

variable {u : CompilationUnit} (h : u.Accepted) {method body : ElementId}
  (hbody : u.IsBody method body)
include h hbody

/-- A statement inside of another one stands in a part of it. -/
theorem IsBody.exists_part {whole inner : ElementId} (hwhole : u.tree.Within body whole)
    (hinner : u.tree.Within body inner) (hcontains : u.contains whole inner = true)
    (hne : whole ≠ inner) : ∃ part ∈ u.tree.parts whole, u.contains part inner = true := by
  obtain ⟨-, hwithin⟩ :=
    h.within_between hinner (h.contains_of_within hbody.attached hwhole) hcontains
  rcases Relation.ReflTransGen.cases_head hwithin with heq | ⟨part, hpart, hwithin⟩
  · exact absurd heq hne
  · have hattached := h.attached_of_within hbody.attached (hwhole.tail hpart)
    exact ⟨part, hpart, h.contains_of_within hattached hwithin⟩

/-- An expression of a statement stands in a child that is no part of the statement. -/
theorem IsBody.exists_own_child {statement id : ElementId}
    (hwithin : u.tree.Within body statement) (hid : id ∈ u.attached)
    (hkind : u.tree.isKind Kind.isStatement id = false)
    (hstatement : u.enclosingStatement? id = some statement) :
    ∃ child ∈ u.tree.children statement,
      child ∉ u.tree.parts statement ∧ u.contains child id = true := by
  obtain ⟨-, hcontains, hne, hinner⟩ := h.enclosingStatement?_spec hid hstatement
  rcases h.contains_cases hcontains with heq | ⟨child, hchild, hcontainsChild⟩
  · exact absurd heq hne
  · refine ⟨child, hchild, fun hpart => ?_, hcontainsChild⟩
    -- A part is a statement, and it would be closer to the expression.
    have hpartKind := hbody.statements child (hwithin.tail hpart)
    have hchildNe : child ≠ id := by
      rintro rfl
      rw [hkind] at hpartKind
      cases hpartKind
    exact h.not_contains_parent (h.attached_of_contains hcontains).1 hchild
      (hinner child hpartKind hcontainsChild hchildNe)

/-- An expression of a statement comes before the parts of the statement. -/
theorem IsBody.isBefore_part {statement id part other : ElementId}
    (hwithin : u.tree.Within body statement) (hid : id ∈ u.attached)
    (hkind : u.tree.isKind Kind.isStatement id = false)
    (hstatement : u.enclosingStatement? id = some statement)
    (hpart : part ∈ u.tree.parts statement) (hother : u.contains part other = true) :
    u.isBefore id other = true := by
  obtain ⟨child, hchild, hnot, hcontains⟩ :=
    hbody.exists_own_child h hwithin hid hkind hstatement
  have hattached := h.attached_of_within hbody.attached hwithin
  obtain ⟨own, hown⟩ := u.tree.parts_suffix_children statement
  have hsiblings : [child, part].Sublist (u.tree.children statement) := by
    rw [← hown] at hchild ⊢
    have hmem := (List.mem_append.mp hchild).resolve_right hnot
    exact (List.singleton_sublist.mpr hmem).append (List.singleton_sublist.mpr hpart)
  exact h.isBefore_of_contains (h.isBefore_of_siblings hattached hsiblings) hcontains hother

/-- The statement around an expression of a body is no block. -/
theorem IsBody.not_isBlock {statement id : ElementId}
    (hwithin : u.tree.Within body statement) (hid : id ∈ u.attached)
    (hkind : u.tree.isKind Kind.isStatement id = false)
    (hstatement : u.enclosingStatement? id = some statement) :
    u.tree.isKind Kind.isBlock statement = false := by
  obtain ⟨child, hchild, hnot, -⟩ := hbody.exists_own_child h hwithin hid hkind hstatement
  refine Bool.eq_false_iff.mpr fun hblock => hnot ?_
  -- A block has no other children than its parts.
  obtain ⟨statements, hblock⟩ := Tree.exists_of_isBlock hblock
  rw [Tree.children_eq hblock] at hchild
  rwa [Tree.parts_eq hblock]

end Bodies

end CompilationUnit

namespace ControlFlow

/-! ## Own expressions -/

/-- An expression is found below an element if no statement stands on the way. -/
theorem mem_expressionsUpTo_of_below {tree : Tree} {bound depth : Nat} {top id : ElementId}
    (hid : tree.isKind Kind.isExpression id = true) (hbelow : tree.Below top depth id)
    (hbound : depth < bound)
    (hway : ∀ a m n, tree.Below top m a → tree.Below a n id →
      tree.isKind Kind.isStatement a = false) : id ∈ expressionsUpTo tree bound top := by
  induction bound generalizing top depth with
  | zero => omega
  | succ bound ih =>
    have htop := hway top 0 depth .self hbelow
    cases hkind : tree.kind? top with
    | none =>
      cases depth with
      | zero =>
        cases hbelow
        rw [Tree.isKind, hkind] at hid
        cases hid
      | succ depth =>
        obtain ⟨next, hnext, -⟩ := hbelow.cases_head
        rw [Tree.children, hkind] at hnext
        cases hnext
    | some kind =>
      rw [Tree.isKind, hkind, Option.any_some] at htop
      rw [expressionsUpTo, hkind]
      simp only [htop]
      rw [if_neg Bool.false_ne_true, List.mem_append, List.mem_flatMap]
      cases depth with
      | zero =>
        cases hbelow
        rw [Tree.isKind, hkind, Option.any_some] at hid
        rw [if_pos hid]
        exact Or.inl List.mem_cons_self
      | succ depth =>
        obtain ⟨next, hnext, hrest⟩ := hbelow.cases_head
        refine Or.inr ⟨next, Tree.children_eq hkind ▸ hnext, ih hrest (by omega) ?_⟩
        intro a m n ha hn
        exact hway a (m + 1) n (.head hnext ha) hn

/-- An expression is one of the statement around it. -/
theorem mem_ownExpressions {u : CompilationUnit} (hu : u.Accepted) {id statement : ElementId}
    (hid : id ∈ u.attached) (hkind : u.tree.isKind Kind.isExpression id = true)
    (hstatement : u.enclosingStatement? id = some statement) : id ∈ ownExpressions u statement := by
  obtain ⟨-, hcontains, hne, hinner⟩ := hu.enclosingStatement?_spec hid hstatement
  have hattached := (hu.attached_of_contains hcontains).1
  rcases hu.contains_cases hcontains with heq | ⟨child, hchild, hcontainsChild⟩
  · exact absurd heq hne
  · obtain ⟨hchildAttached, depth, hbelow⟩ := hu.contains_iff_below.mp hcontainsChild
    obtain ⟨level, hlevel⟩ := hu.mem_attached_iff.mp hchildAttached
    have hdepth := hu.linked.depth_lt (hlevel.trans hbelow)
    refine List.mem_flatMap.mpr ⟨child, hchild, ?_⟩
    refine mem_expressionsUpTo_of_below hkind hbelow (show depth < u.tree.size by omega) ?_
    intro a m n ha hn
    refine Bool.eq_false_iff.mpr fun hstatementKind => ?_
    -- A statement on the way would be closer to the expression.
    have hchildContains : u.contains child a = true :=
      hu.contains_iff_below.mpr ⟨hchildAttached, m, ha⟩
    have haContains : u.contains a id = true :=
      hu.contains_iff_below.mpr ⟨(hu.attached_of_contains hchildContains).2, n, hn⟩
    have haNe : a ≠ id := by
      rintro rfl
      rw [Tree.not_isStatement_of_isExpression hkind] at hstatementKind
      cases hstatementKind
    exact hu.not_contains_parent hattached hchild
      (hu.contains_trans hchildContains (hinner a hstatementKind haContains haNe))

end ControlFlow
end ValueFlow
