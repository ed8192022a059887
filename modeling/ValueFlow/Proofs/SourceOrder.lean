/-
  ValueFlow.Proofs.SourceOrder

  The numbers of elements tell how the elements stand to each other.

  Three walks look at a tree: numbering goes down child by child and counts, the list of
  attached elements is made with a stack, and ancestors are found by going up. Their
  common measure is the subtree of an element. In the list of attached elements it is one
  piece, which begins with the element, and the span of the element is the place of this
  piece.
-/

import ValueFlow.Proofs.Tree
import Mathlib.Data.List.Basic

namespace ValueFlow
namespace Tree

/-! ## Numbering -/

/-- The entries number these elements from `next` on, and the span of each entry is the
    place of its subtree among the elements. -/
structure Numbered (tree : Tree) (elements : List ElementId) (next : Nat)
    (entries : List (ElementId × Span)) : Prop where
  ids : entries.map (·.1) = elements
  span : ∀ entry ∈ entries, ∃ before after,
    elements = before ++ tree.subtree entry.1 ++ after ∧
      entry.2.first = next + before.length ∧
      entry.2.last + 1 = entry.2.first + (tree.subtree entry.1).length

theorem Numbered.append {tree : Tree} {front back : List ElementId} {next : Nat}
    {entries others : List (ElementId × Span)} (hfront : tree.Numbered front next entries)
    (hback : tree.Numbered back (next + front.length) others) :
    tree.Numbered (front ++ back) next (entries ++ others) where
  ids := by rw [List.map_append, hfront.ids, hback.ids]
  span := by
    intro entry hentry
    rcases List.mem_append.mp hentry with hentry | hentry
    · obtain ⟨before, after, hsplit, hfirst, hlast⟩ := hfront.span entry hentry
      refine ⟨before, after ++ back, ?_, hfirst, hlast⟩
      rw [hsplit, List.append_assoc]
    · obtain ⟨before, after, hsplit, hfirst, hlast⟩ := hback.span entry hentry
      refine ⟨front ++ before, after, ?_, ?_, hlast⟩
      · rw [hsplit]
        simp only [List.append_assoc]
      · rw [hfirst, List.length_append]
        omega

/-- An element gets the number before those of the elements below it. -/
theorem Numbered.cons {tree : Tree} {id : ElementId} {below : List ElementId} {next last : Nat}
    {entries : List (ElementId × Span)} (h : tree.Numbered below (next + 1) entries)
    (hsubtree : tree.subtree id = id :: below) (hlast : last = next + below.length) :
    tree.Numbered (tree.subtree id) next ((id, ⟨next, last⟩) :: entries) where
  ids := by rw [List.map_cons, h.ids, hsubtree]
  span := by
    intro entry hentry
    rcases List.mem_cons.mp hentry with rfl | hentry
    · refine ⟨[], [], by simp, rfl, ?_⟩
      show last + 1 = next + (tree.subtree id).length
      rw [hsubtree, List.length_cons]
      omega
    · obtain ⟨before, after, hsplit, hfirst, hentryLast⟩ := h.span entry hentry
      refine ⟨id :: before, after, ?_, ?_, hentryLast⟩
      · rw [hsubtree, hsplit]
        rfl
      · rw [hfirst, List.length_cons]
        omega

/-- The entries that are made for an element number its subtree, up to the last number
    used. -/
def Numbers (tree : Tree) (bound : Nat) (id : ElementId) : Prop :=
  ∀ next, tree.Numbered (tree.subtree id) next (tree.spansFrom bound id next).1 ∧
    (tree.spansFrom bound id next).2 + 1 = next + (tree.subtree id).length

/-- Children are numbered one after another. -/
theorem numbered_foldl {tree : Tree} {bound : Nat} {children : List ElementId}
    (hchildren : ∀ child ∈ children, tree.Numbers bound child)
    (acc : List (ElementId × Span) × Nat) :
    ∃ entries, tree.Numbered (children.flatMap tree.subtree) (acc.2 + 1) entries ∧
      children.foldl (fun (acc : List (ElementId × Span) × Nat) child =>
          let inner := tree.spansFrom bound child (acc.2 + 1)
          (acc.1 ++ inner.1, inner.2)) acc =
        (acc.1 ++ entries, acc.2 + (children.flatMap tree.subtree).length) := by
  induction children generalizing acc with
  | nil => exact ⟨[], ⟨rfl, by simp⟩, by simp⟩
  | cons child children ih =>
    obtain ⟨hchild, hchildren⟩ := List.forall_mem_cons.mp hchildren
    obtain ⟨hinner, hlast⟩ := hchild (acc.2 + 1)
    obtain ⟨entries, hentries, hfold⟩ := ih hchildren
      (acc.1 ++ (tree.spansFrom bound child (acc.2 + 1)).1,
        (tree.spansFrom bound child (acc.2 + 1)).2)
    refine ⟨_ ++ entries, hinner.append ?_, ?_⟩
    · rwa [← hlast]
    · rw [List.foldl_cons, hfold, List.flatMap_cons, List.length_append, List.append_assoc]
      congr 1
      simp only
      omega

section Linked

variable {tree : Tree} (hl : tree.Linked)
include hl

/-- Every element below the root is numbered, if the bound is large enough. -/
theorem Linked.numbers {bound level : Nat} {id : ElementId} (h : tree.Below tree.root level id)
    (hbound : tree.size ≤ level + bound) : tree.Numbers bound id := by
  -- With each level further down, the bound gets smaller by one.
  induction bound generalizing level id with
  | zero =>
    have hlt := hl.depth_lt h
    omega
  | succ bound ih =>
    intro next
    have hchildren : ∀ child ∈ tree.children id, tree.Numbers bound child :=
      fun child hchild => ih (.child h hchild) (by omega)
    obtain ⟨entries, hentries, hfold⟩ := numbered_foldl hchildren ([], next)
    rw [spansFrom, hfold]
    refine ⟨hentries.cons (hl.subtree_eq h) rfl, ?_⟩
    rw [hl.subtree_eq h, List.length_cons]
    omega

end Linked

/-! ## The table of spans -/

/-- What a table holds after all entries were set, none of them twice. -/
theorem join_foldl_setIfInBounds {entries : List (ElementId × Span)}
    {table : Array (Option Span)} (hnodup : (entries.map (·.1)).Nodup)
    (hlt : ∀ entry ∈ entries, entry.1.place < table.size) {id : ElementId} {span : Span} :
    ((entries.foldl (fun acc entry => acc.setIfInBounds entry.1.place (some entry.2))
        table)[id.place]?).join = some span ↔
      (id, span) ∈ entries ∨ (id ∉ entries.map (·.1) ∧ (table[id.place]?).join = some span) := by
  induction entries generalizing table with
  | nil => simp
  | cons entry entries ih =>
    obtain ⟨key, value⟩ := entry
    obtain ⟨hnot, hnodup⟩ := List.nodup_cons.mp hnodup
    obtain ⟨hkey, hlt⟩ := List.forall_mem_cons.mp hlt
    rw [List.foldl_cons, ih hnodup (by simpa using hlt), Array.getElem?_setIfInBounds]
    by_cases hid : id = key
    · -- No later entry is for this element.
      subst hid
      have hlater : (id, span) ∉ entries := fun hmem => hnot (List.mem_map.mpr ⟨_, hmem, rfl⟩)
      rw [if_pos rfl, if_pos hkey]
      simp [hnot, hlater, eq_comm]
    · have hplace : key.place ≠ id.place := fun heq => hid (congrArg ElementId.mk heq).symm
      rw [if_neg hplace]
      simp [hid]

end Tree

/-! ## Spans of a unit -/

/-- The places of a piece of a list without repetitions are those of its elements. -/
theorem idxOf_piece {α : Type} [DecidableEq α] {list before piece after : List α}
    (hsplit : list = before ++ piece ++ after) (hnodup : list.Nodup) {x : α} (hx : x ∈ list) :
    before.length ≤ list.idxOf x ∧ list.idxOf x < before.length + piece.length ↔ x ∈ piece := by
  subst hsplit
  rw [List.append_assoc] at hnodup hx ⊢
  have hapart := List.disjoint_of_nodup_append hnodup
  rw [List.idxOf_append]
  by_cases hbefore : x ∈ before
  · have hlt := List.idxOf_lt_length_of_mem hbefore
    have hnot : x ∉ piece := fun hpiece => hapart hbefore (List.mem_append_left _ hpiece)
    rw [if_pos hbefore]
    simp only [hnot, iff_false]
    omega
  · rw [if_neg hbefore, List.idxOf_append]
    by_cases hpiece : x ∈ piece
    · have hlt := List.idxOf_lt_length_of_mem hpiece
      rw [if_pos hpiece]
      simp only [hpiece, iff_true]
      omega
    · rw [if_neg hpiece]
      simp only [hpiece, iff_false]
      omega

namespace CompilationUnit

section Spans

variable {u : CompilationUnit} (h : u.Accepted)
include h

theorem Accepted.attached_eq : u.attached = u.tree.subtree u.tree.root :=
  h.linked.preorder_eq .self

theorem Accepted.nodup_attached : u.attached.Nodup := by
  rw [h.attached_eq]
  exact h.linked.nodup_subtree .self

/-- The spans of a unit are the entries that numbering gives. -/
theorem Accepted.span?_eq_some_iff {id : ElementId} {span : Span} :
    u.span? id = some span ↔ (id, span) ∈ (u.tree.spansFrom u.tree.size u.tree.root 0).1 := by
  have hspans : u.spans = u.tree.spans := by
    obtain ⟨tree, htree⟩ := h
    exact (ofTree_eq_ok_iff.mp htree).2.2.2.1
  obtain ⟨hnumbered, -⟩ := h.linked.numbers .self (Nat.le_add_left _ 0) 0
  rw [span?, hspans, Tree.spans, Tree.join_foldl_setIfInBounds]
  · -- The table is empty at first.
    have hempty :
        ((Array.replicate u.tree.size (none : Option Span))[id.place]?).join ≠ some span := by
      rw [Array.getElem?_replicate]
      split <;> simp
    simp [hempty]
  · rw [hnumbered.ids]
    exact h.linked.nodup_subtree .self
  · intro entry hentry
    have hmem : entry.1 ∈ u.attached := by
      rw [h.attached_eq, ← hnumbered.ids]
      exact List.mem_map_of_mem hentry
    rw [Array.size_replicate]
    exact h.attached_lt hmem

theorem Accepted.span?_eq_none_iff {id : ElementId} : u.span? id = none ↔ id ∉ u.attached := by
  obtain ⟨hnumbered, -⟩ := h.linked.numbers .self (Nat.le_add_left _ 0) 0
  rw [h.attached_eq, ← hnumbered.ids, List.mem_map, Option.eq_none_iff_forall_ne_some, not_exists]
  constructor
  · rintro hnone entry ⟨hentry, rfl⟩
    exact hnone entry.2 (h.span?_eq_some_iff.mpr hentry)
  · intro hnot span hspan
    exact hnot (id, span) ⟨h.span?_eq_some_iff.mp hspan, rfl⟩

/-- The span of an element begins with its own place among the attached elements, and the
    places within it are those of the elements of its subtree. -/
theorem Accepted.exists_span {id : ElementId} (hid : id ∈ u.attached) :
    ∃ span, u.span? id = some span ∧ span.first = u.attached.idxOf id ∧
      ∀ other ∈ u.attached,
        (span.first ≤ u.attached.idxOf other ∧ u.attached.idxOf other ≤ span.last ↔
          other ∈ u.tree.subtree id) := by
  have hsome : u.span? id ≠ none := mt h.span?_eq_none_iff.mp (not_not_intro hid)
  obtain ⟨span, hspan⟩ := Option.ne_none_iff_exists'.mp hsome
  obtain ⟨hnumbered, -⟩ := h.linked.numbers .self (Nat.le_add_left _ 0) 0
  obtain ⟨before, after, hsplit, hfirst, hlast⟩ :=
    hnumbered.span _ (h.span?_eq_some_iff.mp hspan)
  rw [← h.attached_eq] at hsplit
  simp only [Nat.zero_add] at hfirst hlast hsplit
  have hplace : u.attached.idxOf id = before.length := by
    obtain ⟨depth, hbelow⟩ := h.mem_attached_iff.mp hid
    have hnodup := h.nodup_attached
    rw [hsplit, h.linked.subtree_eq hbelow, List.append_assoc] at hnodup ⊢
    have hnot : id ∉ before := fun hbefore =>
      List.disjoint_of_nodup_append hnodup hbefore List.mem_cons_self
    rw [List.idxOf_append_of_notMem hnot, List.cons_append, List.idxOf_cons_self, Nat.add_zero]
  refine ⟨span, hspan, hfirst.trans hplace.symm, fun other hother => ?_⟩
  rw [← idxOf_piece hsplit h.nodup_attached hother]
  omega

theorem Accepted.position?_eq_some_iff {id : ElementId} {place : Nat} :
    u.position? id = some place ↔ u.attached[place]? = some id := by
  by_cases hid : id ∈ u.attached
  · obtain ⟨span, hspan, hfirst, -⟩ := h.exists_span hid
    rw [position?, hspan, Option.map_some, Option.some.injEq, hfirst]
    constructor
    · rintro rfl
      exact List.getElem?_idxOf hid
    · intro hplace
      obtain ⟨hlt, rfl⟩ := List.getElem?_eq_some_iff.mp hplace
      exact h.nodup_attached.idxOf_getElem place hlt
  · rw [position?, h.span?_eq_none_iff.mpr hid]
    simp only [Option.map_none, reduceCtorEq, false_iff]
    exact fun hplace => hid (List.mem_of_getElem? hplace)

/-- What contains an element is the element or an ancestor of it. -/
theorem Accepted.mem_subtree_iff {a b : ElementId} (ha : a ∈ u.attached) :
    b ∈ u.tree.subtree a ↔ a = b ∨ a ∈ u.tree.ancestors b := by
  obtain ⟨depth, hbelow⟩ := h.mem_attached_iff.mp ha
  rw [h.linked.mem_subtree_iff hbelow]
  constructor
  · rintro ⟨level, hlevel⟩
    cases level with
    | zero => cases hlevel; exact Or.inl rfl
    | succ level => exact Or.inr (h.mem_ancestors_of_below ha hlevel)
  · rintro (rfl | hmem)
    · exact ⟨0, .self⟩
    · obtain ⟨level, hlevel⟩ := h.linked.below_ancestor hmem
      exact ⟨level + 1, hlevel⟩

/-- An ancestor comes before what stands below it. -/
theorem Accepted.idxOf_lt_of_mem_ancestors {a b : ElementId} (hb : b ∈ u.attached)
    (hmem : a ∈ u.tree.ancestors b) : u.attached.idxOf a < u.attached.idxOf b := by
  have ha := h.attached_of_mem_ancestors hb hmem
  obtain ⟨span, -, hfirst, hinside⟩ := h.exists_span ha
  obtain ⟨hle, -⟩ := (hinside b hb).mpr ((h.mem_subtree_iff ha).mpr (Or.inr hmem))
  have hne : u.attached.idxOf a ≠ u.attached.idxOf b := by
    intro heq
    obtain rfl := (List.idxOf_inj ha).mp heq
    obtain ⟨depth, hbelow⟩ := h.mem_attached_iff.mp ha
    obtain ⟨level, hlevel⟩ := h.linked.below_ancestor hmem
    have hdepth := h.linked.depth_unique hbelow (hbelow.trans hlevel)
    omega
  omega

theorem Accepted.contains_iff {a b : ElementId} (ha : a ∈ u.attached) (hb : b ∈ u.attached) :
    u.contains a b = true ↔ b ∈ u.tree.subtree a := by
  obtain ⟨span, hspan, -, hinside⟩ := h.exists_span ha
  obtain ⟨other, hother, hfirst, -⟩ := h.exists_span hb
  rw [contains, hspan, hother, ← hinside b hb, ← hfirst]
  simp

theorem Accepted.isBefore_iff {a b : ElementId} (ha : a ∈ u.attached) (hb : b ∈ u.attached) :
    u.isBefore a b = true ↔
      u.attached.idxOf a < u.attached.idxOf b ∧ b ∉ u.tree.subtree a := by
  obtain ⟨span, hspan, hfirst, hinside⟩ := h.exists_span ha
  obtain ⟨other, hother, hfirst', -⟩ := h.exists_span hb
  obtain ⟨-, hlast⟩ := (hinside a ha).mpr ((h.mem_subtree_iff ha).mpr (Or.inl rfl))
  rw [isBefore, hspan, hother, ← hinside b hb]
  simp only [decide_eq_true_eq]
  omega

end Spans

/-! ## How two elements stand to each other -/

/-- The ways in which two attached elements can stand to each other. -/
inductive Placement where
  | same
  | around
  | inside
  | before
  | after

/-- The two elements stand to each other in this way. -/
def Placement.Holds (u : CompilationUnit) (a b : ElementId) : Placement → Prop
  | .same => a = b
  | .around => a ∈ u.tree.ancestors b
  | .inside => b ∈ u.tree.ancestors a
  | .before => u.isBefore a b = true
  | .after => u.isBefore b a = true

section Placements

variable {u : CompilationUnit} (h : u.Accepted) {a b : ElementId}
include h

theorem Accepted.isBefore_iff_ancestors (ha : a ∈ u.attached) (hb : b ∈ u.attached) :
    u.isBefore a b = true ↔
      u.attached.idxOf a < u.attached.idxOf b ∧ a ∉ u.tree.ancestors b := by
  rw [h.isBefore_iff ha hb, h.mem_subtree_iff ha]
  constructor
  · rintro ⟨hlt, hnot⟩
    exact ⟨hlt, fun hmem => hnot (Or.inr hmem)⟩
  · rintro ⟨hlt, hnot⟩
    refine ⟨hlt, ?_⟩
    rintro (rfl | hmem)
    · exact Nat.lt_irrefl _ hlt
    · exact hnot hmem

/-- Places and ancestors tell in which way two elements stand to each other. -/
theorem Accepted.holds_iff (ha : a ∈ u.attached) (hb : b ∈ u.attached) (placement : Placement) :
    placement.Holds u a b ↔
      match placement with
      | .same => u.attached.idxOf a = u.attached.idxOf b
      | .around => u.attached.idxOf a < u.attached.idxOf b ∧ a ∈ u.tree.ancestors b
      | .inside => u.attached.idxOf b < u.attached.idxOf a ∧ b ∈ u.tree.ancestors a
      | .before => u.attached.idxOf a < u.attached.idxOf b ∧ a ∉ u.tree.ancestors b
      | .after => u.attached.idxOf b < u.attached.idxOf a ∧ b ∉ u.tree.ancestors a := by
  cases placement with
  | same => exact (List.idxOf_inj ha).symm
  | around => exact ⟨fun hmem => ⟨h.idxOf_lt_of_mem_ancestors hb hmem, hmem⟩, And.right⟩
  | inside => exact ⟨fun hmem => ⟨h.idxOf_lt_of_mem_ancestors ha hmem, hmem⟩, And.right⟩
  | before => exact h.isBefore_iff_ancestors ha hb
  | after => exact h.isBefore_iff_ancestors hb ha

/-- Two attached elements stand to each other in exactly one way. -/
theorem Accepted.existsUnique_placement (ha : a ∈ u.attached) (hb : b ∈ u.attached) :
    ∃! placement : Placement, placement.Holds u a b := by
  simp only [h.holds_iff ha hb]
  rcases Nat.lt_trichotomy (u.attached.idxOf a) (u.attached.idxOf b) with hlt | heq | hgt
  · by_cases hmem : a ∈ u.tree.ancestors b
    · exact ⟨.around, ⟨hlt, hmem⟩, fun placement hholds => by cases placement <;> grind⟩
    · exact ⟨.before, ⟨hlt, hmem⟩, fun placement hholds => by cases placement <;> grind⟩
  · exact ⟨.same, heq, fun placement hholds => by cases placement <;> grind⟩
  · by_cases hmem : b ∈ u.tree.ancestors a
    · exact ⟨.inside, ⟨hgt, hmem⟩, fun placement hholds => by cases placement <;> grind⟩
    · exact ⟨.after, ⟨hgt, hmem⟩, fun placement hholds => by cases placement <;> grind⟩

/-- The attached elements are those that can be reached from the root. -/
theorem Accepted.mem_attached_iff_reachable {id : ElementId} :
    id ∈ u.attached ↔ Relation.ReflTransGen (fun parent child => child ∈ u.tree.children parent)
      u.tree.root id := by
  rw [h.mem_attached_iff]
  constructor
  · rintro ⟨depth, hbelow⟩
    induction hbelow with
    | self => exact .refl
    | child _ hmem ih => exact ih.tail hmem
  · intro hreach
    induction hreach with
    | refl => exact ⟨0, .self⟩
    | tail _ hmem ih =>
      obtain ⟨depth, hbelow⟩ := ih
      exact ⟨depth + 1, .child hbelow hmem⟩

end Placements

/-- Numbers agree with the tree. The position of an element is its place among all that can
    be reached from the root, each of which stands there once. Containing and coming before
    are what ancestors and places say, two elements stand to each other in one way only, and
    nothing is said about detached elements. -/
theorem source_order_agrees_with_tree (u : CompilationUnit) (h : u.Accepted) :
    (∀ id, (u.position? id).isSome = true ↔
        Relation.ReflTransGen (fun parent child => child ∈ u.tree.children parent) u.tree.root id) ∧
      (∀ id place, u.position? id = some place ↔
        (u.tree.preorder u.tree.root)[place]? = some id) ∧
      (u.tree.preorder u.tree.root).Nodup ∧
      (∀ a b, (u.position? a).isSome = true → (u.position? b).isSome = true →
        (u.contains a b = true ↔ a = b ∨ a ∈ u.tree.ancestors b) ∧
        (u.isBefore a b = true ↔
          (u.tree.preorder u.tree.root).idxOf a < (u.tree.preorder u.tree.root).idxOf b ∧
            a ∉ u.tree.ancestors b) ∧
        ∃! placement : Placement, placement.Holds u a b) ∧
      ∀ a b, u.position? a = none ∨ u.position? b = none →
        u.contains a b = false ∧ u.isBefore a b = false := by
  have hsome : ∀ id, (u.position? id).isSome = true ↔ id ∈ u.attached := by
    intro id
    rw [position?, Option.isSome_map, ← Option.ne_none_iff_isSome, ne_eq,
      h.span?_eq_none_iff, not_not]
  refine ⟨fun id => (hsome id).trans h.mem_attached_iff_reachable,
    fun id place => h.position?_eq_some_iff, h.nodup_attached, fun a b ha hb => ?_,
    fun a b hnone => ?_⟩
  · rw [hsome] at ha hb
    exact ⟨(h.contains_iff ha hb).trans (h.mem_subtree_iff ha), h.isBefore_iff_ancestors ha hb,
      h.existsUnique_placement ha hb⟩
  · simp only [position?, Option.map_eq_none_iff] at hnone
    rcases hnone with hnone | hnone
    · rw [contains, isBefore, hnone]
      exact ⟨rfl, rfl⟩
    · rw [contains, isBefore, hnone]
      cases u.span? a with
      | none => exact ⟨rfl, rfl⟩
      | some span => exact ⟨rfl, rfl⟩

/-- The literal of `wrap` stands inside the class, behind the parameter of `id`. -/
theorem source_order_agrees_with_tree_relayUnit :
    relayUnit.Accepted ∧ relayUnit.position? ⟨11⟩ = some 11 ∧
      ⟨1⟩ ∈ relayUnit.tree.ancestors ⟨11⟩ ∧ relayUnit.contains ⟨1⟩ ⟨11⟩ = true ∧
      ⟨3⟩ ∉ relayUnit.tree.ancestors ⟨11⟩ ∧ relayUnit.isBefore ⟨3⟩ ⟨11⟩ = true := by
  obtain ⟨-, hposition, -, hrelations, -⟩ :=
    source_order_agrees_with_tree relayUnit relayUnit_accepted
  have hclass : ⟨1⟩ ∈ relayUnit.tree.ancestors ⟨11⟩ := by decide +kernel
  have hparameter : ⟨3⟩ ∉ relayUnit.tree.ancestors ⟨11⟩ := by decide +kernel
  refine ⟨relayUnit_accepted, (hposition _ _).mpr (by decide +kernel), hclass, ?_, hparameter, ?_⟩
  · obtain ⟨hcontains, -⟩ := hrelations ⟨1⟩ ⟨11⟩ (by decide +kernel) (by decide +kernel)
    exact hcontains.mpr (Or.inr hclass)
  · obtain ⟨-, hbefore, -⟩ := hrelations ⟨3⟩ ⟨11⟩ (by decide +kernel) (by decide +kernel)
    exact hbefore.mpr ⟨by decide +kernel, hparameter⟩

end CompilationUnit
end ValueFlow
