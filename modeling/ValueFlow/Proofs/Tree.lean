/-
  ValueFlow.Proofs.Tree

  What linking a tree guarantees, and how deep its attached part is.

  In a linked tree parents and children agree, so that an element below the root is
  below it at one depth only. The elements on the way down to it are then all
  different, which bounds the depth by the number of elements: walks that are bounded by
  that number see everything. No element stands twice in the subtree of another one, hence
  the walk with a stack has enough steps to work off all subtrees.
-/

import ValueFlow.CompilationUnit
import ValueFlow.Proofs.Except
import Mathlib.Data.List.Nodup
import Mathlib.Data.List.Perm.Subperm

namespace ValueFlow

namespace Tree

/-! ## Links -/

/-- Parents and children agree, no child is listed twice, all children exist, and so does
    the root, which has no parent. -/
structure Linked (tree : Tree) : Prop where
  parent_iff : ∀ child parent, tree.parent? child = some parent ↔ child ∈ tree.children parent
  child_lt : ∀ parent child, child ∈ tree.children parent → child.place < tree.size
  nodup : ∀ parent, (tree.children parent).Nodup
  root_lt : tree.root.place < tree.size
  root_free : tree.parent? tree.root = none

/-- Attaching a child that is free sets its parent and nothing else. -/
theorem attach_eq_ok {parents after : Array (Option ElementId)} {link : ElementId × ElementId}
    (h : attach parents link = .ok after) :
    after.size = parents.size ∧ parents[link.2.place]? = some none ∧
    ∀ child : ElementId, after[child.place]? =
      if child = link.2 then some (some link.1) else parents[child.place]? := by
  rw [attach] at h
  split at h
  · cases h
  · cases h
  · next hfree =>
    cases h
    have hlt : link.2.place < parents.size := (Array.getElem?_eq_some_iff.mp hfree).1
    refine ⟨Array.size_setIfInBounds, hfree, ?_⟩
    intro child
    have hplace : link.2.place = child.place ↔ child = link.2 :=
      ⟨fun heq => (congrArg ElementId.mk heq).symm, fun heq => by rw [heq]⟩
    rw [Array.getElem?_setIfInBounds]
    by_cases hchild : child = link.2
    · rw [if_pos (hplace.mpr hchild), if_pos hlt, if_pos hchild]
    · rw [if_neg (mt hplace.mp hchild), if_neg hchild]

/-- After attaching all links, which name no child twice, a child has the parent of its
    link. -/
theorem foldlM_attach_eq_ok {links : List (ElementId × ElementId)}
    {parents after : Array (Option ElementId)} (h : links.foldlM attach parents = .ok after) :
    after.size = parents.size ∧ (links.map (·.2)).Nodup ∧
    (∀ link ∈ links, parents[link.2.place]? = some none) ∧
    ∀ child parent : ElementId, after[child.place]? = some (some parent) ↔
      parents[child.place]? = some (some parent) ∨ (parent, child) ∈ links := by
  induction links generalizing parents with
  | nil =>
    cases h
    simp
  | cons link links ih =>
    rw [List.foldlM_cons] at h
    obtain ⟨middle, hattach, h⟩ := bind_eq_ok_iff.mp h
    obtain ⟨hsize, hfree, hview⟩ := attach_eq_ok hattach
    obtain ⟨hsize', hnodup, hfree', hview'⟩ := ih h
    -- A later link to the same child would not find it free.
    have hother : ∀ other ∈ links, other.2 ≠ link.2 := by
      intro other hmem heq
      have hset := hfree' other hmem
      rw [hview, if_pos heq] at hset
      cases hset
    refine ⟨hsize'.trans hsize, ?_, ?_, ?_⟩
    · rw [List.map_cons, List.nodup_cons]
      refine ⟨fun hmem => ?_, hnodup⟩
      obtain ⟨other, hmem, heq⟩ := List.mem_map.mp hmem
      exact hother other hmem heq
    · intro other hmem
      rcases List.mem_cons.mp hmem with rfl | hmem
      · exact hfree
      · have hset := hfree' other hmem
        rwa [hview, if_neg (hother other hmem)] at hset
    · intro child parent
      rw [hview', hview, List.mem_cons]
      by_cases hchild : child = link.2
      · rw [if_pos hchild, hchild, hfree]
        simp [Prod.ext_iff, eq_comm]
      · simp [hchild, Prod.ext_iff]

/-- Only an element that exists has children. -/
theorem lt_size_of_mem_children {tree : Tree} {parent child : ElementId}
    (h : child ∈ tree.children parent) : parent.place < tree.size := by
  cases hel : tree.elements[parent.place]? with
  | none => simp [children, kind?, element?, hel] at h
  | some element => exact (Array.getElem?_eq_some_iff.mp hel).1

theorem mem_childLinks_iff {tree : Tree} {parent child : ElementId} :
    (parent, child) ∈ tree.childLinks ↔ child ∈ tree.children parent := by
  rw [childLinks, List.mem_flatMap]
  constructor
  · rintro ⟨p, -, hp⟩
    obtain ⟨c, hc, heq⟩ := List.mem_map.mp hp
    obtain ⟨rfl, rfl⟩ := Prod.mk.inj heq
    exact hc
  · intro h
    refine ⟨parent, ?_, List.mem_map_of_mem h⟩
    rw [ids, List.mem_map]
    exact ⟨parent.place, List.mem_range.mpr (lt_size_of_mem_children h), rfl⟩

theorem nodup_children_of_childLinks {tree : Tree} (h : (tree.childLinks.map (·.2)).Nodup)
    (parent : ElementId) : (tree.children parent).Nodup := by
  by_cases hnone : tree.children parent = []
  · rw [hnone]
    exact List.nodup_nil
  · obtain ⟨child, hchild⟩ := List.exists_mem_of_ne_nil _ hnone
    have hlink := mem_childLinks_iff.mpr hchild
    rw [childLinks, List.mem_flatMap] at hlink
    obtain ⟨other, hother, hmem⟩ := hlink
    obtain rfl : other = parent := by
      obtain ⟨_, -, heq⟩ := List.mem_map.mp hmem
      exact (Prod.mk.inj heq).1
    rw [childLinks, List.map_flatMap, List.nodup_flatMap] at h
    have hlisted := h.1 other hother
    rw [List.map_map] at hlisted
    exact (List.map_id (tree.children other)) ▸ hlisted

section WithParents

variable {tree : Tree} {parents : Array (Option ElementId)} (hsize : parents.size = tree.size)
include hsize

theorem size_withParents : (tree.withParents parents).size = tree.size := by
  simp only [withParents, size, Array.size_zipWith]
  rw [hsize, size, Nat.min_self]

theorem kind?_withParents (id : ElementId) :
    (tree.withParents parents).kind? id = tree.kind? id := by
  simp only [withParents, kind?, element?, Array.getElem?_zipWith]
  cases hel : tree.elements[id.place]? with
  | none => rfl
  | some element =>
    have hbound : id.place < parents.size := by
      rw [hsize]
      exact (Array.getElem?_eq_some_iff.mp hel).1
    rw [Array.getElem?_eq_getElem hbound]
    rfl

theorem children_withParents (id : ElementId) :
    (tree.withParents parents).children id = tree.children id := by
  rw [children, kind?_withParents hsize, children]

theorem parent?_withParents (id : ElementId) :
    (tree.withParents parents).parent? id = (parents[id.place]?).join := by
  simp only [withParents, parent?, element?, Array.getElem?_zipWith]
  cases hpar : parents[id.place]? with
  | none => cases tree.elements[id.place]? <;> rfl
  | some parent =>
    have hbound : id.place < tree.elements.size := by
      have hlt := (Array.getElem?_eq_some_iff.mp hpar).1
      rwa [hsize] at hlt
    rw [Array.getElem?_eq_getElem hbound]
    rfl

end WithParents

/-- When linking succeeds, and what it gives. -/
theorem link_eq_ok_iff {tree linked : Tree} :
    tree.link = .ok linked ↔ ∃ parents, tree.parents? = .ok parents ∧
      parents[tree.root.place]? = some none ∧ tree.withParents parents = linked := by
  rw [link, bind_eq_ok_iff]
  refine exists_congr fun parents => and_congr_right fun _ => ?_
  cases hroot : parents[tree.root.place]? with
  | none => simp
  | some parent =>
    cases parent with
    | none => simp [withParents]
    | some parent => simp

theorem size_of_parents? {tree : Tree} {parents : Array (Option ElementId)}
    (h : tree.parents? = .ok parents) : parents.size = tree.size := by
  rw [(foldlM_attach_eq_ok h).1, Array.size_replicate]

/-- Linking gives every child its parent. -/
theorem linked_of_link {tree linked : Tree} (h : tree.link = .ok linked) : linked.Linked := by
  obtain ⟨parents, hparents, hroot, rfl⟩ := link_eq_ok_iff.mp h
  have hsize := size_of_parents? hparents
  obtain ⟨-, hnodup, hfree, hview⟩ := foldlM_attach_eq_ok hparents
  refine ⟨?_, ?_, ?_, ?_, ?_⟩
  · intro child parent
    rw [parent?_withParents hsize, children_withParents hsize, ← mem_childLinks_iff,
      Option.join_eq_some_iff, hview]
    refine ⟨?_, Or.inr⟩
    rintro (hnone | hlink)
    · rw [Array.getElem?_replicate] at hnone
      split at hnone <;> cases hnone
    · exact hlink
  · intro parent child hchild
    rw [children_withParents hsize] at hchild
    have hplace := hfree (parent, child) (mem_childLinks_iff.mpr hchild)
    have hlt := (Array.getElem?_eq_some_iff.mp hplace).1
    rw [Array.size_replicate] at hlt
    rwa [size_withParents hsize]
  · intro parent
    rw [children_withParents hsize]
    exact nodup_children_of_childLinks hnodup parent
  · rw [size_withParents hsize, ← hsize]
    exact (Array.getElem?_eq_some_iff.mp hroot).1
  · rw [parent?_withParents hsize]
    show (parents[tree.root.place]?).join = none
    rw [hroot]
    rfl

/-! ## Depth -/

/-- `id` stands below `top`, this many levels deep. -/
inductive Below (tree : Tree) (top : ElementId) : Nat → ElementId → Prop where
  | self : Below tree top 0 top
  | child {depth : Nat} {parent id : ElementId} :
      Below tree top depth parent → id ∈ tree.children parent → Below tree top (depth + 1) id

theorem Below.trans {tree : Tree} {a b c : ElementId} {m n : Nat} (hab : tree.Below a m b)
    (hbc : tree.Below b n c) : tree.Below a (m + n) c := by
  induction hbc with
  | self => exact hab
  | child _ hmem ih => exact .child ih hmem

theorem Below.head {tree : Tree} {top next id : ElementId} {depth : Nat}
    (hnext : next ∈ tree.children top) (h : tree.Below next depth id) :
    tree.Below top (depth + 1) id := by
  rw [Nat.add_comm]
  exact (Below.child .self hnext).trans h

/-- The first step down to an element. -/
theorem Below.cases_head {tree : Tree} {top id : ElementId} {depth : Nat}
    (h : tree.Below top (depth + 1) id) :
    ∃ next ∈ tree.children top, tree.Below next depth id := by
  induction depth generalizing id with
  | zero =>
    cases h with
    | child hparent hmem =>
      cases hparent
      exact ⟨id, hmem, .self⟩
  | succ depth ih =>
    cases h with
    | child hparent hmem =>
      obtain ⟨next, hnext, hbelow⟩ := ih hparent
      exact ⟨next, hnext, .child hbelow hmem⟩

section Linked

variable {tree : Tree} (hl : tree.Linked)
include hl

theorem Linked.parent_unique {child a b : ElementId} (ha : child ∈ tree.children a)
    (hb : child ∈ tree.children b) : a = b := by
  have hpa := (hl.parent_iff child a).mpr ha
  rw [(hl.parent_iff child b).mpr hb] at hpa
  exact (Option.some.inj hpa).symm

theorem Linked.root_not_child (parent : ElementId) : tree.root ∉ tree.children parent := by
  intro hmem
  have hparent := (hl.parent_iff _ _).mpr hmem
  rw [hl.root_free] at hparent
  cases hparent

/-- An element has one depth below the root. -/
theorem Linked.depth_unique {id : ElementId} {m n : Nat} (hm : tree.Below tree.root m id)
    (hn : tree.Below tree.root n id) : m = n := by
  induction hm generalizing n with
  | self =>
    cases hn with
    | self => rfl
    | child _ hmem => exact absurd hmem (hl.root_not_child _)
  | child _ hmem ih =>
    cases hn with
    | self => exact absurd hmem (hl.root_not_child _)
    | child hparent hmem' =>
      rw [hl.parent_unique hmem' hmem] at hparent
      rw [ih hparent]

theorem Linked.lt_size {id : ElementId} {depth : Nat} (h : tree.Below tree.root depth id) :
    id.place < tree.size := by
  cases h with
  | self => exact hl.root_lt
  | child _ hmem => exact hl.child_lt _ _ hmem

theorem Linked.exists_kind {id : ElementId} {depth : Nat} (h : tree.Below tree.root depth id) :
    ∃ kind, tree.kind? id = some kind := by
  have hlt : id.place < tree.elements.size := hl.lt_size h
  rw [kind?, element?, Array.getElem?_eq_getElem hlt]
  exact ⟨_, rfl⟩

/-- The elements on the way from the root down to an element, all different. -/
theorem Linked.exists_way {id : ElementId} {depth : Nat} (h : tree.Below tree.root depth id) :
    ∃ way : List ElementId, way.length = depth + 1 ∧ way.Nodup ∧
      ∀ step ∈ way, ∃ level ≤ depth, tree.Below tree.root level step := by
  induction h with
  | self => exact ⟨[tree.root], rfl, by simp, by simpa using .self⟩
  | @child depth parent id hparent hmem ih =>
    obtain ⟨way, hlen, hnodup, hall⟩ := ih
    have hid : tree.Below tree.root (depth + 1) id := .child hparent hmem
    refine ⟨id :: way, by simp [hlen], List.nodup_cons.mpr ⟨?_, hnodup⟩, ?_⟩
    · intro hin
      obtain ⟨level, hle, hlevel⟩ := hall id hin
      have heq := hl.depth_unique hid hlevel
      omega
    · intro step hstep
      rcases List.mem_cons.mp hstep with rfl | hstep
      · exact ⟨depth + 1, Nat.le_refl _, hid⟩
      · obtain ⟨level, hle, hlevel⟩ := hall step hstep
        exact ⟨level, by omega, hlevel⟩

/-- No element is deeper below the root than there are elements. -/
theorem Linked.depth_lt {id : ElementId} {depth : Nat} (h : tree.Below tree.root depth id) :
    depth < tree.size := by
  obtain ⟨way, hlen, hnodup, hall⟩ := hl.exists_way h
  have hsub : way ⊆ tree.ids := by
    intro step hstep
    obtain ⟨level, -, hlevel⟩ := hall step hstep
    rw [ids, List.mem_map]
    exact ⟨step.place, List.mem_range.mpr (hl.lt_size hlevel), rfl⟩
  have hle := (List.subperm_of_subset hnodup hsub).length_le
  rw [hlen, ids, List.length_map, List.length_range] at hle
  omega

end Linked

/-! ## Subtrees -/

/-- An element and all below it in source order, down to `bound` levels: the element,
    then what each of its children gives. -/
def subtreeUpTo (tree : Tree) : Nat → ElementId → List ElementId
  | 0, _ => []
  | bound + 1, id => id :: (tree.children id).flatMap (tree.subtreeUpTo bound)

/-- An element and all below it in source order, as `subtreeUpTo` gives them. -/
def subtree (tree : Tree) (id : ElementId) : List ElementId := tree.subtreeUpTo tree.size id

theorem mem_subtreeUpTo_iff {tree : Tree} {top id : ElementId} {bound : Nat} :
    id ∈ tree.subtreeUpTo bound top ↔ ∃ depth < bound, tree.Below top depth id := by
  induction bound generalizing top with
  | zero => simp [subtreeUpTo]
  | succ bound ih =>
    rw [subtreeUpTo, List.mem_cons, List.mem_flatMap]
    constructor
    · rintro (rfl | ⟨next, hnext, hmem⟩)
      · exact ⟨0, by omega, .self⟩
      · obtain ⟨depth, hlt, hbelow⟩ := ih.mp hmem
        exact ⟨depth + 1, by omega, .head hnext hbelow⟩
    · rintro ⟨depth, hlt, hbelow⟩
      cases depth with
      | zero => cases hbelow; exact Or.inl rfl
      | succ depth =>
        obtain ⟨next, hnext, hbelow⟩ := hbelow.cases_head
        exact Or.inr ⟨next, hnext, ih.mpr ⟨depth, by omega, hbelow⟩⟩

/-- Levels below the deepest element add nothing. -/
theorem subtreeUpTo_of_le {tree : Tree} {id : ElementId} {bound other : Nat}
    (hdeep : ∀ depth x, tree.Below id depth x → depth < bound) (hle : bound ≤ other) :
    tree.subtreeUpTo other id = tree.subtreeUpTo bound id := by
  induction bound generalizing id other with
  | zero => exact absurd (hdeep 0 id .self) (Nat.not_lt_zero 0)
  | succ bound ih =>
    cases other with
    | zero => omega
    | succ other =>
      rw [subtreeUpTo, subtreeUpTo]
      congr 1
      refine List.flatMap_congr fun child hchild => ih ?_ (by omega)
      intro depth x hbelow
      have hlt := hdeep (depth + 1) x (.head hchild hbelow)
      omega

section Linked

variable {tree : Tree} (hl : tree.Linked)
include hl

/-- What holds for an element if it holds for its children holds for all below the root. -/
theorem Linked.induction_below {P : ElementId → Prop}
    (step : ∀ id depth, tree.Below tree.root depth id →
      (∀ child ∈ tree.children id, P child) → P id)
    {id : ElementId} {depth : Nat} (h : tree.Below tree.root depth id) : P id := by
  -- The levels that are left below an element get fewer with each step down.
  generalize hleft : tree.size - depth = left
  induction left generalizing id depth with
  | zero =>
    have hlt := hl.depth_lt h
    omega
  | succ left ih => exact step id depth h fun child hchild => ih (.child h hchild) (by omega)

/-- A subtree is its topmost element, followed by the subtrees of the children. -/
theorem Linked.subtree_eq {id : ElementId} {depth : Nat} (h : tree.Below tree.root depth id) :
    tree.subtree id = id :: (tree.children id).flatMap tree.subtree := by
  have hlt := hl.depth_lt h
  obtain ⟨bound, hbound⟩ : ∃ bound, tree.size = bound + 1 := ⟨tree.size - 1, by omega⟩
  have hsubtree : tree.subtree = tree.subtreeUpTo (bound + 1) := by
    funext other
    rw [subtree, hbound]
  rw [hsubtree, subtreeUpTo]
  congr 1
  refine List.flatMap_congr fun child hchild => (subtreeUpTo_of_le ?_ (Nat.le_succ bound)).symm
  intro level x hbelow
  have hdepth := hl.depth_lt (h.trans (.head hchild hbelow))
  omega

theorem Linked.mem_subtree_iff {top id : ElementId} {depth : Nat}
    (h : tree.Below tree.root depth top) :
    id ∈ tree.subtree top ↔ ∃ level, tree.Below top level id := by
  rw [subtree, mem_subtreeUpTo_iff]
  refine exists_congr fun level => ⟨And.right, fun hbelow => ⟨?_, hbelow⟩⟩
  have hlt := hl.depth_lt (h.trans hbelow)
  omega

/-- There is one element so many levels above another one. -/
theorem Linked.top_unique {a b id : ElementId} {level : Nat} (ha : tree.Below a level id)
    (hb : tree.Below b level id) : a = b := by
  induction ha with
  | self =>
    cases hb
    rfl
  | child _ hmem ih =>
    cases hb with
    | child hparent hmem' =>
      rw [hl.parent_unique hmem' hmem] at hparent
      exact ih hparent

/-- No element stands twice in a subtree: neither below itself nor below two children. -/
theorem Linked.nodup_subtree {id : ElementId} {depth : Nat} (h : tree.Below tree.root depth id) :
    (tree.subtree id).Nodup := by
  refine hl.induction_below (P := fun id => (tree.subtree id).Nodup) (fun id depth h ih => ?_) h
  rw [hl.subtree_eq h, List.nodup_cons, List.nodup_flatMap]
  refine ⟨fun hmem => ?_, ih, ?_⟩
  · obtain ⟨child, hchild, hin⟩ := List.mem_flatMap.mp hmem
    obtain ⟨level, hbelow⟩ := (hl.mem_subtree_iff (.child h hchild)).mp hin
    have hdepth := hl.depth_unique h (h.trans (.head hchild hbelow))
    omega
  · refine (hl.nodup id).imp_of_mem ?_
    intro a b ha hb hne x hxa hxb
    obtain ⟨m, hm⟩ := (hl.mem_subtree_iff (.child h ha)).mp hxa
    obtain ⟨n, hn⟩ := (hl.mem_subtree_iff (.child h hb)).mp hxb
    have hdepth := hl.depth_unique (h.trans (.head ha hm)) (h.trans (.head hb hn))
    have hlevel : m = n := by omega
    subst hlevel
    exact hne (hl.top_unique hm hn)

theorem Linked.length_subtree_le {id : ElementId} {depth : Nat}
    (h : tree.Below tree.root depth id) : (tree.subtree id).length ≤ tree.size := by
  have hsub : tree.subtree id ⊆ tree.ids := by
    intro x hx
    obtain ⟨level, hbelow⟩ := (hl.mem_subtree_iff h).mp hx
    rw [ids, List.mem_map]
    exact ⟨x.place, List.mem_range.mpr (hl.lt_size (h.trans hbelow)), rfl⟩
  have hle := (List.subperm_of_subset (hl.nodup_subtree h) hsub).length_le
  rwa [ids, List.length_map, List.length_range] at hle

/-- A stack is worked off subtree by subtree. -/
theorem Linked.preorderFrom_eq {stack : List ElementId} {steps : Nat}
    (hstack : ∀ id ∈ stack, ∃ depth, tree.Below tree.root depth id)
    (hsteps : (stack.flatMap tree.subtree).length ≤ steps) :
    tree.preorderFrom steps stack = stack.flatMap tree.subtree := by
  induction steps generalizing stack with
  | zero => exact (List.length_eq_zero_iff.mp (Nat.le_zero.mp hsteps)).symm
  | succ steps ih =>
    cases stack with
    | nil => rfl
    | cons id stack =>
      obtain ⟨⟨depth, hid⟩, hstack⟩ := List.forall_mem_cons.mp hstack
      have hflat : (id :: stack).flatMap tree.subtree =
          id :: (tree.children id ++ stack).flatMap tree.subtree := by
        rw [List.flatMap_cons, hl.subtree_eq hid, List.flatMap_append, List.cons_append]
      rw [hflat] at hsteps ⊢
      rw [preorderFrom, ih ?_ (by simpa using hsteps)]
      intro other hother
      rcases List.mem_append.mp hother with hchild | hother
      · exact ⟨depth + 1, .child hid hchild⟩
      · exact hstack other hother

/-- The walk with a stack gives the subtree of an element below the root. -/
theorem Linked.preorder_eq {id : ElementId} {depth : Nat} (h : tree.Below tree.root depth id) :
    tree.preorder id = tree.subtree id := by
  have hflat : [id].flatMap tree.subtree = tree.subtree id := List.flatMap_singleton _ _
  rw [preorder, hl.preorderFrom_eq, hflat]
  · intro other hother
    rw [List.mem_singleton.mp hother]
    exact ⟨depth, h⟩
  · rw [hflat]
    exact hl.length_subtree_le h

end Linked

/-! ## Ancestors -/

section Linked

variable {tree : Tree} (hl : tree.Linked)
include hl

/-- An element is among the ancestors of all that stands below it. -/
theorem Linked.mem_ancestorsUpTo {top id : ElementId} {depth bound : Nat}
    (h : tree.Below top (depth + 1) id) (hbound : depth < bound) :
    top ∈ tree.ancestorsUpTo bound id := by
  induction depth generalizing id bound with
  | zero =>
    cases h with
    | child hparent hmem =>
      cases hparent
      cases bound with
      | zero => omega
      | succ bound =>
        rw [ancestorsUpTo, (hl.parent_iff _ _).mpr hmem]
        exact List.mem_cons_self
  | succ depth ih =>
    cases h with
    | child hparent hmem =>
      cases bound with
      | zero => omega
      | succ bound =>
        rw [ancestorsUpTo, (hl.parent_iff _ _).mpr hmem]
        exact List.mem_cons_of_mem _ (ih hparent (by omega))

/-- An element stands below its ancestors. -/
theorem Linked.below_ancestor {bound : Nat} {id ancestor : ElementId}
    (hmem : ancestor ∈ tree.ancestorsUpTo bound id) :
    ∃ depth, tree.Below ancestor (depth + 1) id := by
  induction bound generalizing id with
  | zero => cases hmem
  | succ bound ih =>
    rw [ancestorsUpTo] at hmem
    cases hparent : tree.parent? id with
    | none =>
      rw [hparent] at hmem
      cases hmem
    | some parent =>
      have hchild := (hl.parent_iff id parent).mp hparent
      rw [hparent] at hmem
      rcases List.mem_cons.mp hmem with rfl | hmem
      · exact ⟨0, .child .self hchild⟩
      · obtain ⟨depth, hbelow⟩ := ih hmem
        exact ⟨depth + 1, .child hbelow hchild⟩

/-- The ancestors of an element below the root stand below the root. -/
theorem Linked.below_of_mem_ancestorsUpTo {id ancestor : ElementId} {depth bound : Nat}
    (h : tree.Below tree.root depth id) (hmem : ancestor ∈ tree.ancestorsUpTo bound id) :
    ∃ level, tree.Below tree.root level ancestor := by
  induction bound generalizing id depth with
  | zero => cases hmem
  | succ bound ih =>
    rw [ancestorsUpTo] at hmem
    cases hparent : tree.parent? id with
    | none => rw [hparent] at hmem; cases hmem
    | some parent =>
      rw [hparent] at hmem
      obtain ⟨level, hlevel⟩ : ∃ level, tree.Below tree.root level parent := by
        have hchild := (hl.parent_iff _ _).mp hparent
        cases h with
        | self => exact absurd hchild (hl.root_not_child _)
        | child hbelow hmem' =>
          rw [hl.parent_unique hchild hmem']
          exact ⟨_, hbelow⟩
      rcases List.mem_cons.mp hmem with rfl | hmem
      · exact ⟨level, hlevel⟩
      · exact ih hlevel hmem

/-- The chain of parents ends at the root, however many parents are allowed. -/
theorem Linked.ancestorsUpTo_of_le {id : ElementId} {depth bound : Nat}
    (h : tree.Below tree.root depth id) (hle : depth ≤ bound) :
    tree.ancestorsUpTo bound id = tree.ancestorsUpTo depth id := by
  induction h generalizing bound with
  | self =>
    cases bound with
    | zero => rfl
    | succ bound => simp only [ancestorsUpTo, hl.root_free]
  | @child depth parent id _ hmem ih =>
    obtain ⟨bound, rfl⟩ : ∃ less, bound = less + 1 := ⟨bound - 1, by omega⟩
    rw [ancestorsUpTo, ancestorsUpTo, (hl.parent_iff id parent).mpr hmem]
    simp only [ih (Nat.le_of_succ_le_succ hle)]

theorem Linked.ancestors_child {parent child : ElementId} {depth : Nat}
    (h : tree.Below tree.root depth parent) (hchild : child ∈ tree.children parent) :
    tree.ancestors child = parent :: tree.ancestors parent := by
  have hdepth := hl.depth_lt (.child h hchild)
  calc tree.ancestors child
      = tree.ancestorsUpTo (depth + 1) child :=
        hl.ancestorsUpTo_of_le (.child h hchild) (by omega)
    _ = parent :: tree.ancestorsUpTo depth parent := by
        rw [ancestorsUpTo, (hl.parent_iff child parent).mpr hchild]
    _ = parent :: tree.ancestors parent := by
        rw [ancestors, hl.ancestorsUpTo_of_le h (show depth ≤ tree.size by omega)]

end Linked

end Tree

/-! ## Accepted units -/

namespace CompilationUnit

/-- The unit passed all checks of a tree. -/
def Accepted (u : CompilationUnit) : Prop := ∃ tree, ofTree tree = .ok u

/-- What a unit is made of that passed all checks. -/
theorem ofTree_eq_ok_iff {tree : Tree} {u : CompilationUnit} :
    ofTree tree = .ok u ↔ tree.link = .ok u.tree ∧
      (∃ kind, u.tree.expectKind u.tree.root "compilation unit" isUnitKind = .ok kind) ∧
      Tree.duplicateType? [] (u.tree.types.map (·.fqn)) = none ∧
      u.spans = u.tree.spans ∧
      Hierarchy.build u.tree.types u.tree.calledSignatures = .ok u.hierarchy := by
  simp only [ofTree, bind_eq_ok_iff]
  refine ⟨?_, ?_⟩
  · rintro ⟨linked, hlink, kind, hroot, hchecked⟩
    split at hchecked
    · cases hchecked
    · next htypes =>
      obtain ⟨hierarchy, hhierarchy, hchecked⟩ := bind_eq_ok_iff.mp hchecked
      cases hchecked
      exact ⟨hlink, ⟨kind, hroot⟩, htypes, rfl, hhierarchy⟩
  · rintro ⟨hlink, ⟨kind, hroot⟩, htypes, hspans, hhierarchy⟩
    refine ⟨u.tree, hlink, kind, hroot, ?_⟩
    rw [htypes, ← hspans]
    exact bind_eq_ok_iff.mpr ⟨u.hierarchy, hhierarchy, rfl⟩

theorem Accepted.linked {u : CompilationUnit} (h : u.Accepted) : u.tree.Linked := by
  obtain ⟨tree, htree⟩ := h
  exact Tree.linked_of_link (ofTree_eq_ok_iff.mp htree).1

/-- The attached elements are those below the root. -/
theorem Accepted.mem_attached_iff {u : CompilationUnit} (h : u.Accepted) {id : ElementId} :
    id ∈ u.attached ↔ ∃ depth, u.tree.Below u.tree.root depth id := by
  rw [attached, h.linked.preorder_eq .self, h.linked.mem_subtree_iff .self]

theorem Accepted.attached_lt {u : CompilationUnit} (h : u.Accepted) {id : ElementId}
    (hid : id ∈ u.attached) : id.place < u.size := by
  obtain ⟨depth, hbelow⟩ := h.mem_attached_iff.mp hid
  exact h.linked.lt_size hbelow

/-- A child is attached exactly if its parent is. -/
theorem Accepted.attached_child_iff {u : CompilationUnit} (h : u.Accepted)
    {parent child : ElementId} (hchild : child ∈ u.tree.children parent) :
    child ∈ u.attached ↔ parent ∈ u.attached := by
  rw [h.mem_attached_iff, h.mem_attached_iff]
  constructor
  · rintro ⟨depth, hbelow⟩
    cases hbelow with
    | self => exact absurd hchild (h.linked.root_not_child _)
    | child hparent hmem =>
      rw [h.linked.parent_unique hchild hmem]
      exact ⟨_, hparent⟩
  · rintro ⟨depth, hbelow⟩
    exact ⟨depth + 1, .child hbelow hchild⟩

/-- The ancestors of an attached element are attached. -/
theorem Accepted.attached_of_mem_ancestors {u : CompilationUnit} (h : u.Accepted)
    {id ancestor : ElementId} (hid : id ∈ u.attached) (hmem : ancestor ∈ u.tree.ancestors id) :
    ancestor ∈ u.attached := by
  obtain ⟨depth, hbelow⟩ := h.mem_attached_iff.mp hid
  exact h.mem_attached_iff.mpr (h.linked.below_of_mem_ancestorsUpTo hbelow hmem)

/-- An attached element is an ancestor of all that stands below it. -/
theorem Accepted.mem_ancestors_of_below {u : CompilationUnit} (h : u.Accepted)
    {top id : ElementId} {depth : Nat} (htop : top ∈ u.attached)
    (hbelow : u.tree.Below top (depth + 1) id) : top ∈ u.tree.ancestors id := by
  obtain ⟨level, hlevel⟩ := h.mem_attached_iff.mp htop
  have hlt := h.linked.depth_lt (hlevel.trans hbelow)
  exact h.linked.mem_ancestorsUpTo hbelow (by omega)

end CompilationUnit

/-! ## A small unit -/

/-- A class with three methods. The first one returns its parameter, the second one
    returns what the first one gives for a literal, and the third one calls the second
    one:
    `id(s) { return s; }`, `wrap() { return id("42"); }` and `test() { wrap(); }`. -/
def relayTree : Tree :=
  let method (name : String) (parameters : List TypeRef) : Signature :=
    ⟨.named "A", name, parameters, .string, ⟨0⟩⟩
  let kinds : List Kind := [
    .compilationUnit "" [⟨1⟩], .classDecl "A" [⟨2⟩, ⟨7⟩, ⟨12⟩],
    -- 2 to 6: `id`
    .method (method "id" [.string]) [⟨3⟩] (some ⟨4⟩), .parameter "s" .string,
    .block [⟨5⟩], .ret (some ⟨6⟩), .identifier "s" (some ⟨3⟩) .string,
    -- 7 to 11: `wrap`
    .method (method "wrap" []) [] (some ⟨8⟩), .block [⟨9⟩], .ret (some ⟨10⟩),
    .call none "id" (some (method "id" [.string])) [⟨11⟩], .literal (.string "42") .string,
    -- 12 to 15: `test`
    .method (method "test" []) [] (some ⟨13⟩), .block [⟨14⟩], .exprStmt ⟨15⟩,
    .call none "wrap" (some (method "wrap" [])) []]
  { root := ⟨0⟩, elements := (kinds.map fun kind => ⟨none, kind⟩).toArray, types := [] }

/-- The unit of that tree. -/
def relayUnit : CompilationUnit :=
  (CompilationUnit.ofTree relayTree).toOption.get (by decide +kernel)

theorem relayUnit_accepted : relayUnit.Accepted := ⟨relayTree, eq_ok_get _⟩

end ValueFlow
