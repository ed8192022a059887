/-
  ValueFlow.Proofs.ParentChains

  Where walks along parents and out of parentheses end.

  A walk that follows one link after the other ends within as many steps as there are
  elements, or it comes to an element that leads back to itself (`endsWithin_iff`). The
  attached elements of an accepted unit lead to the root, which has no parent, so that all
  walks from them end. Elements that hang on nothing are not checked for circles: a walk from
  one of them ends exactly if it comes to no element that stands inside itself, and some such
  walk never ends.

  The walks of a tree are bounded by the number of elements. `ListsAbove`, `FindsAbove` and
  `Unwraps` say what the walks give without a bound; wherever they end, the bounded walks give
  the same.
-/

import ValueFlow.Proofs.Tree
import Mathlib.Data.Fintype.Pigeonhole

namespace ValueFlow

/-! ## Following a link -/

section Follow

variable {next : ElementId → Option ElementId} {id other : ElementId} {size m n : Nat}

/-- Where following a link so many times leads; nowhere if a link is missing on the way. -/
def follow (next : ElementId → Option ElementId) : Nat → ElementId → Option ElementId
  | 0, id => some id
  | steps + 1, id => (next id).bind (follow next steps)

/-- Following a link comes to an end after at most so many steps. -/
def EndsWithin (next : ElementId → Option ElementId) (size : Nat) (id : ElementId) : Prop :=
  ∃ steps ≤ size, follow next steps id = none

/-- Following the link from an element leads back to it. -/
def Circles (next : ElementId → Option ElementId) (id : ElementId) : Prop :=
  ∃ steps, follow next (steps + 1) id = some id

theorem follow_add (m n : Nat) (id : ElementId) :
    follow next (m + n) id = (follow next m id).bind (follow next n) := by
  induction m generalizing id with
  | zero => simp [follow]
  | succ m ih =>
    rw [Nat.succ_add, follow, follow]
    cases next id with
    | none => rfl
    | some other => exact ih other

theorem follow_succ_last (steps : Nat) (id : ElementId) :
    follow next (steps + 1) id = (follow next steps id).bind next := by
  rw [follow_add]
  congr 1
  funext other
  rw [follow]
  cases next other <;> rfl

/-- A walk that ended does not go on. -/
theorem follow_eq_none_of_le (h : follow next m id = none) (hle : m ≤ n) :
    follow next n id = none := by
  obtain ⟨extra, rfl⟩ := Nat.exists_eq_add_of_le hle
  rw [follow_add, h]
  rfl

/-- A walk around a circle never ends: each round leads to where it started. -/
theorem Circles.follow_ne_none (h : Circles next id) (steps : Nat) :
    follow next steps id ≠ none := by
  obtain ⟨round, hround⟩ := h
  have hrounds : ∀ rounds, follow next (rounds * (round + 1)) id = some id := by
    intro rounds
    induction rounds with
    | zero => rw [Nat.zero_mul, follow]
    | succ rounds ih => rw [Nat.succ_mul, follow_add, ih, Option.bind_some, hround]
  intro hnone
  have hlong := follow_eq_none_of_le hnone (Nat.le_mul_of_pos_right steps round.succ_pos)
  rw [hrounds steps] at hlong
  cases hlong

/-- Two places of a walk with the same element make a circle. -/
theorem circles_of_follow_eq (hm : follow next m id = some other)
    (hn : follow next n id = some other) (hlt : m < n) : Circles next other := by
  obtain ⟨gap, rfl⟩ := Nat.exists_eq_add_of_lt hlt
  refine ⟨gap, ?_⟩
  rw [Nat.add_assoc, follow_add, hm] at hn
  exact hn

/-- A walk that ends comes to no circle. -/
theorem not_circles_of_follow_eq_none (hnone : follow next n id = none)
    (hother : follow next m id = some other) : ¬ Circles next other := by
  intro hcircle
  have hlater := follow_eq_none_of_le hnone (Nat.le_add_left n m)
  rw [follow_add, hother] at hlater
  exact hcircle.follow_ne_none n hlater

section Range

variable (hpos : 0 < size)
  (hnext : ∀ id other, next id = some other → id.place < size ∧ other.place < size)
include hpos hnext

/-- All that a walk with so many steps meets is in range: what it leaves, and what it enters
    last. -/
theorem place_lt_of_follow (hlong : follow next size id ≠ none) (hle : n ≤ size) :
    ∃ other, follow next n id = some other ∧ other.place < size := by
  have hsome : ∀ steps ≤ size, ∃ other, follow next steps id = some other := by
    intro steps hsteps
    exact Option.ne_none_iff_exists'.mp fun hnone => hlong (follow_eq_none_of_le hnone hsteps)
  obtain ⟨other, hother⟩ := hsome n hle
  refine ⟨other, hother, ?_⟩
  rcases Nat.lt_or_ge n size with hlt | hge
  · obtain ⟨after, hafter⟩ := hsome (n + 1) hlt
    rw [follow_succ_last, hother] at hafter
    exact (hnext other after hafter).1
  · obtain ⟨before, rfl⟩ : ∃ before, n = before + 1 := ⟨n - 1, by omega⟩
    rw [follow_succ_last] at hother
    obtain ⟨last, -, hlast⟩ := Option.bind_eq_some_iff.mp hother
    exact (hnext last other hlast).2

/-- A walk among so many elements with as many steps meets one of them twice. -/
theorem exists_circle_of_follow (hlong : follow next size id ≠ none) :
    ∃ steps other, follow next steps id = some other ∧ Circles next other := by
  choose met hmet hplace using
    fun (k : Fin (size + 1)) => place_lt_of_follow hpos hnext hlong (Nat.le_of_lt_succ k.isLt)
  obtain ⟨i, j, hne, heq⟩ := Fintype.exists_ne_map_eq_of_card_lt
    (fun k => (⟨(met k).place, hplace k⟩ : Fin size)) (by simp)
  have hsame : met i = met j := congrArg ElementId.mk (Fin.mk.inj heq)
  rcases Nat.lt_or_gt_of_ne (Fin.val_ne_of_ne hne) with hlt | hlt
  · exact ⟨i, met i, hmet i, circles_of_follow_eq (hmet i) (hsame ▸ hmet j) hlt⟩
  · exact ⟨j, met j, hmet j, circles_of_follow_eq (hmet j) (hsame ▸ hmet i) hlt⟩

/-- A walk ends within as many steps as there are elements exactly if it comes to no circle. -/
theorem endsWithin_iff : EndsWithin next size id ↔
    ∀ steps other, follow next steps id = some other → ¬ Circles next other := by
  constructor
  · rintro ⟨limit, -, hnone⟩ steps other hother
    exact not_circles_of_follow_eq_none hnone hother
  · intro hfree
    refine ⟨size, Nat.le_refl size, ?_⟩
    by_contra hlong
    obtain ⟨steps, other, hother, hcircle⟩ := exists_circle_of_follow hpos hnext hlong
    exact hfree steps other hother hcircle

/-- A walk that ends at all ends within as many steps as there are elements. -/
theorem endsWithin_of_follow (hnone : follow next n id = none) : EndsWithin next size id :=
  (endsWithin_iff hpos hnext).mpr fun _ _ => not_circles_of_follow_eq_none hnone

end Range

end Follow

/-! ## Walks without a bound -/

namespace Tree

/-- What stands between a pair of parentheses. -/
def content? (tree : Tree) (id : ElementId) : Option ElementId :=
  match tree.kind? id with
  | some (.parens expression) => some expression
  | _ => none

/-- Going from parent to parent until there is none meets these elements. -/
inductive ListsAbove (tree : Tree) : ElementId → List ElementId → Prop where
  | top {id : ElementId} : tree.parent? id = none → ListsAbove tree id []
  | up {id parent : ElementId} {above : List ElementId} : tree.parent? id = some parent →
      ListsAbove tree parent above → ListsAbove tree id (parent :: above)

/-- Going from parent to parent until one passes the test, or there is none, gives this. -/
inductive FindsAbove (tree : Tree) (test : ElementId → Bool) :
    ElementId → Option ElementId → Prop where
  | top {id : ElementId} : tree.parent? id = none → FindsAbove tree test id none
  | found {id parent : ElementId} : tree.parent? id = some parent → test parent = true →
      FindsAbove tree test id (some parent)
  | up {id parent : ElementId} {result : Option ElementId} : tree.parent? id = some parent →
      test parent = false → FindsAbove tree test parent result → FindsAbove tree test id result

/-- Going into parentheses until there are none gives this element. -/
inductive Unwraps (tree : Tree) : ElementId → ElementId → Prop where
  | bare {id : ElementId} : tree.content? id = none → Unwraps tree id id
  | inner {id content inside : ElementId} : tree.content? id = some content →
      Unwraps tree content inside → Unwraps tree id inside

/-- The walks upwards from an element end, and the bounded ones give what they give. -/
structure WalksUp (tree : Tree) (id : ElementId) : Prop where
  ancestors : tree.ListsAbove id (tree.ancestors id)
  outsideParens : tree.FindsAbove (fun ancestor => !tree.isKind Kind.isParens ancestor) id
    (tree.parentOutsideParens? id)
  enclosingMethod : tree.FindsAbove (tree.isKind Kind.isMethod) id (tree.enclosingMethod? id)
  enclosingClass : tree.FindsAbove (tree.isKind Kind.isClass) id (tree.enclosingClass? id)

section Walks

variable {tree : Tree} {id : ElementId} {bound : Nat}

theorem listsAbove_ancestorsUpTo (h : follow tree.parent? bound id = none) :
    tree.ListsAbove id (tree.ancestorsUpTo bound id) := by
  induction bound generalizing id with
  | zero => cases h
  | succ bound ih =>
    rw [ancestorsUpTo]
    cases hparent : tree.parent? id with
    | none => exact .top hparent
    | some parent =>
      rw [follow, hparent] at h
      exact .up hparent (ih h)

/-- The elements above have come to an end where they can all be listed. -/
theorem ListsAbove.follow_eq_none {above : List ElementId} (h : tree.ListsAbove id above) :
    follow tree.parent? (above.length + 1) id = none := by
  induction h with
  | top hparent => rw [follow, hparent]; rfl
  | up hparent _ ih => rw [follow, hparent]; exact ih

theorem ListsAbove.findsAbove {above : List ElementId} (h : tree.ListsAbove id above)
    (test : ElementId → Bool) : tree.FindsAbove test id (above.find? test) := by
  induction h with
  | top hparent => exact .top hparent
  | @up id parent above hparent _ ih =>
    cases htest : test parent with
    | true =>
      rw [List.find?_cons_of_pos htest]
      exact .found hparent htest
    | false =>
      rw [List.find?_cons_of_neg (by simp [htest])]
      exact .up hparent htest ih

/-- No search above an element ends that is its own parent and does not pass the test. -/
theorem not_findsAbove_of_self {test : ElementId → Bool} (hparent : tree.parent? id = some id)
    (htest : test id = false) (result : Option ElementId) :
    ¬ tree.FindsAbove test id result := by
  intro h
  induction h with
  | top hnone =>
    rw [hparent] at hnone
    cases hnone
  | found hup hpass =>
    rw [hparent] at hup
    cases hup
    rw [htest] at hpass
    cases hpass
  | up hup _ _ ih =>
    rw [hparent] at hup
    cases hup
    exact ih hparent htest

theorem walksUp_of_endsWithin (h : EndsWithin tree.parent? tree.size id) : tree.WalksUp id := by
  obtain ⟨steps, hle, hnone⟩ := h
  have hlists : tree.ListsAbove id (tree.ancestors id) :=
    listsAbove_ancestorsUpTo (follow_eq_none_of_le hnone hle)
  exact ⟨hlists, hlists.findsAbove _, hlists.findsAbove _, hlists.findsAbove _⟩

theorem insideParensUpTo_succ (bound : Nat) (id : ElementId) :
    tree.insideParensUpTo (bound + 1) id =
      ((tree.content? id).map (tree.insideParensUpTo bound)).getD id := by
  rw [insideParensUpTo, content?]
  cases tree.kind? id with
  | none => rfl
  | some kind => cases kind <;> rfl

theorem unwraps_insideParensUpTo (h : follow tree.content? bound id = none) :
    tree.Unwraps id (tree.insideParensUpTo bound id) := by
  induction bound generalizing id with
  | zero => cases h
  | succ bound ih =>
    rw [insideParensUpTo_succ]
    cases hcontent : tree.content? id with
    | none => exact .bare hcontent
    | some content =>
      rw [follow, hcontent] at h
      exact .inner hcontent (ih h)

theorem unwraps_of_endsWithin (h : EndsWithin tree.content? tree.size id) :
    tree.Unwraps id (tree.insideParens id) := by
  obtain ⟨steps, hle, hnone⟩ := h
  exact unwraps_insideParensUpTo (follow_eq_none_of_le hnone hle)

/-- Going into parentheses has come to an end where something stands inside of all. -/
theorem Unwraps.exists_follow {inside : ElementId} (h : tree.Unwraps id inside) :
    ∃ steps, follow tree.content? steps id = none := by
  induction h with
  | bare hcontent => exact ⟨1, by rw [follow, hcontent]; rfl⟩
  | inner hcontent _ ih =>
    obtain ⟨steps, hsteps⟩ := ih
    exact ⟨steps + 1, by rw [follow, hcontent]; exact hsteps⟩

end Walks

/-! ## Linked trees -/

section Linked

variable {tree : Tree} (hl : tree.Linked) {id other : ElementId}
include hl

theorem Linked.parent?_lt (h : tree.parent? id = some other) :
    id.place < tree.size ∧ other.place < tree.size := by
  have hchild := (hl.parent_iff id other).mp h
  exact ⟨hl.child_lt other id hchild, lt_size_of_mem_children hchild⟩

theorem Linked.parent?_of_content? (h : tree.content? id = some other) :
    tree.parent? other = some id := by
  rw [hl.parent_iff, children]
  rw [content?] at h
  split at h
  · next expression hkind =>
    cases h
    simp [hkind, Kind.children]
  · cases h

theorem Linked.content?_lt (h : tree.content? id = some other) :
    id.place < tree.size ∧ other.place < tree.size :=
  (hl.parent?_lt (hl.parent?_of_content? h)).symm

/-- Going out of parentheses goes back the way that going into them went. -/
theorem Linked.follow_parent?_of_content? {steps : Nat}
    (h : follow tree.content? steps id = some other) :
    follow tree.parent? steps other = some id := by
  induction steps generalizing other with
  | zero =>
    cases h
    rfl
  | succ steps ih =>
    rw [follow_succ_last] at h
    obtain ⟨middle, hmiddle, hlast⟩ := Option.bind_eq_some_iff.mp h
    rw [follow, hl.parent?_of_content? hlast]
    exact ih hmiddle

/-- The parents of what stands below an element lead up to it. -/
theorem Linked.follow_of_below {top : ElementId} {depth : Nat} (h : tree.Below top depth id) :
    follow tree.parent? depth id = some top := by
  induction h with
  | self => rfl
  | child _ hmem ih =>
    rw [follow, (hl.parent_iff _ _).mpr hmem]
    exact ih

theorem Linked.size_pos : 0 < tree.size := Nat.zero_lt_of_lt hl.root_lt

/-- The parents of an element below the root lead to the root and end there. -/
theorem Linked.endsWithin_of_below {depth : Nat} (h : tree.Below tree.root depth id) :
    EndsWithin tree.parent? tree.size id := by
  refine ⟨depth + 1, hl.depth_lt h, ?_⟩
  rw [follow_succ_last, hl.follow_of_below h]
  exact hl.root_free

theorem Linked.endsWithin_iff : EndsWithin tree.parent? tree.size id ↔
    ∀ steps above, follow tree.parent? steps id = some above → ¬ Circles tree.parent? above :=
  ValueFlow.endsWithin_iff hl.size_pos fun _ _ => hl.parent?_lt

theorem Linked.endsWithin_content?_iff : EndsWithin tree.content? tree.size id ↔
    ∀ steps inside, follow tree.content? steps id = some inside →
      ¬ Circles tree.content? inside :=
  ValueFlow.endsWithin_iff hl.size_pos fun _ _ => hl.content?_lt

theorem Linked.endsWithin_of_follow {steps : Nat} (h : follow tree.parent? steps id = none) :
    EndsWithin tree.parent? tree.size id :=
  ValueFlow.endsWithin_of_follow hl.size_pos (fun _ _ => hl.parent?_lt) h

/-- Where the parents of an element end there are no endless parentheses inside it. -/
theorem Linked.endsWithin_content? (h : EndsWithin tree.parent? tree.size id) :
    EndsWithin tree.content? tree.size id := by
  obtain ⟨limit, -, hnone⟩ := h
  refine hl.endsWithin_content?_iff.mpr fun steps inside hinside => ?_
  rintro ⟨round, hround⟩
  -- The parents of the circle are the circle, and they lead to the element.
  have hcircle : Circles tree.parent? inside := ⟨round, hl.follow_parent?_of_content? hround⟩
  refine hcircle.follow_ne_none (steps + limit) ?_
  rw [follow_add, hl.follow_parent?_of_content? hinside]
  exact hnone

end Linked
end Tree

/-! ## Accepted units -/

namespace CompilationUnit

variable {u : CompilationUnit}

/-- The walks from an element of an accepted unit. Following parents ends within as many steps
    as there are elements exactly if no element at or above it stands inside itself. This is so
    if its ancestors can be listed at all, and then all walks upwards end. Going into parentheses
    ends exactly if it comes to no parentheses inside themselves. From attached elements all
    walks end. -/
theorem walks_end_iff_no_circle (hu : u.Accepted) (id : ElementId) :
    (EndsWithin u.parent? u.size id ↔ ∀ steps above, follow u.parent? steps id = some above →
      ¬ Circles u.parent? above) ∧
    ((∃ above, u.tree.ListsAbove id above) ↔ EndsWithin u.parent? u.size id) ∧
    (EndsWithin u.parent? u.size id → u.tree.WalksUp id) ∧
    (EndsWithin u.tree.content? u.size id ↔ ∀ steps inside,
      follow u.tree.content? steps id = some inside → ¬ Circles u.tree.content? inside) ∧
    ((∃ inside, u.tree.Unwraps id inside) ↔ EndsWithin u.tree.content? u.size id) ∧
    (EndsWithin u.tree.content? u.size id → u.tree.Unwraps id (u.tree.insideParens id)) ∧
    (id ∈ u.attached →
      EndsWithin u.parent? u.size id ∧ EndsWithin u.tree.content? u.size id) := by
  have hl := hu.linked
  refine ⟨hl.endsWithin_iff, ⟨?_, ?_⟩, Tree.walksUp_of_endsWithin, hl.endsWithin_content?_iff,
    ⟨?_, ?_⟩, Tree.unwraps_of_endsWithin, ?_⟩
  · rintro ⟨above, habove⟩
    exact hl.endsWithin_of_follow habove.follow_eq_none
  · exact fun hends => ⟨_, (Tree.walksUp_of_endsWithin hends).ancestors⟩
  · rintro ⟨inside, hinside⟩
    obtain ⟨steps, hnone⟩ := hinside.exists_follow
    exact endsWithin_of_follow hl.size_pos (fun _ _ => hl.content?_lt) hnone
  · exact fun hends => ⟨_, Tree.unwraps_of_endsWithin hends⟩
  · intro hid
    obtain ⟨depth, hbelow⟩ := hu.mem_attached_iff.mp hid
    have hends := hl.endsWithin_of_below hbelow
    exact ⟨hends, hl.endsWithin_content? hends⟩

/-- The walks from the literal of `wrap` end: all around it are found. -/
theorem walks_end_iff_no_circle_relayUnit :
    relayUnit.Accepted ∧ ⟨11⟩ ∈ relayUnit.attached ∧
    EndsWithin relayUnit.parent? relayUnit.size ⟨11⟩ ∧
    relayUnit.tree.ListsAbove ⟨11⟩ [⟨10⟩, ⟨9⟩, ⟨8⟩, ⟨7⟩, ⟨1⟩, ⟨0⟩] ∧
    relayUnit.tree.FindsAbove (relayUnit.tree.isKind Kind.isMethod) ⟨11⟩ (some ⟨7⟩) ∧
    relayUnit.tree.Unwraps ⟨11⟩ ⟨11⟩ := by
  obtain ⟨-, -, hwalks, -, -, hunwraps, hattached⟩ :=
    walks_end_iff_no_circle relayUnit_accepted ⟨11⟩
  have hid : ⟨11⟩ ∈ relayUnit.attached := by decide +kernel
  obtain ⟨hends, hinside⟩ := hattached hid
  have hup := hwalks hends
  have hancestors : relayUnit.tree.ancestors ⟨11⟩ =
      [⟨10⟩, ⟨9⟩, ⟨8⟩, ⟨7⟩, ⟨1⟩, ⟨0⟩] := by decide +kernel
  have hmethod : relayUnit.tree.enclosingMethod? ⟨11⟩ = some ⟨7⟩ := by decide +kernel
  have hbare : relayUnit.tree.insideParens ⟨11⟩ = ⟨11⟩ := by decide +kernel
  refine ⟨relayUnit_accepted, hid, hends, ?_, ?_, ?_⟩
  · exact hancestors ▸ hup.ancestors
  · exact hmethod ▸ hup.enclosingMethod
  · have hunwrapped := hunwraps hinside
    rwa [hbare] at hunwrapped

end CompilationUnit

/-! ## A circle -/

/-- An empty compilation unit, and beside it parentheses that stand inside themselves. -/
def circularTree : Tree where
  root := ⟨0⟩
  elements := #[⟨none, .compilationUnit "" []⟩, ⟨none, .parens ⟨1⟩⟩]
  types := []

/-- The unit of that tree. -/
def circularUnit : CompilationUnit :=
  (CompilationUnit.ofTree circularTree).toOption.get (by decide +kernel)

theorem circularUnit_accepted : circularUnit.Accepted := ⟨circularTree, eq_ok_get _⟩

theorem circularUnit_steps : circularUnit.parent? ⟨1⟩ = some ⟨1⟩ ∧
    circularUnit.tree.content? ⟨1⟩ = some ⟨1⟩ := by decide +kernel

/-- The parentheses inside themselves are accepted. Their parents have no end: no walk upwards
    from them gives a result, and nothing stands inside of all parentheses. -/
theorem CompilationUnit.endless_walks_accepted :
    circularUnit.Accepted ∧ (⟨1⟩ : ElementId).place < circularUnit.size ∧
    (∀ steps, follow circularUnit.parent? steps ⟨1⟩ ≠ none) ∧
    (∀ above, ¬ circularUnit.tree.ListsAbove ⟨1⟩ above) ∧
    (∀ test ∈ [fun id => !circularUnit.tree.isKind Kind.isParens id,
        circularUnit.tree.isKind Kind.isMethod, circularUnit.tree.isKind Kind.isClass],
      ∀ result, ¬ circularUnit.tree.FindsAbove test ⟨1⟩ result) ∧
    ∀ inside, ¬ circularUnit.tree.Unwraps ⟨1⟩ inside := by
  obtain ⟨hparent, hcontent⟩ := circularUnit_steps
  have hround : ∀ next : ElementId → Option ElementId, next ⟨1⟩ = some ⟨1⟩ → Circles next ⟨1⟩ :=
    fun next hnext => ⟨0, by rw [follow, hnext]; rfl⟩
  refine ⟨circularUnit_accepted, by decide +kernel, (hround _ hparent).follow_ne_none, ?_, ?_, ?_⟩
  · intro above habove
    exact (hround _ hparent).follow_ne_none _ habove.follow_eq_none
  · have htests : ∀ test ∈ [fun id => !circularUnit.tree.isKind Kind.isParens id,
        circularUnit.tree.isKind Kind.isMethod, circularUnit.tree.isKind Kind.isClass],
        test ⟨1⟩ = false := by
      decide +kernel
    exact fun test htest => Tree.not_findsAbove_of_self hparent (htests test htest)
  · intro inside hinside
    obtain ⟨steps, hnone⟩ := hinside.exists_follow
    exact (hround _ hcontent).follow_ne_none steps hnone

end ValueFlow
