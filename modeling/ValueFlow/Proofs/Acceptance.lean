/-
  ValueFlow.Proofs.Acceptance

  Which trees are accepted.

  The checks walk over a tree and stop at the first mistake. Together they ask for a property
  of the tree that says nothing about the order of the walk (`Tree.Acceptable`): children exist
  and are listed once among all lists, the root is a compilation unit and nobody's child, and no
  type is declared twice. Nothing else can go wrong after that, in particular the hierarchy of
  the declared types can always be built.
-/

import ValueFlow.Proofs.Hierarchy
import ValueFlow.Proofs.ParentChains
import ValueFlow.Proofs.SourceOrder

namespace ValueFlow
namespace Tree

/-- The children lists of all elements taken together. -/
def allChildren (tree : Tree) : List ElementId := tree.ids.flatMap tree.children

/-- What a tree has to be like to be accepted. -/
structure Acceptable (tree : Tree) : Prop where
  child_lt : ∀ child ∈ tree.allChildren, child.place < tree.size
  nodup_children : tree.allChildren.Nodup
  root_lt : tree.root.place < tree.size
  root_unit : ∃ package classes, tree.kind? tree.root = some (.compilationUnit package classes)
  root_free : tree.root ∉ tree.allChildren
  nodup_types : (tree.types.map (·.fqn)).Nodup

/-! ## Links -/

theorem allChildren_eq (tree : Tree) : tree.allChildren = tree.childLinks.map (·.2) := by
  rw [allChildren, childLinks, List.map_flatMap]
  refine List.flatMap_congr fun parent _ => ?_
  rw [List.map_map]
  exact (List.map_id _).symm

/-- An element that exists and is free can be attached. -/
theorem exists_attach {parents : Array (Option ElementId)} {link : ElementId × ElementId}
    (hfree : parents[link.2.place]? = some none) : ∃ after, attach parents link = .ok after :=
  ⟨parents.setIfInBounds link.2.place (some link.1), by rw [attach, hfree]⟩

/-- Links to different elements that all exist and are free can be attached one by one. -/
theorem exists_foldlM_attach {links : List (ElementId × ElementId)}
    {parents : Array (Option ElementId)} (hnodup : (links.map (·.2)).Nodup)
    (hfree : ∀ link ∈ links, parents[link.2.place]? = some none) :
    ∃ after, links.foldlM attach parents = .ok after := by
  induction links generalizing parents with
  | nil => exact ⟨parents, rfl⟩
  | cons link links ih =>
    obtain ⟨hfirst, hnodup⟩ := List.nodup_cons.mp hnodup
    obtain ⟨hlink, hlinks⟩ := List.forall_mem_cons.mp hfree
    obtain ⟨middle, hmiddle⟩ := exists_attach hlink
    obtain ⟨-, -, hview⟩ := attach_eq_ok hmiddle
    -- The first link leaves all others free, which lead to other elements.
    have hkept : ∀ other ∈ links, middle[other.2.place]? = some none := by
      intro other hother
      have hne : other.2 ≠ link.2 :=
        fun heq => hfirst (List.mem_map.mpr ⟨other, hother, heq⟩)
      rw [hview, if_neg hne]
      exact hlinks other hother
    obtain ⟨after, hafter⟩ := ih hnodup hkept
    exact ⟨after, by rw [List.foldlM_cons, hmiddle]; exact hafter⟩

/-- When the parents can be computed. -/
theorem exists_parents?_iff {tree : Tree} : (∃ parents, tree.parents? = .ok parents) ↔
    (∀ child ∈ tree.allChildren, child.place < tree.size) ∧ tree.allChildren.Nodup := by
  have hnew : ∀ id : ElementId, (Array.replicate tree.size (none : Option ElementId))[id.place]? =
      some none ↔ id.place < tree.size := by
    intro id
    rw [Array.getElem?_replicate]
    simp
  rw [allChildren_eq]
  constructor
  · rintro ⟨parents, hparents⟩
    obtain ⟨-, hnodup, hfree, -⟩ := foldlM_attach_eq_ok hparents
    refine ⟨fun child hchild => ?_, hnodup⟩
    obtain ⟨link, hlink, rfl⟩ := List.mem_map.mp hchild
    exact (hnew link.2).mp (hfree link hlink)
  · rintro ⟨hlt, hnodup⟩
    refine exists_foldlM_attach hnodup fun link hlink => ?_
    exact (hnew link.2).mpr (hlt link.2 (List.mem_map_of_mem hlink))

/-- Where the parents can be computed, the root is free exactly if it is nobody's child. -/
theorem root_free_iff {tree : Tree} {parents : Array (Option ElementId)}
    (hparents : tree.parents? = .ok parents) : parents[tree.root.place]? = some none ↔
      tree.root.place < tree.size ∧ tree.root ∉ tree.allChildren := by
  obtain ⟨hsize, -, -, hview⟩ := foldlM_attach_eq_ok hparents
  rw [Array.size_replicate] at hsize
  have hlinked : tree.root ∈ tree.allChildren ↔
      ∃ parent, parents[tree.root.place]? = some (some parent) := by
    simp only [hview, Array.getElem?_replicate, allChildren_eq, List.mem_map, Prod.exists]
    constructor
    · rintro ⟨parent, child, hlink, rfl⟩
      exact ⟨parent, Or.inr hlink⟩
    · rintro ⟨parent, hnone | hlink⟩
      · split at hnone <;> cases hnone
      · exact ⟨parent, tree.root, hlink, rfl⟩
  rw [hlinked]
  cases hroot : parents[tree.root.place]? with
  | none =>
    have hge := Array.getElem?_eq_none_iff.mp hroot
    simp
    omega
  | some parent =>
    have hlt := (Array.getElem?_eq_some_iff.mp hroot).1
    cases parent with
    | none => simp; omega
    | some parent => simp

theorem exists_expectKind_iff {tree : Tree} {id : ElementId} {expected : String}
    {test : Kind → Bool} : (∃ kind, tree.expectKind id expected test = .ok kind) ↔
      ∃ kind, tree.kind? id = some kind ∧ test kind = true := by
  rw [expectKind]
  cases tree.kind? id with
  | none => simp
  | some kind => cases htest : test kind <;> simp [htest]

end Tree

/-! ## Units -/

namespace CompilationUnit

theorem isUnitKind_iff {kind : Kind} :
    isUnitKind kind = true ↔ ∃ package classes, kind = .compilationUnit package classes := by
  cases kind <;> simp [isUnitKind]

/-- A unit has the root, the kinds and the types of the tree that it was made of. -/
theorem same_of_ofTree {tree : Tree} {u : CompilationUnit} (h : ofTree tree = .ok u) :
    u.tree.root = tree.root ∧ u.tree.types = tree.types ∧ u.size = tree.size ∧
      ∀ id, u.kind? id = tree.kind? id := by
  obtain ⟨parents, hparents, -, htree⟩ := Tree.link_eq_ok_iff.mp (ofTree_eq_ok_iff.mp h).1
  have hsize := Tree.size_of_parents? hparents
  rw [size, ← htree]
  refine ⟨rfl, rfl, Tree.size_withParents hsize, fun id => ?_⟩
  rw [kind?, ← htree, Tree.kind?_withParents hsize]

/-- Acceptable trees pass all checks. -/
theorem exists_ofTree {tree : Tree} (h : tree.Acceptable) : ∃ u, ofTree tree = .ok u := by
  obtain ⟨parents, hparents⟩ := Tree.exists_parents?_iff.mpr ⟨h.child_lt, h.nodup_children⟩
  have hroot := (Tree.root_free_iff hparents).mpr ⟨h.root_lt, h.root_free⟩
  have hsize := Tree.size_of_parents? hparents
  obtain ⟨package, classes, hunit⟩ := h.root_unit
  obtain ⟨hierarchy, hbuild, -⟩ :=
    Hierarchy.exists_build h.nodup_types (tree.withParents parents).calledSignatures
  let linked := tree.withParents parents
  refine ⟨⟨linked, linked.spans, hierarchy⟩, ofTree_eq_ok_iff.mpr ⟨?_, ?_, ?_, rfl, hbuild⟩⟩
  · exact Tree.link_eq_ok_iff.mpr ⟨parents, hparents, hroot, rfl⟩
  · refine Tree.exists_expectKind_iff.mpr ⟨.compilationUnit package classes, ?_, rfl⟩
    rw [Tree.kind?_withParents hsize]
    exact hunit
  · exact Tree.duplicateType?_eq_none_iff.mpr ⟨h.nodup_types, by simp⟩

/-- What is accepted was acceptable. -/
theorem acceptable_of_ofTree {tree : Tree} {u : CompilationUnit} (h : ofTree tree = .ok u) :
    tree.Acceptable := by
  obtain ⟨hsameRoot, hsameTypes, -, hsameKind⟩ := same_of_ofTree h
  obtain ⟨hlink, hexpect, htypes, -, -⟩ := ofTree_eq_ok_iff.mp h
  obtain ⟨parents, hparents, hroot, -⟩ := Tree.link_eq_ok_iff.mp hlink
  obtain ⟨hlt, hnodup⟩ := Tree.exists_parents?_iff.mp ⟨parents, hparents⟩
  obtain ⟨hrootLt, hrootFree⟩ := (Tree.root_free_iff hparents).mp hroot
  obtain ⟨kind, hkind, hunit⟩ := Tree.exists_expectKind_iff.mp hexpect
  obtain ⟨package, classes, rfl⟩ := isUnitKind_iff.mp hunit
  refine ⟨hlt, hnodup, hrootLt, ⟨package, classes, ?_⟩, hrootFree, ?_⟩
  · rw [← hsameKind, ← hsameRoot]
    exact hkind
  · rw [← hsameTypes]
    exact (Tree.duplicateType?_eq_none_iff.mp htypes).1

/-- A tree is accepted exactly if it is acceptable; building the hierarchy of its types then
    never fails. The unit has the root, kinds and types of the tree, parents and children agree
    in it, and the parents of all that can be reached from the root lead to the root and end
    there. -/
theorem accepted_iff_acceptable (tree : Tree) :
    ((∃ u, ofTree tree = .ok u) ↔ tree.Acceptable) ∧
    ((tree.types.map (·.fqn)).Nodup →
      ∀ called, ∃ hierarchy, Hierarchy.build tree.types called = .ok hierarchy) ∧
    ∀ u, ofTree tree = .ok u →
      (u.tree.root = tree.root ∧ u.tree.types = tree.types ∧ u.size = tree.size ∧
        ∀ id, u.kind? id = tree.kind? id) ∧
      (∀ x y, u.parent? x = some y ↔ x ∈ u.tree.children y) ∧
      ∀ x, Relation.ReflTransGen (fun parent child => child ∈ u.tree.children parent)
          u.tree.root x →
        ∃ steps, follow u.parent? steps x = some u.tree.root ∧
          follow u.parent? (steps + 1) x = none := by
  refine ⟨⟨fun ⟨u, hu⟩ => acceptable_of_ofTree hu, exists_ofTree⟩, ?_, ?_⟩
  · intro hnodup called
    obtain ⟨hierarchy, hbuild, -⟩ := Hierarchy.exists_build hnodup called
    exact ⟨hierarchy, hbuild⟩
  · intro u hu
    have haccepted : u.Accepted := ⟨tree, hu⟩
    have hl := haccepted.linked
    refine ⟨same_of_ofTree hu, hl.parent_iff, fun x hx => ?_⟩
    obtain ⟨depth, hbelow⟩ :=
      haccepted.mem_attached_iff.mp (haccepted.mem_attached_iff_reachable.mpr hx)
    have htop : follow u.parent? depth x = some u.tree.root := hl.follow_of_below hbelow
    refine ⟨depth, htop, ?_⟩
    rw [follow_succ_last, htop]
    exact hl.root_free

/-- The tree of the small unit is accepted, and the parents of the literal of `wrap` lead to its
    root. -/
theorem accepted_iff_acceptable_relayTree :
    relayTree.Acceptable ∧ ofTree relayTree = .ok relayUnit ∧
    relayUnit.parent? ⟨11⟩ = some ⟨10⟩ ∧ ⟨11⟩ ∈ relayUnit.tree.children ⟨10⟩ ∧
    ∃ steps, follow relayUnit.parent? steps ⟨11⟩ = some ⟨0⟩ ∧
      follow relayUnit.parent? (steps + 1) ⟨11⟩ = none := by
  obtain ⟨haccepts, -, hunit⟩ := accepted_iff_acceptable relayTree
  have hrelay : ofTree relayTree = .ok relayUnit := eq_ok_get _
  obtain ⟨⟨hroot, -, -, -⟩, hparents, hchains⟩ := hunit relayUnit hrelay
  have hparent : relayUnit.parent? ⟨11⟩ = some ⟨10⟩ := by decide +kernel
  have hattached : ⟨11⟩ ∈ relayUnit.attached := by decide +kernel
  refine ⟨haccepts.mp ⟨relayUnit, hrelay⟩, hrelay, hparent, (hparents _ _).mp hparent, ?_⟩
  have hchain := hchains ⟨11⟩ (relayUnit_accepted.mem_attached_iff_reachable.mp hattached)
  rwa [hroot] at hchain

end CompilationUnit
end ValueFlow
