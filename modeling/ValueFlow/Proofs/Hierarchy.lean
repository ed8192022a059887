/-
  ValueFlow.Proofs.Hierarchy

  What types inherit from.

  A hierarchy is built step by step; each step is described by the names and the parents
  that it adds. No step is refused if no type is declared twice: the type that inherits is
  declared before, and the type that it inherits from is mentioned before. A built hierarchy
  has the parents that declarations name, and the root class as the parent of each type
  without any. So every type reaches the root class, unless it reaches a cycle of declarations.
-/

import ValueFlow.Proofs.Search
import ValueFlow.Proofs.Tree
import Mathlib.Data.Set.Finite.Basic
import Mathlib.Data.Fintype.Card

namespace ValueFlow

/-- A declaration names a type as its supertype or as one of its interfaces. -/
def TypeDecl.Extends (decls : List TypeDecl) (sub sup : String) : Prop :=
  ∃ decl ∈ decls, decl.fqn = sub ∧ sup ∈ decl.parents

namespace Hierarchy

/-- The names of all types. -/
def names (hierarchy : Hierarchy) : List String := hierarchy.types.map (·.fqn)

variable {hierarchy : Hierarchy} {x y : String}

theorem knows_iff : hierarchy.knows x = true ↔ x ∈ hierarchy.names := by
  simp [knows, names]

theorem mem_parents_iff : y ∈ hierarchy.parents x ↔
    ∃ link ∈ hierarchy.links, link.sub = x ∧ link.sup = y := by
  simp [parents, and_assoc]

/-! ## Steps -/

@[simp] theorem mem_names_mention {fqn : String} :
    x ∈ (hierarchy.mention fqn).names ↔ x ∈ hierarchy.names ∨ x = fqn := by
  rw [mention]
  split
  · next hknows =>
    refine ⟨Or.inl, ?_⟩
    rintro (hx | rfl)
    · exact hx
    · exact knows_iff.mp hknows
  · simp [names]

@[simp] theorem links_mention {fqn : String} :
    (hierarchy.mention fqn).links = hierarchy.links := by
  rw [mention]
  split <;> rfl

@[simp] theorem parents_mention {fqn : String} :
    (hierarchy.mention fqn).parents = hierarchy.parents := by
  funext x
  rw [parents, links_mention, parents]

/-- A hierarchy with further names and parents. -/
structure Adds (hierarchy next : Hierarchy) (names : String → Prop)
    (parents : String → String → Prop) : Prop where
  names_iff : ∀ x, x ∈ next.names ↔ x ∈ hierarchy.names ∨ names x
  parents_iff : ∀ x y, y ∈ next.parents x ↔ y ∈ hierarchy.parents x ∨ parents x y

/-- Steps that each need a known type, all of which are known at the start, are not refused,
    and together they add what each of them adds. -/
theorem foldlM_adds {α : Type} {step : Hierarchy → α → Except TreeError Hierarchy}
    {sub : α → String} {names : α → String → Prop} {parents : α → String → String → Prop}
    (hstep : ∀ item h, sub item ∈ h.names →
      ∃ next, step h item = .ok next ∧ Adds h next (names item) (parents item))
    {items : List α} (hsub : ∀ item ∈ items, sub item ∈ hierarchy.names) :
    ∃ next, items.foldlM step hierarchy = .ok next ∧
      Adds hierarchy next (fun x => ∃ item ∈ items, names item x)
        (fun x y => ∃ item ∈ items, parents item x y) := by
  induction items generalizing hierarchy with
  | nil => exact ⟨hierarchy, rfl, by simp, by simp⟩
  | cons item items ih =>
    obtain ⟨hitem, hitems⟩ := List.forall_mem_cons.mp hsub
    obtain ⟨middle, hmiddle, hadds⟩ := hstep item hierarchy hitem
    have hkept : ∀ other ∈ items, sub other ∈ middle.names :=
      fun other hother => (hadds.names_iff _).mpr (Or.inl (hitems other hother))
    obtain ⟨next, hnext, hadds'⟩ := ih hkept
    refine ⟨next, ?_, fun x => ?_, fun x y => ?_⟩
    · rw [List.foldlM_cons, hmiddle]
      exact hnext
    · rw [hadds'.names_iff, hadds.names_iff, List.exists_mem_cons_iff, or_assoc]
    · rw [hadds'.parents_iff, hadds.parents_iff, List.exists_mem_cons_iff, or_assoc]

theorem inherit_adds {sub sup : String} (how : Inheritance) (hsub : sub ∈ hierarchy.names) :
    ∃ next, hierarchy.inherit sub sup how = .ok next ∧
      Adds hierarchy next (fun x => x = sup) (fun x y => x = sub ∧ y = sup) := by
  have hknown : (hierarchy.mention sup).knows sub = true ∧
      (hierarchy.mention sup).knows sup = true :=
    ⟨knows_iff.mpr (mem_names_mention.mpr (Or.inl hsub)),
      knows_iff.mpr (mem_names_mention.mpr (Or.inr rfl))⟩
  have hinherit : hierarchy.inherit sub sup how = .ok
      ⟨(hierarchy.mention sup).types, (hierarchy.mention sup).links ++ [⟨sub, sup, how⟩]⟩ := by
    rw [inherit, connect, hknown.1, hknown.2]
    rfl
  refine ⟨_, hinherit, fun x => mem_names_mention, fun x y => ?_⟩
  simp only [mem_parents_iff, links_mention, List.mem_append, List.mem_singleton,
    or_and_right, exists_or, exists_eq_left]
  exact or_congr_right (and_congr eq_comm eq_comm)

theorem inheritAll_adds {decl : TypeDecl} (hdecl : decl.fqn ∈ hierarchy.names) :
    ∃ next, hierarchy.inheritAll decl = .ok next ∧ Adds hierarchy next
      (fun x => x ∈ decl.parents) (fun x y => decl.fqn = x ∧ y ∈ decl.parents) := by
  obtain ⟨middle, hmiddle, hadds⟩ := @foldlM_adds hierarchy String
    (fun h sup => h.inherit decl.fqn sup .superclass) (fun _ => decl.fqn) _ _
    (fun _ _ hsub => inherit_adds .superclass hsub) decl.supertype.toList (fun _ _ => hdecl)
  have hkept : decl.fqn ∈ middle.names := (hadds.names_iff _).mpr (Or.inl hdecl)
  obtain ⟨next, hnext, hadds'⟩ := @foldlM_adds middle String
    (fun h sup => h.inherit decl.fqn sup .interface) (fun _ => decl.fqn) _ _
    (fun _ _ hsub => inherit_adds .interface hsub) decl.interfaces (fun _ _ => hkept)
  refine ⟨next, bind_eq_ok_iff.mpr ⟨middle, hmiddle, hnext⟩, fun x => ?_, fun x y => ?_⟩
  · simp only [hadds'.names_iff, hadds.names_iff, TypeDecl.parents, List.mem_append,
      exists_eq_right', or_assoc]
  · rw [hadds'.parents_iff, hadds.parents_iff, or_assoc, TypeDecl.parents, List.mem_append,
      @eq_comm _ x decl.fqn, and_or_left]
    simp only [and_left_comm (b := decl.fqn = x), exists_and_left, exists_eq_right']

/-- Types of different names, all of them new, can be declared. -/
theorem foldlM_declare {decls : List TypeDecl} (hnodup : (decls.map (·.fqn)).Nodup)
    (hnew : ∀ decl ∈ decls, decl.fqn ∉ hierarchy.names) :
    ∃ next, decls.foldlM declare hierarchy = .ok next ∧
      Adds hierarchy next (fun x => ∃ decl ∈ decls, x = decl.fqn) (fun _ _ => False) := by
  induction decls generalizing hierarchy with
  | nil => exact ⟨hierarchy, rfl, by simp, by simp⟩
  | cons decl decls ih =>
    obtain ⟨hfirst, hnodup⟩ := List.nodup_cons.mp hnodup
    obtain ⟨hdecl, hdecls⟩ := List.forall_mem_cons.mp hnew
    let middle : Hierarchy :=
      { hierarchy with types := hierarchy.types ++ [⟨decl.fqn, true, decl.isInterface⟩] }
    have hmiddle : hierarchy.declare decl = .ok middle := by
      rw [declare, if_neg (mt knows_iff.mp hdecl)]
    have hnames : middle.names = hierarchy.names ++ [decl.fqn] := by simp [middle, names]
    obtain ⟨next, hnext, hadds⟩ := @ih middle hnodup (by
      intro other hother
      rw [hnames, List.mem_append, List.mem_singleton, not_or]
      exact ⟨hdecls other hother, fun heq => hfirst (List.mem_map.mpr ⟨other, hother, heq⟩)⟩)
    refine ⟨next, ?_, fun x => ?_, fun x y => hadds.parents_iff x y⟩
    · rw [List.foldlM_cons, hmiddle]
      exact hnext
    · rw [hadds.names_iff, hnames, List.mem_append, List.mem_singleton,
        List.exists_mem_cons_iff, or_assoc]

theorem foldl_mention_spec (fqns : List String) (hierarchy : Hierarchy) :
    (∀ x, x ∈ (fqns.foldl mention hierarchy).names ↔ x ∈ hierarchy.names ∨ x ∈ fqns) ∧
      (fqns.foldl mention hierarchy).parents = hierarchy.parents := by
  induction fqns generalizing hierarchy with
  | nil => simp
  | cons fqn fqns ih =>
    obtain ⟨hnames, hparents⟩ := ih (hierarchy.mention fqn)
    refine ⟨fun x => ?_, ?_⟩
    · rw [List.foldl_cons, hnames, mem_names_mention, List.mem_cons, or_assoc]
    · rw [List.foldl_cons, hparents, parents_mention]

theorem mem_names_close :
    x ∈ hierarchy.close.names ↔ x ∈ hierarchy.names ∨ x = objectName :=
  mem_names_mention

/-- Closing a hierarchy gives a parent to the types that have none. -/
theorem mem_parents_close :
    y ∈ hierarchy.close.parents x ↔ y ∈ hierarchy.parents x ∨
      (x ∈ hierarchy.names ∧ x ≠ objectName ∧ (∀ z, z ∉ hierarchy.parents x) ∧
        y = objectName) := by
  have horphan : (∀ z, z ∉ hierarchy.parents x) ↔
      ∀ link ∈ hierarchy.links, link.sub ≠ x := by
    simp only [mem_parents_iff]
    refine ⟨fun h link hlink hsub => h link.sup ⟨link, hlink, hsub, rfl⟩, ?_⟩
    rintro h z ⟨link, hlink, hsub, -⟩
    exact h link hlink hsub
  have hmentioned : x ∈ (hierarchy.mention objectName).names ∧ x ≠ objectName ↔
      x ∈ hierarchy.names ∧ x ≠ objectName := by
    rw [mem_names_mention]
    exact and_congr_left fun hne => or_iff_left hne
  rw [horphan, ← and_assoc, ← hmentioned, mem_parents_iff, mem_parents_iff]
  simp only [close, links_mention, List.mem_append, List.mem_map, List.mem_filter, names,
    Bool.and_eq_true, bne_iff_ne, Bool.not_eq_true', List.any_eq_false, beq_iff_eq, or_and_right,
    exists_or]
  refine or_congr_right ⟨?_, ?_⟩
  · rintro ⟨link, ⟨node, ⟨hnode, hne, hfree⟩, rfl⟩, rfl, rfl⟩
    exact ⟨⟨⟨node, hnode, rfl⟩, hne⟩, hfree, rfl⟩
  · rintro ⟨⟨⟨node, hnode, rfl⟩, hne⟩, hfree, rfl⟩
    exact ⟨_, ⟨node, ⟨hnode, hne, hfree⟩, rfl⟩, rfl, rfl⟩

/-! ## Built hierarchies -/

/-- The hierarchy has the types that are declared, mentioned or called, and the root class.
    The parents of a type are those that its declaration names, or else the root class. -/
structure Built (decls : List TypeDecl) (called : List Signature) (hierarchy : Hierarchy) :
    Prop where
  mem_names_iff : ∀ x, x ∈ hierarchy.names ↔
    (∃ decl ∈ decls, x = decl.fqn ∨ x ∈ decl.parents) ∨
    (∃ signature ∈ called, signature.declaringType.fqn? = some x) ∨ x = objectName
  mem_parents_iff : ∀ x y, y ∈ hierarchy.parents x ↔ TypeDecl.Extends decls x y ∨
    (x ∈ hierarchy.names ∧ x ≠ objectName ∧ (∀ z, ¬ TypeDecl.Extends decls x z) ∧
      y = objectName)

section Build

variable {decls : List TypeDecl} {called : List Signature}

/-- Building a hierarchy fails for no declarations of different types. -/
theorem exists_build (hnodup : (decls.map (·.fqn)).Nodup) (called : List Signature) :
    ∃ hierarchy, build decls called = .ok hierarchy ∧ Built decls called hierarchy := by
  obtain ⟨declared, hdeclared, hdecl⟩ :=
    @foldlM_declare ⟨[], []⟩ decls hnodup (by simp [names])
  obtain ⟨inherited, hinherited, hadds⟩ := @foldlM_adds declared TypeDecl inheritAll (·.fqn) _ _
    (fun _ _ hsub => inheritAll_adds hsub) decls
    (fun decl hmem => (hdecl.names_iff _).mpr (Or.inr ⟨decl, hmem, rfl⟩))
  obtain ⟨hnames, hparents⟩ :=
    foldl_mention_spec (called.filterMap (·.declaringType.fqn?)) inherited
  have hextends : ∀ x y, y ∈ inherited.parents x ↔ TypeDecl.Extends decls x y := by
    intro x y
    rw [hadds.parents_iff, hdecl.parents_iff, TypeDecl.Extends]
    exact or_iff_right (by simp [parents])
  refine ⟨_, bind_eq_ok_iff.mpr ⟨declared, hdeclared,
    bind_eq_ok_iff.mpr ⟨inherited, hinherited, rfl⟩⟩, fun x => ?_, fun x y => ?_⟩
  · have hnone : x ∉ (⟨[], []⟩ : Hierarchy).names := by simp [names]
    simp only [mem_names_close, hnames, hadds.names_iff, hdecl.names_iff, List.mem_filterMap,
      hnone, false_or, or_assoc, and_or_left, exists_or]
  · simp only [mem_parents_close, mem_names_close, hparents, hextends]
    exact or_congr_right (and_congr_left fun h => (or_iff_left h.1).symm)

section Built

variable (hbuilt : Built decls called hierarchy)
include hbuilt

theorem Built.mem_names_of_extends (h : TypeDecl.Extends decls x y) : y ∈ hierarchy.names := by
  obtain ⟨decl, hdecl, -, hparent⟩ := h
  exact (hbuilt.mem_names_iff y).mpr (Or.inl ⟨decl, hdecl, Or.inr hparent⟩)

/-- All parents are known. -/
theorem Built.mem_names_of_mem_parents (h : y ∈ hierarchy.parents x) : y ∈ hierarchy.names := by
  rcases (hbuilt.mem_parents_iff x y).mp h with hextends | ⟨-, -, -, rfl⟩
  · exact hbuilt.mem_names_of_extends hextends
  · exact (hbuilt.mem_names_iff _).mpr (Or.inr (Or.inr rfl))

/-- The supertypes of a known type are what its parents lead to. -/
theorem Built.mem_supertypes_iff (hx : x ∈ hierarchy.names) :
    y ∈ hierarchy.supertypes x ↔ Search.Reach hierarchy.parents x y := by
  rw [supertypes, if_pos (knows_iff.mpr hx), Sorted.mem_ofList]
  rw [@Search.mem_closure_iff _ _ _ hierarchy.names]
  · simp
  · simpa using hx
  · exact fun _ _ _ => hbuilt.mem_names_of_mem_parents
  · rw [names, List.length_map]

/-- Every type inherits from the root class. -/
theorem Built.objectName_mem_supertypes
    (hacyclic : ∀ fqn, ¬ Relation.TransGen (TypeDecl.Extends decls) fqn fqn)
    (hx : x ∈ hierarchy.names) : objectName ∈ hierarchy.supertypes x := by
  rw [hbuilt.mem_supertypes_iff hx]
  -- Going up from one known type to the next one comes to an end.
  let above (a b : { fqn // fqn ∈ hierarchy.names }) : Prop :=
    Relation.TransGen (TypeDecl.Extends decls) b.1 a.1
  have : Finite { fqn // fqn ∈ hierarchy.names } :=
    (List.finite_toSet hierarchy.names).to_subtype
  have : IsTrans _ above := ⟨fun a b c hab hbc => hbc.trans hab⟩
  have : Std.Irrefl above := ⟨fun a => hacyclic a.1⟩
  have hwf : WellFounded above := Finite.wellFounded_of_trans_of_irrefl above
  suffices h : ∀ a : { fqn // fqn ∈ hierarchy.names },
      Search.Reach hierarchy.parents a.1 objectName from h ⟨x, hx⟩
  intro a
  induction a using hwf.induction with
  | _ a ih =>
    by_cases hextends : ∃ z, TypeDecl.Extends decls a.1 z
    · obtain ⟨z, hz⟩ := hextends
      exact .head ((hbuilt.mem_parents_iff _ _).mpr (Or.inl hz))
        (ih ⟨z, hbuilt.mem_names_of_extends hz⟩ (.single hz))
    · -- Without declared parents a type has the root class as its parent.
      by_cases hroot : a.1 = objectName
      · rw [hroot]
      · refine .single ((hbuilt.mem_parents_iff _ _).mpr (Or.inr ⟨a.2, hroot, ?_, rfl⟩))
        exact fun z hz => hextends ⟨z, hz⟩

end Built
end Build

end Hierarchy

/-! ## Names of declared types -/

namespace Tree

theorem duplicateType?_eq_none_iff {seen fqns : List String} :
    duplicateType? seen fqns = none ↔ fqns.Nodup ∧ ∀ fqn ∈ fqns, fqn ∉ seen := by
  induction fqns generalizing seen with
  | nil => simp [duplicateType?]
  | cons fqn fqns ih =>
    rw [duplicateType?, List.nodup_cons, List.forall_mem_cons]
    by_cases hseen : fqn ∈ seen
    · simp [hseen]
    · rw [if_neg (by simpa using hseen), ih]
      constructor
      · rintro ⟨hnodup, hnew⟩
        refine ⟨⟨fun hmem => hnew fqn hmem List.mem_cons_self, hnodup⟩, hseen, ?_⟩
        exact fun other hother hmem => hnew other hother (List.mem_cons_of_mem _ hmem)
      · rintro ⟨⟨hfirst, hnodup⟩, -, hnew⟩
        refine ⟨hnodup, fun other hother hmem => ?_⟩
        rcases List.mem_cons.mp hmem with rfl | hmem
        · exact hfirst hother
        · exact hnew other hother hmem

end Tree

/-! ## The hierarchy of a unit -/

namespace CompilationUnit

variable {u : CompilationUnit} {signature : Signature} {fqn : String}

/-- The types of an accepted unit have different names. -/
theorem Accepted.nodup_types (hu : u.Accepted) : (u.tree.types.map (·.fqn)).Nodup := by
  obtain ⟨tree, htree⟩ := hu
  exact (Tree.duplicateType?_eq_none_iff.mp (ofTree_eq_ok_iff.mp htree).2.2.1).1

theorem Accepted.hierarchy_built (hu : u.Accepted) :
    Hierarchy.Built u.tree.types u.calledSignatures u.hierarchy := by
  obtain ⟨hierarchy, hbuild, hbuilt⟩ := Hierarchy.exists_build hu.nodup_types u.calledSignatures
  obtain ⟨tree, htree⟩ := hu
  have hsame := (ofTree_eq_ok_iff.mp htree).2.2.2.2
  rw [show u.tree.calledSignatures = u.calledSignatures from rfl, hbuild] at hsame
  cases hsame
  exact hbuilt

theorem mem_calledSignatures {id : ElementId}
    (h : (u.kind? id).bind Kind.callSignature? = some signature) :
    signature ∈ u.calledSignatures := by
  obtain ⟨kind, hkind, hsignature⟩ := Option.bind_eq_some_iff.mp h
  obtain ⟨element, helement, rfl⟩ := Option.map_eq_some_iff.mp hkind
  rw [calledSignatures, Tree.calledSignatures, Sorted.mem_ofList, List.mem_filterMap]
  exact ⟨element, Array.mem_toList_iff.mpr (Array.mem_of_getElem? helement), hsignature⟩

/-- The declaring types of calls are known. -/
theorem Accepted.declaring_mem_names (hu : u.Accepted) (h : signature ∈ u.calledSignatures)
    (hfqn : signature.declaringType.fqn? = some fqn) : fqn ∈ u.hierarchy.names :=
  (hu.hierarchy_built.mem_names_iff fqn).mpr (Or.inr (Or.inl ⟨signature, h, hfqn⟩))

end CompilationUnit
end ValueFlow
