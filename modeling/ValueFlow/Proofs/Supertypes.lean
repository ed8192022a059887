/-
  ValueFlow.Proofs.Supertypes

  The supertypes of a type are the least set that it demands.

  A set of types is closed upwards if it has what the declaration of each member names, and
  the root class for each member whose declaration names nothing. The parents of a hierarchy
  lead from a closed set nowhere else, and what they lead to is closed. Declarations may form
  cycles; the search ends all the same, since it goes on from no type a second time.
-/

import ValueFlow.Proofs.Hierarchy
import Mathlib.Order.Bounds.Defs

namespace ValueFlow

/-! ## Sets closed upwards -/

/-- A set of types that has what the declarations of its members name, and the root class for
    each further type for which no declaration names anything. -/
structure TypeDecl.ClosedUpwards (decls : List TypeDecl) (set : Set String) : Prop where
  declared : ∀ decl ∈ decls, decl.fqn ∈ set → ∀ sup ∈ decl.parents, sup ∈ set
  root : ∀ fqn ∈ set, fqn ≠ objectName →
    (∀ decl ∈ decls, decl.fqn = fqn → decl.parents = []) → objectName ∈ set

namespace Hierarchy

variable {decls : List TypeDecl} {called : List Signature} {hierarchy : Hierarchy} {x y : String}

theorem not_extends_iff : (∀ sup, ¬ TypeDecl.Extends decls x sup) ↔
    ∀ decl ∈ decls, decl.fqn = x → decl.parents = [] := by
  simp only [TypeDecl.Extends, not_exists, not_and, List.eq_nil_iff_forall_not_mem]
  exact ⟨fun h decl hdecl hfqn sup => h sup decl hdecl hfqn,
    fun h sup decl hdecl hfqn => h decl hdecl hfqn sup⟩

theorem supertypes_of_not_known (h : hierarchy.knows x = false) : hierarchy.supertypes x = [x] := by
  rw [supertypes, h]
  rfl

section Built

variable (hbuilt : Built decls called hierarchy)
include hbuilt

/-- The parents of a member of a set that is closed upwards are members. -/
theorem Built.mem_of_closedUpwards {set : Set String}
    (hset : TypeDecl.ClosedUpwards decls set) (hx : x ∈ set) (h : y ∈ hierarchy.parents x) :
    y ∈ set := by
  rcases (hbuilt.mem_parents_iff x y).mp h with ⟨decl, hdecl, rfl, hsup⟩ | ⟨-, hne, hnone, rfl⟩
  · exact hset.declared decl hdecl hx y hsup
  · exact hset.root x hx hne (not_extends_iff.mp hnone)

/-- What is known and closed under parents is closed upwards. -/
theorem Built.closedUpwards_of_parents {set : Set String}
    (hknown : ∀ fqn ∈ set, fqn ∈ hierarchy.names)
    (hset : ∀ fqn ∈ set, ∀ sup ∈ hierarchy.parents fqn, sup ∈ set) :
    TypeDecl.ClosedUpwards decls set where
  declared decl hdecl hmem sup hsup :=
    hset _ hmem sup ((hbuilt.mem_parents_iff _ _).mpr (Or.inl ⟨decl, hdecl, rfl, hsup⟩))
  root fqn hmem hne hnone := hset fqn hmem _ ((hbuilt.mem_parents_iff _ _).mpr
    (Or.inr ⟨hknown fqn hmem, hne, not_extends_iff.mpr hnone, rfl⟩))

/-- Everything above a known type is known. -/
theorem Built.mem_names_of_reach (hx : x ∈ hierarchy.names)
    (h : Search.Reach hierarchy.parents x y) : y ∈ hierarchy.names :=
  h.mem_of_closed (P := (· ∈ hierarchy.names)) (fun _ _ _ => hbuilt.mem_names_of_mem_parents) hx

theorem Built.isLeast_supertypes (hx : x ∈ hierarchy.names) :
    IsLeast {set | x ∈ set ∧ TypeDecl.ClosedUpwards decls set}
      {sup | sup ∈ hierarchy.supertypes x} := by
  simp only [hbuilt.mem_supertypes_iff hx]
  refine ⟨⟨.refl, ?_⟩, ?_⟩
  · exact hbuilt.closedUpwards_of_parents (fun fqn => hbuilt.mem_names_of_reach hx)
      fun fqn hreach sup hsup => hreach.tail hsup
  · rintro set ⟨hstart, hset⟩ sup hreach
    exact Search.Reach.mem_of_closed (fun _ hmem _ => hbuilt.mem_of_closedUpwards hset hmem)
      hreach hstart

theorem Built.ends_supertypes (hx : x ∈ hierarchy.names) :
    ∃ found, Search.Ends hierarchy.parents [] [x] found ∧
      hierarchy.supertypes x = Sorted.ofList found := by
  have hends := @Search.ends_closure _ _ hierarchy.parents hierarchy.names hierarchy.types.length
    [x] (by simpa using hx) (fun _ _ _ => hbuilt.mem_names_of_mem_parents)
    (by rw [names, List.length_map])
  exact ⟨_, hends, by rw [supertypes, if_pos (knows_iff.mpr hx)]⟩

theorem Built.supertypes_subset (h : y ∈ hierarchy.supertypes x) :
    hierarchy.supertypes y ⊆ hierarchy.supertypes x := by
  cases hknows : hierarchy.knows x with
  | false =>
    rw [supertypes_of_not_known hknows, List.mem_singleton] at h
    rw [h]
    exact List.Subset.refl _
  | true =>
    have hx := knows_iff.mp hknows
    rw [hbuilt.mem_supertypes_iff hx] at h
    intro sup hsup
    rw [hbuilt.mem_supertypes_iff (hbuilt.mem_names_of_reach hx h)] at hsup
    exact (hbuilt.mem_supertypes_iff hx).mpr (h.trans hsup)

end Built
end Hierarchy

/-! ## The supertypes of a unit -/

namespace CompilationUnit

variable {u : CompilationUnit}

/-- A type that is not known has only itself as a supertype. The supertypes of a known type are
    the least set with it that is closed upwards; the search for them ends, whatever cycles
    there are. The supertypes of a supertype are supertypes. -/
theorem supertypes_exact (hu : u.Accepted) (fqn : String) :
    (u.hierarchy.knows fqn = true ↔
      (∃ decl ∈ u.tree.types, fqn = decl.fqn ∨ fqn ∈ decl.parents) ∨
      (∃ signature ∈ u.calledSignatures, signature.declaringType.fqn? = some fqn) ∨
      fqn = objectName) ∧
    (u.hierarchy.knows fqn = false → u.hierarchy.supertypes fqn = [fqn]) ∧
    (u.hierarchy.knows fqn = true →
      IsLeast {set | fqn ∈ set ∧ TypeDecl.ClosedUpwards u.tree.types set}
        {sup | sup ∈ u.hierarchy.supertypes fqn} ∧
      ∃ found, Search.Ends u.hierarchy.parents [] [fqn] found ∧
        u.hierarchy.supertypes fqn = Sorted.ofList found) ∧
    ∀ sup ∈ u.hierarchy.supertypes fqn,
      u.hierarchy.supertypes sup ⊆ u.hierarchy.supertypes fqn := by
  have hbuilt := hu.hierarchy_built
  refine ⟨?_, Hierarchy.supertypes_of_not_known, fun hknows => ?_, fun sup hsup => ?_⟩
  · rw [Hierarchy.knows_iff]
    exact hbuilt.mem_names_iff fqn
  · have hknown := Hierarchy.knows_iff.mp hknows
    exact ⟨hbuilt.isLeast_supertypes hknown, hbuilt.ends_supertypes hknown⟩
  · exact hbuilt.supertypes_subset hsup

/-- Two classes that extend each other, one of which implements an interface that is not
    declared. -/
def mutualTree : Tree where
  root := ⟨0⟩
  elements := #[⟨none, .compilationUnit "" []⟩]
  types := [⟨"A", some "B", [], false, []⟩, ⟨"B", some "A", ["I"], false, []⟩]

/-- The unit of that tree. -/
def mutualUnit : CompilationUnit :=
  (ofTree mutualTree).toOption.get (by decide +kernel)

/-- Each class of a cycle has the other one above it, and the root class through the
    interface. -/
theorem supertypes_exact_mutualUnit :
    mutualUnit.Accepted ∧ mutualUnit.hierarchy.knows "A" = true ∧
      mutualUnit.hierarchy.supertypes "A" = ["A", "B", "I", objectName] ∧
      IsLeast {set | "A" ∈ set ∧ TypeDecl.ClosedUpwards mutualTree.types set}
        {sup | sup ∈ ["A", "B", "I", objectName]} := by
  have hu : mutualUnit.Accepted := ⟨mutualTree, eq_ok_get _⟩
  have hknows : mutualUnit.hierarchy.knows "A" = true := by decide +kernel
  have hsupertypes : mutualUnit.hierarchy.supertypes "A" = ["A", "B", "I", objectName] := by
    decide +kernel
  have htypes : mutualUnit.tree.types = mutualTree.types := by decide +kernel
  have hleast := ((supertypes_exact hu "A").2.2.1 hknows).1
  rw [hsupertypes, htypes] at hleast
  exact ⟨hu, hknows, hsupertypes, hleast⟩

end CompilationUnit
end ValueFlow
