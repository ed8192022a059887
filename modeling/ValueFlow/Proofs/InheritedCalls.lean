/-
  ValueFlow.Proofs.InheritedCalls

  Which method a call names if its class inherits it.

  The superclasses are searched for the first class that lists a method which becomes the
  call, and this class is the same whether the call names the class itself or one below it.
  Within it, a method that is the call stands before one that becomes it. But to be the
  call is to have its declaring type too, so that this holds for direct calls only: an
  inherited call names the first method that becomes it, even if the class overloads that
  method with the very types of the call further down.
-/

import ValueFlow.Proofs.Tree
import ValueFlow.Proofs.TypeVariables

namespace ValueFlow

/-! ## Methods that become a call -/

namespace Signature

/-- A signature seen in another type. -/
def inType (signature : Signature) (declaringType : TypeRef) : Signature :=
  { signature with declaringType := declaringType }

/-- Which type a call names has no part in which methods become it. -/
theorem solvesTo_inType (method call : Signature) (declaringType : TypeRef) :
    method.solvesTo (call.inType declaringType) = method.solvesTo call := rfl

end Signature

/-! ## Within a class -/

namespace TypeDecl

variable {decl : TypeDecl} {call method : Signature}

/-- The call itself if it is listed, or else the first method that becomes it. -/
theorem resolve?_eq (decl : TypeDecl) (call : Signature) :
    decl.resolve? call = if call ∈ decl.methods then some call
      else decl.methods.find? fun method => method.solvesTo call := by
  rw [resolve?]
  split
  · next hmem =>
    have hsome : (decl.methods.find? (· == call)).isSome = true :=
      List.find?_isSome.mpr ⟨call, hmem, beq_self_eq_true call⟩
    obtain ⟨found, hfound⟩ := Option.isSome_iff_exists.mp hsome
    have hsame : found = call := beq_iff_eq.mp (List.find?_some (p := (· == call)) hfound)
    rw [hfound, hsame, Option.some_or]
  · next hmem =>
    have hnone : decl.methods.find? (· == call) = none := by
      rw [List.find?_eq_none]
      intro method hmethod heq
      exact hmem (beq_iff_eq.mp heq ▸ hmethod)
    rw [hnone, Option.none_or]

theorem resolve?_eq_none_iff :
    decl.resolve? call = none ↔ ∀ method ∈ decl.methods, method.solvesTo call = false := by
  rw [resolve?_eq]
  split
  · next hmem =>
    refine ⟨fun hnone => absurd hnone (Option.some_ne_none call), fun hall => ?_⟩
    cases call.solvesTo_self.symm.trans (hall call hmem)
  · simp

theorem mem_of_resolve? (h : decl.resolve? call = some method) :
    method ∈ decl.methods ∧ method.solvesTo call = true := by
  rw [resolve?_eq] at h
  split at h
  · next hmem =>
    cases h
    exact ⟨hmem, call.solvesTo_self⟩
  · exact ⟨List.mem_of_find?_eq_some h,
      List.find?_some (p := fun other : Signature => other.solvesTo call) h⟩

/-- A call through another type names the same method exactly if no method before it becomes
    the call, and if the call, should it be listed with its own type, is that method. -/
theorem resolve?_eq_some_iff_of_inType {declaringType : TypeRef}
    (hother : call.inType declaringType ≠ call)
    (h : decl.resolve? (call.inType declaringType) = some method) :
    decl.resolve? call = some method ↔
      (∃ before after, decl.methods = before ++ method :: after ∧
        ∀ earlier ∈ before, earlier.solvesTo call = false) ∧
      (call ∈ decl.methods → method = call) := by
  have hsolves := (mem_of_resolve? h).2
  rw [Signature.solvesTo_inType] at hsolves
  have hfirst : decl.methods.find? (fun other => other.solvesTo call) = some method ↔
      ∃ before after, decl.methods = before ++ method :: after ∧
        ∀ earlier ∈ before, earlier.solvesTo call = false := by
    rw [List.find?_eq_some_iff_append]
    simp [hsolves]
  rw [← hfirst, resolve?_eq decl call]
  split
  · next hmem =>
    refine ⟨fun heq => ?_, fun hboth => congrArg some (hboth.2 hmem).symm⟩
    -- The method is not the call through the other type, so it is the first that becomes it.
    cases heq
    rw [resolve?_eq] at h
    split at h
    · exact absurd (Option.some.inj h) hother
    · exact ⟨h, fun _ => rfl⟩
  · next hmem => exact ⟨fun heq => ⟨heq, fun hcall => absurd hcall hmem⟩, And.left⟩

end TypeDecl

/-! ## Up the superclasses -/

namespace CompilationUnit

variable {u : CompilationUnit} {call : Signature} {fqn : String} {decl : TypeDecl}

variable (u call) in
/-- The first class, among one and its superclasses, that lists a method which becomes a
    call. -/
inductive FirstListing : String → TypeDecl → Prop where
  | here {fqn : String} {decl : TypeDecl} {method : Signature} :
      u.declaredType? fqn = some decl → method ∈ decl.methods → method.solvesTo call = true →
      FirstListing fqn decl
  | above {fqn above : String} {decl listing : TypeDecl} :
      u.declaredType? fqn = some decl →
      (∀ method ∈ decl.methods, method.solvesTo call = false) → decl.supertype = some above →
      FirstListing above listing → FirstListing fqn listing

theorem resolveUpTo_succ (bound : Nat) (h : u.declaredType? fqn = some decl) :
    u.resolveUpTo call (bound + 1) (some fqn) =
      (decl.resolve? call).or (u.resolveUpTo call bound decl.supertype) := by
  simp only [resolveUpTo, Option.bind_some, h]
  cases decl.resolve? call <;> rfl

theorem FirstListing.resolve?_ne_none (h : FirstListing u call fqn decl) :
    decl.resolve? call ≠ none := by
  induction h with
  | @here _ _ method _ hmethod hsolves =>
    intro hnone
    cases hsolves.symm.trans (TypeDecl.resolve?_eq_none_iff.mp hnone method hmethod)
  | above _ _ _ _ ih => exact ih

/-- The classes on the way to the first that lists a method. As many steps as there are of
    them are needed and enough, and no class occurs twice: it would be searched with fewer
    steps left the second time. -/
theorem FirstListing.exists_passed (h : FirstListing u call fqn decl) :
    ∃ passed : List TypeDecl, passed.Nodup ∧ passed ⊆ u.tree.types ∧
      (∀ bound < passed.length, u.resolveUpTo call bound (some fqn) = none) ∧
      (∀ bound, passed.length ≤ bound →
        u.resolveUpTo call bound (some fqn) = decl.resolve? call) ∧
      ∀ other ∈ passed, ∃ bound < passed.length,
        (other.resolve? call).or (u.resolveUpTo call bound other.supertype) ≠ none := by
  induction h with
  | @here fqn decl method hdecl hmethod hsolves =>
    obtain ⟨found, hfound⟩ := Option.ne_none_iff_exists'.mp
      (FirstListing.here hdecl hmethod hsolves).resolve?_ne_none
    refine ⟨[decl], List.nodup_singleton _, ?_, ?_, ?_, ?_⟩
    · exact List.cons_subset.mpr ⟨List.mem_of_find?_eq_some hdecl, List.nil_subset _⟩
    · intro bound hbound
      obtain rfl : bound = 0 := Nat.lt_one_iff.mp hbound
      rfl
    · intro bound hbound
      obtain ⟨bound, rfl⟩ := Nat.exists_eq_add_of_le' hbound
      rw [List.length_singleton, resolveUpTo_succ _ hdecl, hfound, Option.some_or]
    · intro other hother
      obtain rfl := List.mem_singleton.mp hother
      exact ⟨0, Nat.zero_lt_one, by simp [hfound]⟩
  | @above fqn above decl listing hdecl hnone habove hlisting ih =>
    obtain ⟨passed, hnodup, htypes, hbefore, hafter, hleft⟩ := ih
    have hfound := hlisting.resolve?_ne_none
    have hnone := TypeDecl.resolve?_eq_none_iff.mpr hnone
    have hstep : ∀ bound, u.resolveUpTo call (bound + 1) (some fqn) =
        u.resolveUpTo call bound (some above) := by
      intro bound
      rw [resolveUpTo_succ bound hdecl, hnone, Option.none_or, habove]
    refine ⟨decl :: passed, ?_, ?_, ?_, ?_, ?_⟩
    · -- A class passed later is left with a bound that is too small for this one.
      refine List.nodup_cons.mpr ⟨fun hmem => ?_, hnodup⟩
      obtain ⟨bound, hbound, hne⟩ := hleft decl hmem
      rw [hnone, Option.none_or, habove] at hne
      exact hne (hbefore bound hbound)
    · exact List.cons_subset.mpr ⟨List.mem_of_find?_eq_some hdecl, htypes⟩
    · intro bound hbound
      cases bound with
      | zero => rfl
      | succ bound => exact (hstep bound).trans (hbefore bound (Nat.lt_of_succ_lt_succ hbound))
    · intro bound hbound
      obtain ⟨more, rfl⟩ := Nat.exists_eq_add_of_le' hbound
      exact (hstep _).trans (hafter _ (Nat.le_add_left _ _))
    · intro other hother
      rcases List.mem_cons.mp hother with rfl | hother
      · refine ⟨passed.length, Nat.lt_succ_self _, ?_⟩
        rw [hnone, Option.none_or, habove, hafter _ (Nat.le_refl _)]
        exact hfound
      · obtain ⟨bound, hbound, hne⟩ := hleft other hother
        exact ⟨bound, Nat.lt_succ_of_lt hbound, hne⟩

/-- A search finds nothing outside the first class that lists a method. -/
theorem exists_firstListing {bound : Nat} (h : u.resolveUpTo call bound (some fqn) ≠ none) :
    ∃ decl, FirstListing u call fqn decl := by
  induction bound generalizing fqn with
  | zero => exact absurd rfl h
  | succ bound ih =>
    cases hdecl : u.declaredType? fqn with
    | none =>
      rw [resolveUpTo, Option.bind_some, hdecl] at h
      exact absurd rfl h
    | some decl =>
      rw [resolveUpTo_succ bound hdecl] at h
      by_cases hall : ∀ method ∈ decl.methods, method.solvesTo call = false
      · rw [TypeDecl.resolve?_eq_none_iff.mpr hall, Option.none_or] at h
        cases habove : decl.supertype with
        | none =>
          rw [habove] at h
          cases bound <;> exact absurd rfl h
        | some above =>
          rw [habove] at h
          obtain ⟨listing, hlisting⟩ := ih h
          exact ⟨listing, .above hdecl hall habove hlisting⟩
      · push Not at hall
        obtain ⟨method, hmethod, hsolves⟩ := hall
        exact ⟨decl, .here hdecl hmethod (eq_true_of_ne_false hsolves)⟩

/-! ## The declaration of a call -/

/-- A call names a method of the first class that lists one. -/
theorem FirstListing.resolve?_eq_declarationOf (h : FirstListing u call fqn decl)
    (hname : call.declaringType = .named fqn) :
    decl.resolve? call = some (u.declarationOf call) := by
  obtain ⟨passed, hnodup, htypes, -, hafter, -⟩ := h.exists_passed
  obtain ⟨method, hmethod⟩ := Option.ne_none_iff_exists'.mp h.resolve?_ne_none
  have hsearch := hafter u.tree.types.length (List.subperm_of_subset hnodup htypes).length_le
  rw [declarationOf, hname, TypeRef.fqn?, hsearch, hmethod, Option.getD_some]

/-- A call that no class lists a method for is left as it is. -/
theorem declarationOf_eq_self (hname : call.declaringType = .named fqn)
    (hnone : ∀ decl, ¬ FirstListing u call fqn decl) : u.declarationOf call = call := by
  rw [declarationOf, hname, TypeRef.fqn?]
  cases hsearch : u.resolveUpTo call u.tree.types.length (some fqn) with
  | none => rfl
  | some method =>
    obtain ⟨decl, hdecl⟩ := exists_firstListing (hsearch ▸ Option.some_ne_none method)
    exact absurd hdecl (hnone decl)

theorem FirstListing.inType (h : FirstListing u call fqn decl) (declaringType : TypeRef) :
    FirstListing u (call.inType declaringType) fqn decl := by
  induction h with
  | here hdecl hmethod hsolves => exact .here hdecl hmethod hsolves
  | above hdecl hnone habove _ ih => exact .above hdecl hnone habove ih

/-- Above a class that lists nothing for a call, the search goes on. -/
theorem firstListing_iff_above {above : String} (hdecl : u.declaredType? fqn = some decl)
    (hnone : ∀ method ∈ decl.methods, method.solvesTo call = false)
    (habove : decl.supertype = some above) {listing : TypeDecl} :
    FirstListing u call fqn listing ↔ FirstListing u call above listing := by
  refine ⟨fun h => ?_, .above hdecl hnone habove⟩
  cases h with
  | here hdecl' hmethod hsolves =>
    cases hdecl.symm.trans hdecl'
    cases (hnone _ hmethod).symm.trans hsolves
  | above hdecl' _ habove' hlisting =>
    cases hdecl.symm.trans hdecl'
    cases habove.symm.trans habove'
    exact hlisting

/-- A class that is its own superclass and lists nothing for a call never leads to one that
    does. -/
theorem not_firstListing_of_self (hdecl : u.declaredType? fqn = some decl)
    (hnone : ∀ method ∈ decl.methods, method.solvesTo call = false)
    (hself : decl.supertype = some fqn) (listing : TypeDecl) :
    ¬ FirstListing u call fqn listing := by
  intro h
  induction h with
  | here hdecl' hmethod hsolves =>
    cases hdecl.symm.trans hdecl'
    cases (hnone _ hmethod).symm.trans hsolves
  | above hdecl' _ habove' _ ih =>
    cases hdecl.symm.trans hdecl'
    cases hself.symm.trans habove'
    exact ih hdecl hself

/-- A call through a class that lists nothing for it and the direct call to the superclass
    name methods of the same class. These are the same method exactly if no method before
    the one that the direct call names becomes the call, and if the class does not list the
    inherited call itself besides. -/
theorem inherited_call_named_like_direct_iff {sub sup : String} {derived : TypeDecl}
    (hderived : u.declaredType? sub = some derived) (hsup : derived.supertype = some sup)
    (hcall : call.declaringType = .named sub)
    (hnone : ∀ method ∈ derived.methods, method.solvesTo call = false) :
    let direct := call.inType (.named sup)
    (∀ decl, FirstListing u call sub decl ↔ FirstListing u direct sup decl) ∧
    (∀ decl, FirstListing u direct sup decl →
      u.declarationOf direct ∈ decl.methods ∧ u.declarationOf call ∈ decl.methods ∧
      (u.declarationOf call = u.declarationOf direct ↔
        (∃ before after, decl.methods = before ++ u.declarationOf direct :: after ∧
          ∀ earlier ∈ before, earlier.solvesTo call = false) ∧
        (call ∈ decl.methods → u.declarationOf direct = call))) ∧
    ((∀ decl, ¬ FirstListing u direct sup decl) →
      u.declarationOf direct = direct ∧ u.declarationOf call = call) := by
  intro direct
  have hlisting : ∀ decl, FirstListing u call sub decl ↔ FirstListing u direct sup decl := by
    intro decl
    rw [firstListing_iff_above hderived hnone hsup]
    exact ⟨fun h => h.inType _, fun h => h.inType call.declaringType⟩
  refine ⟨hlisting, fun decl hdirect => ?_, fun hnowhere => ?_⟩
  · have hdirectDecl := hdirect.resolve?_eq_declarationOf rfl
    have hcallDecl := ((hlisting decl).mpr hdirect).resolve?_eq_declarationOf hcall
    -- A class that is its own superclass would be searched for ever.
    have hother : direct ≠ call := by
      intro heq
      obtain rfl : sup = sub :=
        TypeRef.named.inj ((congrArg Signature.declaringType heq).trans hcall)
      exact not_firstListing_of_self hderived hnone hsup decl ((hlisting decl).mpr hdirect)
    refine ⟨(TypeDecl.mem_of_resolve? hdirectDecl).1, (TypeDecl.mem_of_resolve? hcallDecl).1, ?_⟩
    rw [← TypeDecl.resolve?_eq_some_iff_of_inType hother hdirectDecl, hcallDecl,
      Option.some_inj]
  · exact ⟨declarationOf_eq_self rfl hnowhere,
      declarationOf_eq_self hcall fun decl hdecl => hnowhere decl ((hlisting decl).mp hdecl)⟩

/-- A method `id` over a type. -/
def idOver (declaringType : String) (argument : TypeRef) : Signature :=
  ⟨.named declaringType, "id", [argument], argument, ⟨0⟩⟩

/-- A class that lists `T id(T)` and then `String id(String)`, and a class below it. -/
def overloadTree : Tree where
  root := ⟨0⟩
  elements := #[⟨none, .compilationUnit "" []⟩]
  types := [
    ⟨"Base", none, [], false, [idOver "Base" (.typeVar "T"), idOver "Base" .string]⟩,
    ⟨"Derived", some "Base", [], false, []⟩]

/-- The unit of that tree. -/
def overloadUnit : CompilationUnit :=
  (ofTree overloadTree).toOption.get (by decide +kernel)

/-- For `int` there is one method only, which an inherited call names as a direct one does. -/
theorem inherited_call_named_like_direct_iff_overloadUnit :
    ∃ derived, overloadUnit.declaredType? "Derived" = some derived ∧
      derived.supertype = some "Base" ∧
      (∀ method ∈ derived.methods,
        method.solvesTo (idOver "Derived" (.primitive .int)) = false) ∧
      overloadUnit.declarationOf (idOver "Derived" (.primitive .int)) =
        overloadUnit.declarationOf (idOver "Base" (.primitive .int)) := by
  have hderived : overloadUnit.declaredType? "Derived" =
      some ⟨"Derived", some "Base", [], false, []⟩ := by decide +kernel
  have hbase : overloadUnit.declaredType? "Base" =
      some ⟨"Base", none, [], false,
        [idOver "Base" (.typeVar "T"), idOver "Base" .string]⟩ := by decide +kernel
  obtain ⟨-, hsame, -⟩ := @inherited_call_named_like_direct_iff overloadUnit
    (idOver "Derived" (.primitive .int)) "Derived" "Base" _ hderived rfl rfl (by simp)
  obtain ⟨-, -, hiff⟩ := hsame _ (.here hbase List.mem_cons_self (by decide +kernel))
  refine ⟨_, hderived, rfl, by simp, hiff.mpr ⟨⟨[], [idOver "Base" .string], ?_, by simp⟩, ?_⟩⟩
  · decide +kernel
  · decide +kernel

/-- For `String` the direct call names the method over strings and the inherited call the
    one over `T`, which is listed first. -/
theorem inherited_call_names_other_overload :
    overloadUnit.Accepted ∧ ∃ derived base,
      overloadUnit.declaredType? "Derived" = some derived ∧ derived.supertype = some "Base" ∧
      overloadUnit.declaredType? "Base" = some base ∧
      (∀ method ∈ derived.methods, method ≠ idOver "Derived" .string ∧
        method.solvesTo (idOver "Derived" .string) = false) ∧
      overloadUnit.declarationOf (idOver "Base" .string) ∈ base.methods ∧
      overloadUnit.declarationOf (idOver "Derived" .string) ≠
        overloadUnit.declarationOf (idOver "Base" .string) := by
  refine ⟨⟨overloadTree, eq_ok_get _⟩, ⟨"Derived", some "Base", [], false, []⟩,
    ⟨"Base", none, [], false, [idOver "Base" (.typeVar "T"), idOver "Base" .string]⟩, ?_⟩
  decide +kernel

end CompilationUnit
end ValueFlow
