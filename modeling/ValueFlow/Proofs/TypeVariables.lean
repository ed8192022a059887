/-
  ValueFlow.Proofs.TypeVariables

  When a declared signature becomes that of a call.

  Type variables are bound one type after the other, the result first, and the first binding
  of a variable counts. That finds an assignment of types to variables if there is one: an
  assignment that agrees with the bindings so far and turns the next declared type into that
  of the call is one that agrees with the bindings after it (`Bindings.agrees_solve_iff`). But a
  variable is bound only where it stands alone, while an array over a variable stays as it is.
  So the answer is right for all calls exactly if no variable stands inside an array.
-/

import ValueFlow.Flow.Resolve

namespace ValueFlow

/-! ## Assignments to type variables -/

namespace TypeRef

/-- A type with its variables replaced at every depth. -/
def subst (assigned : String → TypeRef) : TypeRef → TypeRef
  | .typeVar name => assigned name
  | .array element => .array (element.subst assigned)
  | other => other

/-- A type with its variables replaced where they stand alone. -/
def substOuter (assigned : String → TypeRef) : TypeRef → TypeRef
  | .typeVar name => assigned name
  | other => other

/-- Whether a variable occurs in a type, at any depth. -/
def hasVar : TypeRef → Bool
  | .typeVar _ => true
  | .array element => element.hasVar
  | _ => false

/-- Whether a variable stands inside an array. -/
def hidesVar : TypeRef → Bool
  | .array element => element.hasVar
  | _ => false

variable {type : TypeRef} {assigned : String → TypeRef}

theorem subst_eq_self (h : type.hasVar = false) : type.subst assigned = type := by
  induction type with
  | array element ih => rw [subst, ih h]
  | typeVar name => cases h
  | _ => rfl

theorem hasVar_subst (h : ∀ name, (assigned name).hasVar = false) (type : TypeRef) :
    (type.subst assigned).hasVar = false := by
  induction type with
  | array element ih => exact ih
  | typeVar name => exact h name
  | _ => rfl

theorem substOuter_eq_subst (h : type.hidesVar = false) :
    type.substOuter assigned = type.subst assigned := by
  cases type with
  | array element => exact congrArg array (subst_eq_self h).symm
  | _ => rfl

/-- A type that is replaced at its outside only keeps a variable that stands inside an array. -/
theorem hasVar_substOuter (h : type.hidesVar = true) : (type.substOuter assigned).hasVar = true := by
  cases type with
  | array element => exact h
  | _ => cases h

theorem substOuter_typeVar (type : TypeRef) : type.substOuter .typeVar = type := by
  cases type <;> rfl

end TypeRef

namespace Signature

/-! ## Bindings -/

section Bindings

variable {bindings : Bindings} {assigned : String → TypeRef} {access declared : TypeRef}

/-- An assignment gives each bound variable what it is bound to. -/
def Bindings.Agrees (bindings : Bindings) (assigned : String → TypeRef) : Prop :=
  ∀ name bound, Sorted.find? name bindings = some bound → assigned name = bound

/-- Some assignment agrees with given bindings. -/
theorem Bindings.exists_agrees (bindings : Bindings) : ∃ assigned, bindings.Agrees assigned := by
  refine ⟨fun name => (Sorted.find? name bindings).getD .unknown, fun name bound hfind => ?_⟩
  exact congrArg (·.getD .unknown) hfind

theorem Bindings.agrees_put_iff {name : String} (hfree : Sorted.find? name bindings = none) :
    Bindings.Agrees (Sorted.put name access bindings) assigned ↔
      bindings.Agrees assigned ∧ assigned name = access := by
  refine ⟨fun h => ⟨fun other bound hbound => ?_, ?_⟩, fun h other bound hbound => ?_⟩
  · refine h other bound ?_
    have hne : other ≠ name := by
      rintro rfl
      cases hfree.symm.trans hbound
    rw [Sorted.find?_put, if_neg hne, hbound]
  · exact h name access (by rw [Sorted.find?_put, if_pos rfl])
  · rw [Sorted.find?_put] at hbound
    split at hbound
    · next heq => rw [heq, h.2, Option.some.inj hbound]
    · exact h.1 other bound hbound

/-- One step: the assignments that are left if a declared type is solved are those that turn
    it into the type of the call. -/
theorem Bindings.agrees_solve_iff :
    (solve bindings access declared).1 = access ∧
        (solve bindings access declared).2.Agrees assigned ↔
      bindings.Agrees assigned ∧ declared.substOuter assigned = access := by
  cases declared with
  | typeVar name =>
    rw [solve, TypeRef.substOuter]
    cases hfind : Sorted.find? name bindings with
    | some bound =>
      -- The variable is bound: the assignment has to give it this type.
      rw [and_comm]
      exact and_congr_right fun hagrees => by rw [hagrees name bound hfind]
    | none =>
      rw [← agrees_put_iff hfind]
      exact and_iff_right rfl
  | _ => exact and_comm

/-- Many steps: types are solved one after the other exactly if one assignment turns all of
    them into those of the call. -/
theorem solveAll_iff {accesses declareds : List TypeRef}
    (hlength : declareds.length = accesses.length) :
    solveAll bindings accesses declareds = true ↔
      ∃ assigned, bindings.Agrees assigned ∧ declareds.map (·.substOuter assigned) = accesses := by
  induction accesses generalizing bindings declareds with
  | nil =>
    obtain rfl := List.length_eq_zero_iff.mp hlength
    simpa [solveAll] using bindings.exists_agrees
  | cons access accesses ih =>
    obtain ⟨declared, declareds, rfl⟩ := List.exists_cons_of_length_eq_add_one hlength
    rw [solveAll, Bool.and_eq_true, beq_iff_eq, ih (Nat.succ.inj hlength), ← exists_and_left]
    refine exists_congr fun assigned => ?_
    rw [← and_assoc, Bindings.agrees_solve_iff, List.map_cons, List.cons.injEq, and_assoc]

end Bindings

/-! ## Signatures -/

/-- A declared signature is that of a call if its types are changed in some way. -/
structure Becomes (declared call : Signature) (change : TypeRef → TypeRef) : Prop where
  name : declared.name = call.name
  length : declared.parameterTypes.length = call.parameterTypes.length
  modifiers : declared.modifiers = call.modifiers
  returnType : change declared.returnType = call.returnType
  parameterTypes : declared.parameterTypes.map change = call.parameterTypes

/-- The types of a signature, the result first. -/
def types (signature : Signature) : List TypeRef :=
  signature.returnType :: signature.parameterTypes

variable {declared call : Signature} {change other : TypeRef → TypeRef}

theorem Becomes.congr (h : declared.Becomes call change)
    (hsame : ∀ type ∈ declared.types, change type = other type) : declared.Becomes call other where
  name := h.name
  length := h.length
  modifiers := h.modifiers
  returnType := by rw [← hsame _ List.mem_cons_self, h.returnType]
  parameterTypes := by
    rw [← h.parameterTypes]
    exact List.map_congr_left fun type hmem => (hsame type (List.mem_cons_of_mem _ hmem)).symm

theorem length_types (signature : Signature) :
    signature.types.length = signature.parameterTypes.length + 1 := rfl

theorem solvesTo_eq (declared call : Signature) :
    declared.solvesTo call = (declared.name == call.name
      && declared.parameterTypes.length == call.parameterTypes.length
      && declared.modifiers == call.modifiers && solveAll [] call.types declared.types) := rfl

/-- A declared signature becomes that of a call exactly if one assignment turns its types into
    those of the call, where only variables that stand alone are replaced. -/
theorem solvesTo_iff : declared.solvesTo call = true ↔
    ∃ assigned, declared.Becomes call (·.substOuter assigned) := by
  simp only [solvesTo_eq, Bool.and_eq_true, beq_iff_eq]
  constructor
  · rintro ⟨⟨⟨hname, hlength⟩, hmodifiers⟩, hsolved⟩
    rw [solveAll_iff (by rw [length_types, length_types, hlength])] at hsolved
    obtain ⟨assigned, -, htypes⟩ := hsolved
    obtain ⟨hreturn, hparameters⟩ := List.cons.inj htypes
    exact ⟨assigned, hname, hlength, hmodifiers, hreturn, hparameters⟩
  · rintro ⟨assigned, h⟩
    have hfree : Bindings.Agrees [] assigned := fun name bound hfind => by cases hfind
    refine ⟨⟨⟨h.name, h.length⟩, h.modifiers⟩, ?_⟩
    rw [solveAll_iff (by rw [length_types, length_types, h.length])]
    exact ⟨assigned, hfree, List.cons_eq_cons.mpr ⟨h.returnType, h.parameterTypes⟩⟩

/-- A signature becomes itself, type variables and all. -/
theorem solvesTo_self (signature : Signature) : signature.solvesTo signature = true := by
  refine solvesTo_iff.mpr ⟨.typeVar, rfl, rfl, rfl, TypeRef.substOuter_typeVar _, ?_⟩
  simp only [TypeRef.substOuter_typeVar, List.map_id']

/-- A signature with all its types changed. -/
def mapTypes (signature : Signature) (change : TypeRef → TypeRef) : Signature :=
  { signature with
    parameterTypes := signature.parameterTypes.map change
    returnType := change signature.returnType }

theorem becomes_mapTypes (signature : Signature) (change : TypeRef → TypeRef) :
    signature.Becomes (signature.mapTypes change) change :=
  ⟨rfl, (List.length_map _).symm, rfl, rfl, rfl⟩

theorem Becomes.mem_types (h : declared.Becomes call change) {type : TypeRef}
    (hmem : type ∈ declared.types) : change type ∈ call.types := by
  rcases List.mem_cons.mp hmem with rfl | hmem
  · rw [h.returnType]
    exact List.mem_cons_self
  · rw [types, ← h.parameterTypes]
    exact List.mem_cons_of_mem _ (List.mem_map_of_mem hmem)

theorem types_mapTypes (signature : Signature) (change : TypeRef → TypeRef) :
    (signature.mapTypes change).types = signature.types.map change := rfl

/-- Type variables are bound where they stand alone, and the first binding of a variable loses
    no assignment. A declared signature is solved for every call as if they were bound at every
    depth exactly if none of them stands inside an array. -/
theorem solvesTo_exact (declared : Signature) :
    (∀ call, declared.solvesTo call = true ↔
      ∃ assigned, declared.Becomes call (·.substOuter assigned)) ∧
    ((∀ call, declared.solvesTo call = true ↔
        ∃ assigned, declared.Becomes call (·.subst assigned)) ↔
      ∀ type ∈ declared.types, type.hidesVar = false) := by
  refine ⟨fun call => solvesTo_iff, fun h type hmem => ?_, fun h call => ?_⟩
  · -- Put a type without variables for all of them: this call is not solved if one is left.
    let plain : String → TypeRef := fun _ => .unknown
    obtain ⟨assigned, hbecomes⟩ := solvesTo_iff.mp
      ((h (declared.mapTypes (·.subst plain))).mpr ⟨plain, declared.becomes_mapTypes _⟩)
    have hplain : ∀ access ∈ (declared.mapTypes (·.subst plain)).types, access.hasVar = false := by
      intro access haccess
      rw [types_mapTypes] at haccess
      obtain ⟨source, -, rfl⟩ := List.mem_map.mp haccess
      exact TypeRef.hasVar_subst (fun _ => rfl) source
    cases hhides : type.hidesVar with
    | false => rfl
    | true =>
      have hleft : (type.substOuter assigned).hasVar = true := TypeRef.hasVar_substOuter hhides
      rw [hplain _ (hbecomes.mem_types hmem)] at hleft
      cases hleft
  · rw [solvesTo_iff]
    refine exists_congr fun assigned => ⟨fun hbecomes => ?_, fun hbecomes => ?_⟩
    · exact hbecomes.congr fun type hmem => TypeRef.substOuter_eq_subst (h type hmem)
    · exact hbecomes.congr fun type hmem => (TypeRef.substOuter_eq_subst (h type hmem)).symm

/-- `void first(T[])`. -/
def firstOver (element : TypeRef) : Signature :=
  ⟨.named "A", "first", [.array element], .primitive .void, ⟨0⟩⟩

/-- `void fill(T[], T)`. -/
def fillWith (element value : TypeRef) : Signature :=
  ⟨.named "A", "fill", [.array element, value], .primitive .void, ⟨0⟩⟩

/-- `first(T[])` is not solved for an array of strings, although `T` can be `String`; and
    `fill(T[], T)` is solved for an array over the `T` of the caller and a string, although no
    type for `T` gives both. -/
theorem variable_inside_array_not_solved :
    ((∃ assigned, (firstOver (.typeVar "T")).Becomes (firstOver .string) (·.subst assigned)) ∧
      (firstOver (.typeVar "T")).solvesTo (firstOver .string) = false) ∧
    (¬ ∃ assigned, (fillWith (.typeVar "T") (.typeVar "T")).Becomes
        (fillWith (.typeVar "T") .string) (·.subst assigned)) ∧
      (fillWith (.typeVar "T") (.typeVar "T")).solvesTo (fillWith (.typeVar "T") .string) = true := by
  refine ⟨⟨⟨fun _ => .string, rfl, rfl, rfl, rfl, rfl⟩, by decide⟩, ?_, by decide⟩
  rintro ⟨assigned, h⟩
  obtain ⟨harray, hrest⟩ := List.cons.inj h.parameterTypes
  have hself : assigned "T" = .typeVar "T" := TypeRef.array.inj harray
  have hstring : assigned "T" = .string := (List.cons.inj hrest).1
  cases hself.symm.trans hstring

end Signature
end ValueFlow
