/-
  ValueFlow.Proofs.DraftedUnits

  Units that were written step by step are well formed.

  Parts are written before the element that owns them, with one exception: a method becomes a
  member of a class that was written before it. An invariant says of each element of a draft
  what its kind promises (`Draft.Fits`): its parts are earlier, a class is listed for the root,
  a method is the member of a class, and an identifier stands for a variable of its name and
  type. Each step keeps the invariant, so that it holds of the whole draft. In the finished
  unit parents are later elements then, up to a class, whose parent is the root. So the parents
  of every element come to an end, also of those that hang on nothing.
-/

import ValueFlow.Draft
import ValueFlow.Proofs.Acceptance

namespace ValueFlow

/-- A parameter or local variable of this name and type; the identifier that declares a local
    variable stands for it. -/
def Declares (kind? : ElementId → Option Kind) (target : ElementId) (name : String)
    (type : TypeRef) : Prop :=
  kind? target = some (.parameter name type) ∨
  ∃ nameId initializer, kind? target = some (.localVar type nameId initializer) ∧
    kind? nameId = some (.identifier name (some target) type)

/-- Whether what an element of this kind has to fit to is earlier parts only. -/
def Kind.isPlain : Kind → Bool
  | .classDecl .. | .method .. | .localVar .. | .identifier _ (some _) _ => false
  | _ => true

namespace Draft

/-! ## Steps that name earlier elements -/

/-- The elements that a step is given. -/
def Step.arguments : Step → List ElementId
  | .declareType .. | .defineClass .. | .parameter .. | .literal .. | .unresolved .. => []
  | .method owner _ parameters body => owner :: (parameters ++ body.toList)
  | .block statements => statements
  | .localVar _ _ initializer => initializer.toList
  | .ret expression => expression.toList
  | .exprStmt expression => [expression]
  | .ifElse condition thenBranch elseBranch => condition :: thenBranch :: elseBranch.toList
  | .whileLoop condition body => [condition, body]
  | .read variableId => [variableId]
  | .call select _ arguments => select.toList ++ arguments
  | .callUnresolved select _ arguments => select.toList ++ arguments
  | .construct _ arguments => arguments
  | .binary _ left right _ => [left, right]
  | .assign variableId value => [variableId, value]
  | .parens expression => [expression]
  | .cast _ expression => [expression]
  | .ternary condition whenTrue whenFalse _ => [condition, whenTrue, whenFalse]

/-- Each step is given elements only that earlier steps have added. -/
def Scoped : Draft → List Step → Prop
  | _, [] => True
  | draft, step :: steps =>
    (∀ id ∈ step.arguments, id.place < draft.kinds.size) ∧ (draft.perform step).1.Scoped steps

instance decidableScoped :
    (draft : Draft) → (steps : List Step) → Decidable (draft.Scoped steps)
  | _, [] => isTrue trivial
  | draft, step :: steps =>
    have := decidableScoped (draft.perform step).1 steps
    inferInstanceAs (Decidable
      ((∀ id ∈ step.arguments, id.place < draft.kinds.size) ∧
        (draft.perform step).1.Scoped steps))

/-! ## The invariant -/

/-- What an element of a draft promises. A method counts on its class only while there was no
    mistake. -/
structure Fits (draft : Draft) (id : ElementId) (kind : Kind) : Prop where
  earlier : kind.isClass = false → ∀ child ∈ kind.children, child.place < id.place
  listed : kind.isClass = true → id ∈ draft.classes
  owned : ∀ signature parameters body, kind = .method signature parameters body →
    draft.firstError = none → parameters.length = signature.parameterTypes.length ∧
      ∃ owner fqn members, draft.kind? owner = some (.classDecl fqn members) ∧ id ∈ members
  designates : ∀ name target type, kind = .identifier name (some target) type →
    Declares draft.kind? target name type
  named : ∀ type nameId initializer, kind = .localVar type nameId initializer →
    ∃ name, draft.kind? nameId = some (.identifier name (some id) type)

/-- All elements of a draft keep what they promise. -/
def Sound (draft : Draft) : Prop := ∀ id kind, draft.kind? id = some kind → draft.Fits id kind

/-- What an element may become: a class gets further members. -/
inductive Kept : Kind → Kind → Prop where
  | same {kind : Kind} : Kept kind kind
  | members {fqn : String} {members more : List ElementId} :
      Kept (.classDecl fqn members) (.classDecl fqn (members ++ more))

/-- A later draft: all elements are there, and mistakes are not forgotten. -/
structure Grown (draft next : Draft) : Prop where
  kept : ∀ id kind, draft.kind? id = some kind →
    ∃ after, next.kind? id = some after ∧ Kept kind after
  classes : ∀ id ∈ draft.classes, id ∈ next.classes
  mistakes : next.firstError = none → draft.firstError = none

section Grown

variable {draft next : Draft} {id : ElementId} {kind : Kind}

theorem Grown.kind? (hgrown : Grown draft next) (hkind : draft.kind? id = some kind)
    (hclass : kind.isClass = false) : next.kind? id = some kind := by
  obtain ⟨after, hafter, hkept⟩ := hgrown.kept id kind hkind
  cases hkept with
  | same => exact hafter
  | members => cases hclass

theorem Grown.declares (hgrown : Grown draft next) {target : ElementId} {name : String}
    {type : TypeRef} (h : Declares draft.kind? target name type) :
    Declares next.kind? target name type := by
  rcases h with hparameter | ⟨nameId, initializer, hlocal, hname⟩
  · exact Or.inl (hgrown.kind? hparameter rfl)
  · exact Or.inr ⟨nameId, initializer, hgrown.kind? hlocal rfl, hgrown.kind? hname rfl⟩

/-- Promises are kept in later drafts. -/
theorem Fits.grow (h : draft.Fits id kind) (hgrown : Grown draft next) : next.Fits id kind where
  earlier := h.earlier
  listed hclass := hgrown.classes id (h.listed hclass)
  owned signature parameters body heq hnone := by
    obtain ⟨hlength, owner, fqn, members, howner, hmem⟩ :=
      h.owned signature parameters body heq (hgrown.mistakes hnone)
    obtain ⟨after, hafter, hkept⟩ := hgrown.kept owner _ howner
    cases hkept with
    | same => exact ⟨hlength, owner, fqn, members, hafter, hmem⟩
    | members => exact ⟨hlength, owner, fqn, _, hafter, List.mem_append_left _ hmem⟩
  designates name target type heq := hgrown.declares (h.designates name target type heq)
  named type nameId initializer heq := by
    obtain ⟨name, hname⟩ := h.named type nameId initializer heq
    exact ⟨name, hgrown.kind? hname rfl⟩

/-- A class that is listed promises nothing about its members. -/
theorem fits_class {fqn : String} {members : List ElementId} (h : id ∈ draft.classes) :
    draft.Fits id (.classDecl fqn members) where
  earlier hclass := by cases hclass
  listed _ := h
  owned _ _ _ heq := by cases heq
  designates _ _ _ heq := by cases heq
  named _ _ _ heq := by cases heq

/-- A plain element promises that its parts are earlier. -/
theorem fits_plain (hplain : kind.isPlain = true)
    (hparts : ∀ child ∈ kind.children, child.place < id.place) : draft.Fits id kind where
  earlier _ := hparts
  listed hclass := by cases kind <;> cases hclass; cases hplain
  owned _ _ _ heq := by rw [heq] at hplain; cases hplain
  designates _ _ _ heq := by rw [heq] at hplain; cases hplain
  named _ _ _ heq := by rw [heq] at hplain; cases hplain

/-- A draft stays sound if all that is new fits. -/
theorem Sound.grow (h : draft.Sound) (hgrown : Grown draft next)
    (hnew : ∀ id kind, draft.kinds.size ≤ id.place → next.kind? id = some kind →
      next.Fits id kind) : next.Sound := by
  intro id kind hkind
  rcases Nat.lt_or_ge id.place draft.kinds.size with hlt | hge
  · have hold : draft.kind? id = some draft.kinds[id.place] := Array.getElem?_eq_getElem hlt
    have hfits := (h id _ hold).grow hgrown
    obtain ⟨after, hafter, hkept⟩ := hgrown.kept id _ hold
    obtain rfl : after = kind := Option.some.inj (hafter.symm.trans hkind)
    generalize draft.kinds[id.place] = before at hfits hkept
    -- An old element is what it was, or a class that got members.
    cases hkept with
    | same => exact hfits
    | members => exact fits_class (hfits.listed rfl)
  · exact hnew id kind hge hkind

theorem lt_of_kind? (h : draft.kind? id = some kind) : id.place < draft.kinds.size :=
  (Array.getElem?_eq_some_iff.mp h).1

/-- Only types and mistakes change. -/
theorem Sound.of_kinds_eq (h : draft.Sound) (hkinds : next.kinds = draft.kinds)
    (hclasses : next.classes = draft.classes)
    (hmistakes : next.firstError = none → draft.firstError = none) : next.Sound := by
  have hkind? : ∀ id, next.kind? id = draft.kind? id := fun id => by rw [kind?, hkinds, kind?]
  refine h.grow ⟨fun id kind hkind => ⟨kind, (hkind? id).trans hkind, .same⟩, ?_, hmistakes⟩ ?_
  · rw [hclasses]
    exact fun id hid => hid
  · intro id kind hge hkind
    rw [hkind?] at hkind
    exact absurd (lt_of_kind? hkind) (Nat.not_lt.mpr hge)

end Grown

/-! ## Single operations -/

section Operations

variable {draft next : Draft} {id : ElementId} {kind : Kind}

theorem kind?_push (draft : Draft) (kind : Kind) (id : ElementId) :
    (draft.push kind).1.kind? id = if id = draft.nextId then some kind else draft.kind? id := by
  have hplace : id = draft.nextId ↔ id.place = draft.kinds.size :=
    ⟨fun heq => by rw [heq, nextId], fun heq => congrArg ElementId.mk heq⟩
  rw [push, kind?, Array.getElem?_push, kind?]
  simp only [hplace]

theorem kind?_push_of_some {before : Kind} (h : draft.kind? id = some before) (kind : Kind) :
    (draft.push kind).1.kind? id = some before := by
  rw [kind?_push, if_neg, h]
  rintro rfl
  exact Nat.lt_irrefl _ (lt_of_kind? h)

/-- One element is added that fits. -/
theorem Sound.push_of_fits (h : draft.Sound) (hkinds : next.kinds = draft.kinds.push kind)
    (hclasses : ∀ id ∈ draft.classes, id ∈ next.classes)
    (hmistakes : next.firstError = none → draft.firstError = none)
    (hfits : next.Fits draft.nextId kind) : next.Sound := by
  have hkind? : ∀ id, next.kind? id = (draft.push kind).1.kind? id := by
    intro id
    rw [kind?, hkinds, kind?, push]
  refine h.grow ⟨fun id before hbefore => ⟨before, ?_, .same⟩, hclasses, hmistakes⟩ ?_
  · rw [hkind?, kind?_push_of_some hbefore]
  · intro id after hge hafter
    rw [hkind?, kind?_push] at hafter
    split at hafter
    · next heq =>
      cases hafter
      rw [heq]
      exact hfits
    · exact absurd (lt_of_kind? hafter) (Nat.not_lt.mpr hge)

theorem Sound.push_plain (h : draft.Sound) (hplain : kind.isPlain = true)
    (hparts : ∀ child ∈ kind.children, child.place < draft.kinds.size) :
    (draft.push kind).1.Sound :=
  h.push_of_fits rfl (fun _ hid => hid) (fun hnone => hnone) (fits_plain hplain hparts)

theorem firstError_fail_ne_none (draft : Draft) (error : TreeError) :
    (draft.fail error).firstError ≠ none := by
  rw [fail]
  cases draft.firstError <;> simp

theorem Sound.fail (h : draft.Sound) (error : TreeError) : (draft.fail error).Sound :=
  h.of_kinds_eq rfl rfl fun hnone => absurd hnone (firstError_fail_ne_none draft error)

theorem Sound.declareType (h : draft.Sound) (decl : TypeDecl) : (draft.declareType decl).Sound := by
  rw [Draft.declareType]
  split
  · exact h.fail _
  · exact h.of_kinds_eq rfl rfl id

theorem Sound.defineClass (h : draft.Sound) (fqn : String) (supertype : Option String)
    (interfaces : List String) : (draft.defineClass fqn supertype interfaces).1.Sound := by
  have hdeclared := h.declareType (.ofClass fqn supertype interfaces)
  refine hdeclared.push_of_fits rfl (fun _ hid => List.mem_append_left _ hid)
    (fun hnone => hnone) (fits_class ?_)
  exact List.mem_append_right _ (List.mem_singleton_self _)

/-! ### Variables -/

/-- The identifier fits that stands for a variable. -/
theorem fits_identifier {name : String} {target : ElementId} {type : TypeRef}
    (h : Declares draft.kind? target name type) :
    draft.Fits id (.identifier name (some target) type) where
  earlier _ _ hchild := by cases hchild
  listed hclass := by cases hclass
  owned _ _ _ heq := by cases heq
  designates _ _ _ heq := by
    cases heq
    exact h
  named _ _ _ heq := by cases heq

/-- The local variable fits that its identifier stands for. -/
theorem fits_localVar {name : String} {type : TypeRef} {nameId : ElementId}
    {initializer : Option ElementId}
    (hparts : ∀ child ∈ nameId :: initializer.toList, child.place < id.place)
    (hname : draft.kind? nameId = some (.identifier name (some id) type)) :
    draft.Fits id (.localVar type nameId initializer) where
  earlier _ := hparts
  listed hclass := by cases hclass
  owned _ _ _ heq := by cases heq
  designates _ _ _ heq := by cases heq
  named _ _ _ heq := by
    cases heq
    exact ⟨name, hname⟩

/-- A local variable and the identifier that declares it are added together, since each of
    them names the other one. -/
theorem Sound.localVar (h : draft.Sound) (name : String) (type : TypeRef)
    {initializer : Option ElementId}
    (hinitializer : ∀ id ∈ initializer.toList, id.place < draft.kinds.size) :
    (draft.localVar name type initializer).1.Sound := by
  let declaration : ElementId := ⟨draft.kinds.size + 1⟩
  let named := (draft.push (.identifier name (some declaration) type)).1
  have hsize : named.nextId = declaration := congrArg ElementId.mk (Array.size_push _)
  have hname : named.kind? draft.nextId = some (.identifier name (some declaration) type) := by
    rw [kind?_push, if_pos rfl]
  -- Both elements are there when one of them is looked at.
  have hboth : Declares (draft.localVar name type initializer).1.kind? declaration name type := by
    refine Or.inr ⟨draft.nextId, initializer, ?_, kind?_push_of_some hname _⟩
    exact (kind?_push named _ declaration).trans (if_pos hsize.symm)
  have hgrown : Grown draft (draft.localVar name type initializer).1 :=
    ⟨fun id before hbefore =>
      ⟨before, kind?_push_of_some (kind?_push_of_some hbefore _) _, .same⟩,
      fun _ hid => hid, fun hnone => hnone⟩
  refine h.grow hgrown fun id kind hge hkind => ?_
  have hkind := (kind?_push named _ id).symm.trans hkind
  split at hkind
  · next heq =>
    cases hkind
    rw [heq, hsize]
    refine fits_localVar (fun child hchild => ?_) (kind?_push_of_some hname _)
    rcases List.mem_cons.mp hchild with rfl | hchild
    · exact Nat.lt_succ_self _
    · exact Nat.lt_succ_of_lt (hinitializer child hchild)
  · rw [kind?_push] at hkind
    split at hkind
    · cases hkind
      exact fits_identifier hboth
    · exact absurd (lt_of_kind? hkind) (Nat.not_lt.mpr hge)

/-- What is found for a variable is what it declares. -/
theorem Sound.declares_of_variableAt? (h : draft.Sound) {name : String} {type : TypeRef}
    (hfound : draft.variableAt? id = some (name, type)) : Declares draft.kind? id name type := by
  rw [variableAt?] at hfound
  split at hfound
  · next hkind =>
    cases hfound
    exact Or.inl hkind
  · next hkind =>
    -- The identifier of a local variable has its type, and no other name than the one found.
    obtain ⟨declared, hdeclared⟩ := (h _ _ hkind).named _ _ _ rfl
    rw [hdeclared] at hfound
    cases hfound
    exact Or.inr ⟨_, _, hkind, hdeclared⟩
  · cases hfound

theorem Sound.read (h : draft.Sound) (variableId : ElementId) :
    (draft.read variableId).1.Sound := by
  rw [Draft.read]
  split
  · next name type hfound =>
    have hdeclares := h.declares_of_variableAt? hfound
    refine h.push_of_fits rfl (fun _ hid => hid) (fun hnone => hnone) (fits_identifier ?_)
    rcases hdeclares with hparameter | ⟨nameId, initializer, hlocal, hname⟩
    · exact Or.inl (kind?_push_of_some hparameter _)
    · exact Or.inr ⟨nameId, initializer, kind?_push_of_some hlocal _, kind?_push_of_some hname _⟩
  · exact (h.fail _).push_plain rfl (by simp [Kind.children])

theorem read_eq (draft : Draft) (variableId : ElementId) :
    (draft.read variableId).2 = draft.nextId ∧
      (draft.read variableId).1.kinds.size = draft.kinds.size + 1 := by
  rw [Draft.read]
  split
  · exact ⟨rfl, Array.size_push _⟩
  · exact ⟨rfl, Array.size_push _⟩

theorem Sound.assign (h : draft.Sound) (variableId : ElementId) {value : ElementId}
    (hvalue : value.place < draft.kinds.size) : (draft.assign variableId value).1.Sound := by
  obtain ⟨htarget, hsize⟩ := draft.read_eq variableId
  refine (h.read variableId).push_plain rfl fun child hchild => ?_
  rw [hsize]
  rcases List.mem_cons.mp hchild with htarget' | hchild
  · rw [htarget'.trans htarget]
    exact Nat.lt_succ_self _
  · rw [List.mem_singleton.mp hchild]
    exact Nat.lt_succ_of_lt hvalue

/-! ### Methods -/

theorem listMethod_eq (draft : Draft) (signature : Signature) :
    ∃ types, draft.listMethod signature = { draft with types := types } := by
  rw [listMethod]
  split
  · exact ⟨draft.types, rfl⟩
  · split
    · exact ⟨draft.types, rfl⟩
    · exact ⟨_, rfl⟩

theorem fits_method {signature : Signature} {parameters : List ElementId}
    {body : Option ElementId} (hparts : ∀ child ∈ parameters ++ body.toList, child.place < id.place)
    (howned : draft.firstError = none → parameters.length = signature.parameterTypes.length ∧
      ∃ owner fqn members, draft.kind? owner = some (.classDecl fqn members) ∧ id ∈ members) :
    draft.Fits id (.method signature parameters body) where
  earlier _ := hparts
  listed hclass := by cases hclass
  owned _ _ _ heq := by
    cases heq
    exact howned
  designates _ _ _ heq := by cases heq
  named _ _ _ heq := by cases heq

/-- A class gets a member, and all else stays as it was. -/
theorem kind?_addMember {owner member : ElementId} {fqn : String} {members : List ElementId}
    (howner : draft.kind? owner = some (.classDecl fqn members)) (id : ElementId) :
    (draft.addMember owner member).kind? id =
      if id = owner then some (.classDecl fqn (members ++ [member])) else draft.kind? id := by
  have hplace : owner.place = id.place ↔ id = owner :=
    ⟨fun heq => congrArg ElementId.mk heq.symm, fun heq => by rw [heq]⟩
  simp only [addMember, howner]
  rw [kind?, Array.getElem?_setIfInBounds, if_pos (lt_of_kind? howner), kind?]
  simp only [hplace]

theorem addMember_of_class {owner member : ElementId} {fqn : String} {members : List ElementId}
    (howner : draft.kind? owner = some (.classDecl fqn members)) :
    (draft.addMember owner member).classes = draft.classes ∧
      (draft.addMember owner member).firstError = draft.firstError := by
  simp only [addMember, howner, and_self]

theorem addMember_of_not_class {owner member : ElementId}
    (howner : ∀ fqn members, draft.kind? owner ≠ some (.classDecl fqn members)) :
    draft.addMember owner member = draft.fail (.notAClass owner) := by
  rw [addMember]
  split
  · next hclass => exact absurd hclass (howner _ _)
  · rfl

/-- A method is added to its class. Without a class to add it to, or with the wrong number of
    parameters, this is a mistake. -/
theorem Sound.push_method (h : draft.Sound) (owner : ElementId) {signature : Signature}
    {parameters : List ElementId} {body : Option ElementId}
    (hparts : ∀ child ∈ parameters ++ body.toList, child.place < draft.kinds.size)
    (hlength : draft.firstError = none →
      parameters.length = signature.parameterTypes.length) :
    ((draft.push (.method signature parameters body)).1.addMember owner draft.nextId).Sound := by
  by_cases hclass : ∃ fqn members, draft.kind? owner = some (.classDecl fqn members)
  · obtain ⟨fqn, members, howner⟩ := hclass
    have hpushed := kind?_push_of_some howner (.method signature parameters body)
    obtain ⟨hclasses, hmistakes⟩ := addMember_of_class hpushed
    refine h.grow ⟨fun id before hbefore => ?_, fun id hid => ?_, fun hnone => ?_⟩ ?_
    · rw [kind?_addMember hpushed]
      split
      · next heq =>
        rw [heq, howner] at hbefore
        cases hbefore
        exact ⟨_, rfl, .members⟩
      · exact ⟨before, kind?_push_of_some hbefore _, .same⟩
    · rw [hclasses]
      exact hid
    · rwa [hmistakes] at hnone
    · intro id kind hge hkind
      -- The method is the only new element: its class was there before.
      rw [kind?_addMember hpushed, kind?_push] at hkind
      split at hkind
      · next heq =>
        rw [heq] at hge
        exact absurd (lt_of_kind? howner) (Nat.not_lt.mpr hge)
      · split at hkind
        · next heq =>
          cases hkind
          rw [heq]
          refine fits_method hparts fun hnone => ⟨hlength (hmistakes ▸ hnone), owner, fqn,
            members ++ [draft.nextId], ?_, List.mem_append_right _ (List.mem_singleton_self _)⟩
          rw [kind?_addMember hpushed, if_pos rfl]
        · exact absurd (lt_of_kind? hkind) (Nat.not_lt.mpr hge)
  · have hnot : ∀ fqn members, (draft.push (.method signature parameters body)).1.kind? owner ≠
        some (.classDecl fqn members) := by
      intro fqn members howner
      rw [kind?_push] at howner
      split at howner
      · cases howner
      · exact hclass ⟨fqn, members, howner⟩
    rw [addMember_of_not_class hnot]
    -- The mistake is remembered, and with a mistake nothing is promised about the class.
    have hfailed := firstError_fail_ne_none
      (draft.push (.method signature parameters body)).1 (.notAClass owner)
    exact h.push_of_fits rfl (fun _ hid => hid) (fun hnone => absurd hnone hfailed)
      (fits_method hparts fun hnone => absurd hnone hfailed)

theorem Sound.method (h : draft.Sound) (owner : ElementId) (signature : Signature)
    {parameters : List ElementId} {body : Option ElementId}
    (hparts : ∀ child ∈ parameters ++ body.toList, child.place < draft.kinds.size) :
    (draft.method owner signature parameters body).1.Sound := by
  rw [Draft.method]
  by_cases hlength : parameters.length = signature.parameterTypes.length
  · obtain ⟨types, htypes⟩ := draft.listMethod_eq signature
    rw [if_pos hlength, htypes]
    have hlisted : Sound { draft with types := types } :=
      h.of_kinds_eq rfl rfl fun hnone => hnone
    exact hlisted.push_method owner hparts fun _ => hlength
  · let failed := draft.fail (.parameterCount signature parameters.length)
    obtain ⟨types, htypes⟩ := failed.listMethod_eq signature
    rw [if_neg hlength, htypes]
    have hlisted : Sound { failed with types := types } :=
      (h.fail _).of_kinds_eq rfl rfl fun hnone => hnone
    exact hlisted.push_method owner hparts
      fun hnone => absurd hnone (firstError_fail_ne_none draft _)

end Operations

/-! ## Steps and runs -/

section Runs

variable {draft : Draft}

/-- A step that is given earlier elements keeps a draft sound. -/
theorem Sound.perform (h : draft.Sound) {step : Step}
    (hearlier : ∀ id ∈ step.arguments, id.place < draft.kinds.size) :
    (draft.perform step).1.Sound := by
  cases step with
  | declareType decl => exact h.declareType decl
  | defineClass fqn supertype interfaces => exact h.defineClass fqn supertype interfaces
  | method owner signature parameters body =>
    exact h.method owner signature fun child hchild =>
      hearlier child (List.mem_cons_of_mem _ hchild)
  | localVar name type initializer => exact h.localVar name type hearlier
  | read variableId => exact h.read variableId
  | assign variableId value => exact h.assign variableId (hearlier value (by simp [Step.arguments]))
  | _ => exact h.push_plain rfl hearlier

theorem Sound.performAll (h : draft.Sound) {steps : List Step} (hscoped : draft.Scoped steps) :
    (draft.performAll steps).1.Sound := by
  induction steps generalizing draft with
  | nil => exact h
  | cons step steps ih => exact ih (h.perform hscoped.1) hscoped.2

theorem sound_new (package : String) : (new package).Sound := by
  intro id kind hkind
  cases hkind

end Runs

/-! ## Finished units -/

section Finished

variable {draft : Draft} {u : CompilationUnit} {id : ElementId} {kind : Kind}

/-- A unit is made of a draft without mistakes: its elements, and the root behind them. -/
theorem finish_eq_ok (h : draft.finish = .ok u) :
    u.Accepted ∧ draft.firstError = none ∧ u.tree.root = draft.nextId ∧
      ∀ id, u.kind? id =
        (draft.push (.compilationUnit draft.package draft.classes)).1.kind? id := by
  obtain ⟨tree, htree, hunit⟩ := bind_eq_ok_iff.mp h
  obtain ⟨hroot, -, -, hkinds⟩ := CompilationUnit.same_of_ofTree hunit
  rw [toTree] at htree
  split at htree
  · cases htree
  · next hnone =>
    cases htree
    refine ⟨⟨_, hunit⟩, hnone, hroot, fun id => ?_⟩
    rw [hkinds, Tree.kind?, Tree.element?, Array.getElem?_map, Option.map_map]
    exact Option.map_id_fun ▸ rfl

theorem kind?_of_finish (h : draft.finish = .ok u) (hkind : draft.kind? id = some kind) :
    u.kind? id = some kind := by
  obtain ⟨-, -, -, hkinds⟩ := finish_eq_ok h
  rw [hkinds, kind?_push_of_some hkind]

theorem kind?_root_of_finish (h : draft.finish = .ok u) :
    u.kind? u.tree.root = some (.compilationUnit draft.package draft.classes) := by
  obtain ⟨-, -, hroot, hkinds⟩ := finish_eq_ok h
  rw [hkinds, hroot, kind?_push, if_pos rfl]

/-- All elements but the root are elements of the draft. -/
theorem of_kind?_finish (h : draft.finish = .ok u) (hkind : u.kind? id = some kind)
    (hne : id ≠ u.tree.root) : draft.kind? id = some kind := by
  obtain ⟨-, -, hroot, hkinds⟩ := finish_eq_ok h
  rwa [hkinds, kind?_push, if_neg (hroot ▸ hne)] at hkind

theorem of_kind?_finish_of_not_unit (h : draft.finish = .ok u) (hkind : u.kind? id = some kind)
    (hunit : CompilationUnit.isUnitKind kind = false) : draft.kind? id = some kind := by
  refine of_kind?_finish h hkind ?_
  rintro rfl
  rw [kind?_root_of_finish h] at hkind
  cases hkind
  cases hunit

theorem Sound.parent?_class (hs : draft.Sound) (h : draft.finish = .ok u)
    (hkind : draft.kind? id = some kind) (hclass : kind.isClass = true) :
    u.parent? id = some u.tree.root := by
  obtain ⟨hu, -⟩ := finish_eq_ok h
  refine (hu.linked.parent_iff id u.tree.root).mpr ?_
  have hroot : u.tree.kind? u.tree.root = _ := kind?_root_of_finish h
  rw [Tree.children, hroot]
  exact (hs id kind hkind).listed hclass

/-- A parent is the root, or a class below the root, or a later element. -/
theorem Sound.parent?_cases (hs : draft.Sound) (h : draft.finish = .ok u) {parent : ElementId}
    (hparent : u.parent? id = some parent) :
    parent = u.tree.root ∨ u.parent? parent = some u.tree.root ∨ id.place < parent.place := by
  obtain ⟨hu, -⟩ := finish_eq_ok h
  have hchild := (hu.linked.parent_iff id parent).mp hparent
  rw [Tree.children] at hchild
  cases hkind : u.tree.kind? parent with
  | none =>
    rw [hkind] at hchild
    cases hchild
  | some kind =>
    rw [hkind] at hchild
    by_cases hroot : parent = u.tree.root
    · exact Or.inl hroot
    · have hdraft := of_kind?_finish h hkind hroot
      cases hclass : kind.isClass with
      | true => exact Or.inr (Or.inl (hs.parent?_class h hdraft hclass))
      | false => exact Or.inr (Or.inr ((hs parent kind hdraft).earlier hclass id hchild))

/-- Parents come to an end. Each step leads to a later element until the root is near. -/
theorem Sound.endsWithin (hs : draft.Sound) (h : draft.finish = .ok u) (id : ElementId) :
    EndsWithin u.parent? u.size id := by
  obtain ⟨hu, -⟩ := finish_eq_ok h
  have hroot : u.parent? u.tree.root = none := hu.linked.root_free
  suffices hends : ∃ steps, follow u.parent? steps id = none by
    obtain ⟨steps, hsteps⟩ := hends
    exact hu.linked.endsWithin_of_follow hsteps
  induction hleft : u.size - id.place using Nat.strong_induction_on generalizing id with
  | _ left ih =>
    -- A later element has fewer elements behind it; a class or the root is two steps at most
    -- from the end.
    cases hparent : u.parent? id with
    | none => exact ⟨1, by simp [follow, hparent]⟩
    | some parent =>
      rcases hs.parent?_cases h hparent with heq | hclass | hlater
      · exact ⟨2, by simp [follow, hparent, heq, hroot]⟩
      · exact ⟨3, by simp [follow, hparent, hclass, hroot]⟩
      · have hlt : parent.place < u.size := (hu.linked.parent?_lt hparent).2
        obtain ⟨steps, hsteps⟩ := ih (u.size - parent.place) (by omega) parent rfl
        exact ⟨steps + 1, by rw [follow, hparent]; exact hsteps⟩

theorem Sound.declares_of_finish (hs : draft.Sound) (h : draft.finish = .ok u) {name : String}
    {target : ElementId} {type : TypeRef}
    (hkind : u.kind? id = some (.identifier name (some target) type)) :
    Declares u.kind? target name type := by
  have hdraft := of_kind?_finish_of_not_unit h hkind rfl
  rcases (hs id _ hdraft).designates name target type rfl with
    hparameter | ⟨nameId, initializer, hlocal, hname⟩
  · exact Or.inl (kind?_of_finish h hparameter)
  · exact Or.inr ⟨nameId, initializer, kind?_of_finish h hlocal, kind?_of_finish h hname⟩

end Finished

/-- Units that were written step by step, where each step is given elements only that earlier
    steps have added, are well formed. The parents of every element come to an end; identifiers
    that stand for something stand for a parameter or local variable of their name and type;
    and each method is in a class below the root and lists as many parameters as its signature
    has, which are different elements inside of it. -/
theorem finished_well_formed {package : String} {steps : List Step} {u : CompilationUnit}
    (hscoped : (new package).Scoped steps)
    (hfinish : ((new package).performAll steps).1.finish = .ok u) :
    (∀ id, EndsWithin u.parent? u.size id) ∧
    (∀ id name target type, u.kind? id = some (.identifier name (some target) type) →
      Declares u.kind? target name type) ∧
    ∀ id signature parameters body, u.kind? id = some (.method signature parameters body) →
      (∃ owner fqn members, u.parent? id = some owner ∧
        u.kind? owner = some (.classDecl fqn members) ∧ owner ∈ u.tree.children u.tree.root) ∧
      parameters.length = signature.parameterTypes.length ∧ parameters.Nodup ∧
      ∀ parameter ∈ parameters, u.parent? parameter = some id := by
  have hs := (sound_new package).performAll hscoped
  obtain ⟨hu, hnone, -, -⟩ := finish_eq_ok hfinish
  refine ⟨hs.endsWithin hfinish, fun id name target type => hs.declares_of_finish hfinish, ?_⟩
  intro id signature parameters body hkind
  have hdraft := of_kind?_finish_of_not_unit hfinish hkind rfl
  obtain ⟨hlength, owner, fqn, members, howner, hmember⟩ :=
    (hs id _ hdraft).owned signature parameters body rfl hnone
  have hclass : u.tree.kind? owner = _ := kind?_of_finish hfinish howner
  have hmethod : u.tree.kind? id = _ := hkind
  have hchildren : u.tree.children id = parameters ++ body.toList := by
    rw [Tree.children, hmethod]
    rfl
  refine ⟨⟨owner, fqn, members, ?_, hclass, ?_⟩, hlength, ?_, ?_⟩
  · refine (hu.linked.parent_iff id owner).mpr ?_
    rw [Tree.children, hclass]
    exact hmember
  · exact (hu.linked.parent_iff owner _).mp (hs.parent?_class hfinish howner rfl)
  · have hnodup := hu.linked.nodup id
    rw [hchildren] at hnodup
    exact hnodup.of_append_left
  · intro parameter hparameter
    refine (hu.linked.parent_iff parameter id).mpr ?_
    rw [hchildren]
    exact List.mem_append_left _ hparameter

/-- Writes the method `last(s) { String t = s; t = "42"; return t; }` and parentheses that hang
    on nothing. -/
def lastSteps : List Step := [
  .parameter "s" .string,
  -- 1 to 3: `String t = s`
  .read ⟨0⟩, .localVar "t" .string (some ⟨1⟩),
  -- 4 to 7: `t = "42"`
  .literal (.string "42") .string, .assign ⟨3⟩ ⟨4⟩, .exprStmt ⟨6⟩,
  -- 8 to 10: `return t` and the block
  .read ⟨3⟩, .ret (some ⟨8⟩), .block [⟨3⟩, ⟨7⟩, ⟨9⟩],
  .defineClass "A" none [],
  .method ⟨11⟩ ⟨.named "A", "last", [.string], .string, ⟨0⟩⟩ [⟨0⟩] (some ⟨10⟩),
  .unresolved "x", .parens ⟨13⟩]

/-- The unit of these steps. -/
def lastUnit : CompilationUnit :=
  ((new "").performAll lastSteps).1.finish.toOption.get (by decide +kernel)

/-- In that unit the parents of what hangs on nothing end, the assigned identifier stands for
    the local variable, and the method is in the class. -/
theorem finished_well_formed_lastUnit :
    (new "").Scoped lastSteps ∧ ((new "").performAll lastSteps).1.finish = .ok lastUnit ∧
    lastUnit.parent? ⟨13⟩ = some ⟨14⟩ ∧ EndsWithin lastUnit.parent? lastUnit.size ⟨13⟩ ∧
    lastUnit.kind? ⟨5⟩ = some (.identifier "t" (some ⟨3⟩) .string) ∧
    Declares lastUnit.kind? ⟨3⟩ "t" .string ∧
    (∃ owner fqn members, lastUnit.parent? ⟨12⟩ = some owner ∧
      lastUnit.kind? owner = some (.classDecl fqn members) ∧
      owner ∈ lastUnit.tree.children lastUnit.tree.root) ∧
    lastUnit.parent? ⟨0⟩ = some ⟨12⟩ := by
  have hscoped : (new "").Scoped lastSteps := by decide +kernel
  have hfinish : ((new "").performAll lastSteps).1.finish = .ok lastUnit := eq_ok_get _
  have hassigned : lastUnit.kind? ⟨5⟩ = some (.identifier "t" (some ⟨3⟩) .string) := by
    decide +kernel
  have hmethod : lastUnit.kind? ⟨12⟩ = some (.method
      ⟨.named "A", "last", [.string], .string, ⟨0⟩⟩ [⟨0⟩] (some ⟨10⟩)) := by decide +kernel
  obtain ⟨hends, hstands, hmethods⟩ := finished_well_formed hscoped hfinish
  obtain ⟨howner, -, -, hparameters⟩ := hmethods _ _ _ _ hmethod
  exact ⟨hscoped, hfinish, by decide +kernel, hends _, hassigned, hstands _ _ _ _ hassigned,
    howner, hparameters ⟨0⟩ (List.mem_singleton_self _)⟩

end Draft
end ValueFlow
