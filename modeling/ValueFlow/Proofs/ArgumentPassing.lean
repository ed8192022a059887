/-
  ValueFlow.Proofs.ArgumentPassing

  To which parameter an argument is passed.

  A scan joins an argument with the parameter at the same place. The test of a matcher
  also counts all arguments from a variadic last parameter on as passed to it. So the two
  agree up to the last parameter, and from there on for methods that are not variadic.
-/

import ValueFlow.Proofs.ScanOrder
import ValueFlow.Flow.Matching

namespace ValueFlow

/-! ## Calls and their declarations -/

/-- A declaration that becomes the signature of a call takes as many parameters, with the
    same modifiers. -/
theorem TypeDecl.resolve?_form {decl : TypeDecl} {call method : Signature}
    (h : decl.resolve? call = some method) :
    method.parameterTypes.length = call.parameterTypes.length ∧
      method.modifiers = call.modifiers := by
  rw [resolve?, Option.or_eq_some_iff] at h
  rcases h with hsame | ⟨-, hsolved⟩
  · have heq := List.find?_some hsame
    rw [beq_iff_eq] at heq
    rw [heq]
    exact ⟨rfl, rfl⟩
  · have hsolves := List.find?_some hsolved
    simp only [Signature.solvesTo, Bool.and_eq_true, beq_iff_eq] at hsolves
    exact ⟨hsolves.1.1.2, hsolves.1.2⟩

theorem CompilationUnit.resolveUpTo_form {u : CompilationUnit} {call method : Signature}
    (bound : Nat) {fqn : Option String} (h : u.resolveUpTo call bound fqn = some method) :
    method.parameterTypes.length = call.parameterTypes.length ∧
      method.modifiers = call.modifiers := by
  induction bound generalizing fqn with
  | zero => cases h
  | succ bound ih =>
    rw [resolveUpTo] at h
    split at h
    · cases h
    · split at h
      · next hresolve =>
        cases h
        exact TypeDecl.resolve?_form hresolve
      · exact ih h

/-- The declaration that a call names takes as many parameters as the call says, and is
    variadic if the call says so. -/
theorem CompilationUnit.declarationOf_form (u : CompilationUnit) (call : Signature) :
    (u.declarationOf call).parameterTypes.length = call.parameterTypes.length ∧
      (u.declarationOf call).isVarargs = call.isVarargs := by
  rw [declarationOf, Signature.isVarargs, Signature.isVarargs]
  cases hresolve : u.resolveUpTo call u.tree.types.length call.declaringType.fqn? with
  | none => exact ⟨rfl, rfl⟩
  | some method =>
    obtain ⟨hlength, hmodifiers⟩ := resolveUpTo_form _ hresolve
    exact ⟨hlength, congrArg (·.contains .varargsFlag) hmodifiers⟩

/-! ## Arguments and parameters -/

section Passing

variable {u : CompilationUnit} {node parameter : Node} {called : Signature} {place index : Nat}

theorem isArgument_iff (hu : u.Accepted) :
    IsArgument u node called place ↔ ∃ call, node.argumentOf? u = some (call, place) ∧
      (u.kind? call).bind Kind.callSignature? = some called := by
  simp only [argumentOf?_eq_some_iff hu, Option.bind_eq_some_iff]
  refine ⟨?_, ?_⟩
  · rintro ⟨argument, call, kind, hnode, hkind, hcalled, hget⟩
    exact ⟨call, ⟨argument, kind, hnode, hkind, hget⟩, kind, hkind, hcalled⟩
  · rintro ⟨call, ⟨argument, kind, hnode, hkind, hget⟩, other, hother, hcalled⟩
    cases hkind.symm.trans hother
    exact ⟨argument, call, kind, hnode, hkind, hcalled, hget⟩

/-- An argument has one place in one call. -/
theorem IsArgument.unique (hu : u.Accepted) {other : Signature} {otherPlace : Nat}
    (h : IsArgument u node called place) (hother : IsArgument u node other otherPlace) :
    called = other ∧ place = otherPlace := by
  obtain ⟨call, hcall, hcalled⟩ := (isArgument_iff hu).mp h
  obtain ⟨otherCall, hotherCall, hotherCalled⟩ := (isArgument_iff hu).mp hother
  cases hcall.symm.trans hotherCall
  cases hcalled.symm.trans hotherCalled
  exact ⟨rfl, rfl⟩

/-- An argument flows into a parameter of the declaration that its call names if both
    stand at the same place. -/
theorem passesInto_iff (hu : u.Accepted) (hargument : IsArgument u node called place)
    (hparameter : IsParameter u parameter (u.declarationOf called) index) :
    PassesInto u node parameter ↔ place = index := by
  refine ⟨?_, ?_⟩
  · rintro ⟨other, otherPlace, hother, hinto⟩
    obtain ⟨rfl, rfl⟩ := hargument.unique hu hother
    have hslot := ((isParameter_iff hu).mp hinto).2
    rw [((isParameter_iff hu).mp hparameter).2] at hslot
    cases hslot
    rfl
  · rintro rfl
    exact ⟨called, place, hargument, hparameter⟩

/-- Whether a matcher that accepts a call takes an argument of it to be passed to the
    parameter at an index. -/
theorem Matcher.isParameter_iff_of_isArgument (hu : u.Accepted) {m : Matcher}
    (hargument : IsArgument u node called place) (hm : m u.hierarchy called = true) :
    m.isParameter u node index = true ↔ parameterIndex called place = index := by
  obtain ⟨call, hcall, hcalled⟩ := (isArgument_iff hu).mp hargument
  have hmatches : m.matchesCall u call = true := by
    rw [matchesCall, hcalled]
    exact hm
  have hfound : m.argumentOf? u node = some (call, place) := by
    rw [argumentOf?, hcall]
    exact Option.filter_eq_some_iff.mpr ⟨rfl, hmatches⟩
  simp only [isParameter, hfound, Option.any_some, hcalled, beq_iff_eq, Int.natCast_inj]

/-- Arguments are passed to the parameter at their place, but for those behind a variadic
    last parameter. -/
theorem Matcher.parameterIndex_eq_iff :
    (place = index ↔ parameterIndex called place = index) ↔
      ¬ (called.isVarargs = true ∧ 0 < called.parameterTypes.length ∧
        called.parameterTypes.length ≤ place ∧
        (index = place ∨ index = called.parameterTypes.length - 1)) := by
  rw [parameterIndex]
  cases called.isVarargs with
  | false => simp
  | true =>
    simp only [true_and]
    split
    · next hfolded => omega
    · next hnot => omega

end Passing

/-! ## In a scan -/

namespace ScannedFlow

variable {spec : FlowSpec} {cx : FlowContext} {node parameter : Node}

/-- The edges of a scan that lead into parameters are those of arguments. -/
theorem parameter_mem_children_iff (hu : cx.unit.Accepted)
    (hnode : node ∈ Node.attached cx.unit) (hexpression : node.isParameter = false)
    (hparameter : parameter.isParameter = true) :
    parameter ∈ (ofUnit spec cx).graph.children node ↔ PassesInto cx.unit node parameter := by
  have hscan := ofUnit_faithful spec hu
  have hmem : node ∈ (ofUnit spec cx).graph.nodes := by
    refine (hscan.nodes_iff node).mpr ⟨node, hnode, ?_, .refl⟩
    cases node with
    | expression id => rfl
    | parameter id => cases hexpression
  cases parameter with
  | expression id => cases hparameter
  | parameter id =>
    rw [hscan.children_iff node hmem]
    refine ⟨?_, fun hpasses => Or.inr ?_⟩
    · rintro (hopen | hcall)
      · -- Values flow on into expressions only.
        obtain ⟨_, heq, -⟩ :=
          FlowSpec.successors_space hu (FlowSpec.mem_openSuccessors_iff.mp hopen).1
        cases heq
      · rcases (callEdge_iff_of_attached hu fun _ => Iff.rfl).mp hcall with ⟨-, hreturns⟩ | hpasses
        · obtain ⟨-, _, _, _, -, -, hcalled, -⟩ := hreturns
          cases hcalled
        · exact hpasses
    · exact (callEdge_iff_of_attached hu fun _ => Iff.rfl).mpr (Or.inr hpasses)

/-- A scan joins an argument with the parameter at its own place. This is the parameter
    that the argument is passed to, unless the method is variadic and the argument stands
    behind the last parameter. -/
theorem argument_mem_children_iff (hu : cx.unit.Accepted) (hnode : node ∈ Node.attached cx.unit)
    {called : Signature} {place index : Nat} (hargument : IsArgument cx.unit node called place)
    (hparameter : IsParameter cx.unit parameter (cx.unit.declarationOf called) index)
    {m : Matcher} (hm : m cx.unit.hierarchy called = true) :
    let declared := (cx.unit.declarationOf called).parameterTypes.length
    (parameter ∈ (ofUnit spec cx).graph.children node ↔ place = index) ∧
    ((parameter ∈ (ofUnit spec cx).graph.children node ↔
        m.isParameter cx.unit node index = true) ↔
      ¬ ((cx.unit.declarationOf called).isVarargs = true ∧ 0 < declared ∧ declared ≤ place ∧
        (index = place ∨ index = declared - 1))) := by
  intro declared
  have hexpression : node.isParameter = false := by
    obtain ⟨argument, _, _, rfl, -⟩ := hargument
    rfl
  have hisParameter : parameter.isParameter = true := by
    obtain ⟨_, -, _, _, _, -, -, -, rfl⟩ := hparameter
    rfl
  have hedge : parameter ∈ (ofUnit spec cx).graph.children node ↔ place = index :=
    (parameter_mem_children_iff hu hnode hexpression hisParameter).trans
      (passesInto_iff hu hargument hparameter)
  obtain ⟨hlength, hvarargs⟩ := cx.unit.declarationOf_form called
  refine ⟨hedge, ?_⟩
  rw [hedge, Matcher.isParameter_iff_of_isArgument hu hargument hm,
    Matcher.parameterIndex_eq_iff, hvarargs, ← hlength]

end ScannedFlow

/-! ## A variadic call -/

/-- The method `void all(String... xs)` of a class `A`. -/
def variadicMethod : Signature :=
  ⟨.named "A", "all", [.array .string], .primitive .void, .varargsFlag⟩

/-- A class with two methods, of which the second one calls the first one, which is
    variadic: `all(String... xs) { }` and `test() { all("a", "b"); }`. -/
def variadicTree : Tree :=
  let kinds : List Kind := [
    .compilationUnit "" [⟨1⟩], .classDecl "A" [⟨2⟩, ⟨5⟩],
    -- 2 to 4: `all`
    .method variadicMethod [⟨3⟩] (some ⟨4⟩), .parameter "xs" (.array .string), .block [],
    -- 5 to 10: `test`
    .method ⟨.named "A", "test", [], .primitive .void, ⟨0⟩⟩ [] (some ⟨6⟩), .block [⟨7⟩],
    .exprStmt ⟨8⟩, .call none "all" (some variadicMethod) [⟨9⟩, ⟨10⟩],
    .literal (.string "a") .string, .literal (.string "b") .string]
  { root := ⟨0⟩, elements := (kinds.map fun kind => ⟨none, kind⟩).toArray, types := [] }

/-- The unit of that tree, without any model. -/
def variadicContext : FlowContext :=
  ⟨(CompilationUnit.ofTree variadicTree).toOption.get (by decide +kernel), ⟨⟨[]⟩, ⟨[]⟩, ⟨[]⟩⟩⟩

theorem variadicContext_accepted : variadicContext.unit.Accepted := ⟨variadicTree, eq_ok_get _⟩

/-- Both arguments of the call are passed to the only parameter, but only the first one is
    joined with it. -/
theorem ScannedFlow.variadic_argument_not_joined :
    let graph := (ofUnit .nothing variadicContext).graph
    let matcher := Matcher.named "all"
    (matcher.isParameter variadicContext.unit (.expression ⟨9⟩) 0 = true ∧
      Node.parameter ⟨3⟩ ∈ graph.children (.expression ⟨9⟩)) ∧
    (matcher.isParameter variadicContext.unit (.expression ⟨10⟩) 0 = true ∧
      Node.parameter ⟨3⟩ ∉ graph.children (.expression ⟨10⟩)) := by
  decide +kernel

/-- The second argument stands behind the only parameter of the method, so that the two
    views of the call differ on it. -/
theorem ScannedFlow.argument_mem_children_iff_variadicTree :
    let edge := Node.parameter ⟨3⟩ ∈
      (ofUnit .nothing variadicContext).graph.children (.expression ⟨10⟩)
    let passed := (Matcher.named "all").isParameter variadicContext.unit (.expression ⟨10⟩) 0
    IsArgument variadicContext.unit (.expression ⟨10⟩) variadicMethod 1 ∧
    IsParameter variadicContext.unit (.parameter ⟨3⟩)
      (variadicContext.unit.declarationOf variadicMethod) 0 ∧
    ¬ edge ∧ ¬ (edge ↔ passed = true) := by
  intro edge passed
  have hargument : IsArgument variadicContext.unit (.expression ⟨10⟩) variadicMethod 1 :=
    (isArgument_iff variadicContext_accepted).mpr ⟨⟨8⟩, by decide +kernel⟩
  have hparameter : IsParameter variadicContext.unit (.parameter ⟨3⟩)
      (variadicContext.unit.declarationOf variadicMethod) 0 :=
    (isParameter_iff variadicContext_accepted).mpr (by decide +kernel)
  obtain ⟨hedge, hagree⟩ := @argument_mem_children_iff .nothing variadicContext _ _
    variadicContext_accepted (by decide +kernel) _ _ _ hargument hparameter (.named "all")
    (by decide +kernel)
  refine ⟨hargument, hparameter, fun h => absurd (hedge.mp h) (by decide), fun h => ?_⟩
  exact hagree.mp h (by decide +kernel)

end ValueFlow
