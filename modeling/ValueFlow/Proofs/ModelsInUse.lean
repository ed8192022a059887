/-
  ValueFlow.Proofs.ModelsInUse

  Models about types that a unit does not use say nothing about it.

  Compiled models see a unit through the calls that they match. A model matches the calls
  of methods that its type declares, or that a subtype of its type does, so its type is
  among those that `typesInUse` collects. Models about the root class match the methods of
  all types; they are kept too, as every type inherits from the root class.
-/

import ValueFlow.Flow.Compiled
import ValueFlow.Proofs.Hierarchy
import ValueFlow.Proofs.ModelStore

namespace ValueFlow

variable {u : CompilationUnit}

/-! ## Matchers -/

namespace Matcher

theorem matchesCall_iff {m : Matcher} {call : ElementId} :
    m.matchesCall u call = true ↔ ∃ signature,
      (u.kind? call).bind Kind.callSignature? = some signature ∧
      m u.hierarchy signature = true := by
  rw [matchesCall, Option.any_eq_true]

/-- The matchers accept the same calls of a unit. -/
def Agree (u : CompilationUnit) (m other : Matcher) : Prop :=
  ∀ call, m.matchesCall u call = other.matchesCall u call

variable {m other : Matcher}

theorem Agree.argumentOf? (h : Agree u m other) (node : Node) :
    m.argumentOf? u node = other.argumentOf? u node := by
  simp only [Matcher.argumentOf?, h _]

theorem Agree.isParameter (h : Agree u m other) (node : Node) (index : Int) :
    m.isParameter u node index = other.isParameter u node index := by
  rw [Matcher.isParameter, h.argumentOf?, Matcher.isParameter]

theorem Agree.isReceiver (h : Agree u m other) (node : Node) :
    m.isReceiver u node = other.isReceiver u node := by
  simp only [Matcher.isReceiver, funext h]

theorem exists_call_of_isParameter {node : Node} {index : Int}
    (h : m.isParameter u node index = true) : ∃ call, m.matchesCall u call = true := by
  rw [Matcher.isParameter, Option.any_eq_true] at h
  obtain ⟨found, hfound, -⟩ := h
  exact ⟨found.1, (Option.filter_eq_some_iff.mp hfound).2⟩

theorem exists_call_of_isReceiver {node : Node} (h : m.isReceiver u node = true) :
    ∃ call, m.matchesCall u call = true := by
  rw [Matcher.isReceiver, Option.any_eq_true] at h
  obtain ⟨call, -, hmatches⟩ := h
  exact ⟨call, hmatches⟩

end Matcher

namespace Alternatives

variable {α : Type} {member : α → Matcher}

/-- Alternatives accept the calls that one of them accepts. -/
theorem matchesCall_ofList_iff {members : List α} {call : ElementId} :
    ((ofList members).matcher member).matchesCall u call = true ↔
      ∃ a ∈ members, (member a).matchesCall u call = true := by
  simp only [Matcher.matchesCall_iff, matcher, toList_ofList, List.any_eq_true]
  refine ⟨?_, ?_⟩
  · rintro ⟨signature, hcall, a, ha, hmatches⟩
    exact ⟨a, ha, signature, hcall, hmatches⟩
  · rintro ⟨a, ha, signature, hcall, hmatches⟩
    exact ⟨signature, hcall, a, ha, hmatches⟩

/-- Members that match no call of a unit may be left out, here and in every selection. -/
theorem agree_filter [DecidableEq α] [Ord α] {members others : List α}
    (h : ∀ a call, (member a).matchesCall u call = true → (a ∈ members ↔ a ∈ others))
    (select : α → Bool) :
    Matcher.Agree u ((ofList (Sorted.ofList (members.filter select))).matcher member)
      ((ofList (Sorted.ofList (others.filter select))).matcher member) := by
  intro call
  rw [Bool.eq_iff_iff, matchesCall_ofList_iff, matchesCall_ofList_iff]
  refine exists_congr fun a => and_congr_left fun hmatches => ?_
  rw [Sorted.mem_ofList, Sorted.mem_ofList, List.mem_filter, List.mem_filter, h a call hmatches]

end Alternatives

/-! ## Flow models -/

namespace FlowPredicate

variable {predicate other : FlowPredicate} {source target : Node}

/-- A predicate sees a unit through the calls that it matches. -/
theorem isStep_congr (h : Matcher.Agree u predicate.matcher other.matcher)
    (hshape : predicate.shape = other.shape) :
    predicate.isStep u source target = other.isStep u source target := by
  simp only [isStep, isInput, hshape, h.isParameter, h _]

theorem exists_call_of_isStep (h : predicate.isStep u source target = true) :
    ∃ call, predicate.matcher.matchesCall u call = true := by
  rw [isStep] at h
  split at h
  · split at h
    · cases h
    · exact ⟨_, (Bool.and_eq_true_iff.mp h).2⟩
  · split at h
    · cases h
    · exact ⟨_, (Bool.and_eq_true_iff.mp h).2⟩
  · split at h
    · cases h
    · exact Matcher.exists_call_of_isParameter (Bool.and_eq_true_iff.mp h).2

/-- A predicate that sees a step in a unit has a model. -/
theorem exists_model_of_isStep {models : List FlowModel} {shape : FlowShape}
    (h : (ofShape models shape).isStep u source target = true) :
    ∃ model ∈ models, shape ∈ model.shapes := by
  obtain ⟨call, hcall⟩ := exists_call_of_isStep h
  obtain ⟨model, hmodel, -⟩ := Alternatives.matchesCall_ofList_iff.mp hcall
  rw [Sorted.mem_ofList, List.mem_filter, List.contains_iff_mem] at hmodel
  exact ⟨model, hmodel⟩

end FlowPredicate

namespace CompiledFlows

variable {models others : List FlowModel} {source target : Node}

theorem isStep_compile_iff :
    (compile models).isStep u source target = true ↔
      ∃ shape, (FlowPredicate.ofShape models shape).isStep u source target = true := by
  simp only [isStep, compile, List.any_map, List.any_eq_true, Sorted.mem_ofList,
    List.mem_flatMap]
  -- Shapes without models are left out, but have no steps anyway.
  exact exists_congr fun shape => and_iff_right_of_imp FlowPredicate.exists_model_of_isStep

/-- Models that match no call of a unit may be left out. -/
theorem isStep_compile_congr (h : ∀ (model : FlowModel) (call : ElementId),
      Matcher.matchesCall model.method.isAbout u call = true →
        (model ∈ models ↔ model ∈ others)) :
    (compile models).isStep u source target = (compile others).isStep u source target := by
  rw [Bool.eq_iff_iff, isStep_compile_iff, isStep_compile_iff]
  refine exists_congr fun shape => ?_
  have hagree : Matcher.Agree u (FlowPredicate.ofShape models shape).matcher
      (FlowPredicate.ofShape others shape).matcher := Alternatives.agree_filter h _
  rw [FlowPredicate.isStep_congr hagree rfl]

end CompiledFlows

/-! ## Sink models -/

namespace SinkPredicate

variable {predicate other : SinkPredicate} {node : Node}

theorem isSink_congr (h : Matcher.Agree u predicate.matcher other.matcher)
    (hshape : predicate.shape = other.shape) :
    predicate.isSink u node = other.isSink u node := by
  simp only [isSink, hshape, h.isParameter, h.isReceiver, funext h]

theorem exists_call_of_isSink (h : predicate.isSink u node = true) :
    ∃ call, predicate.matcher.matchesCall u call = true := by
  rw [isSink] at h
  split at h
  · split at h
    · exact Matcher.exists_call_of_isReceiver h
    · exact Matcher.exists_call_of_isParameter h
  · cases hexpression : node.expression? with
    | none => simp [hexpression] at h
    | some call => exact ⟨call, by simpa [hexpression] using h⟩

theorem exists_model_of_isSink {models : List SinkModel} {kind : String} {shape : SinkShape}
    (h : (ofShape models kind shape).isSink u node = true) :
    ∃ model ∈ models, model.kind = kind ∧ shape ∈ model.shapes := by
  obtain ⟨call, hcall⟩ := exists_call_of_isSink h
  obtain ⟨model, hmodel, -⟩ := Alternatives.matchesCall_ofList_iff.mp hcall
  rw [Sorted.mem_ofList, List.mem_filter, Bool.and_eq_true, beq_iff_eq,
    List.contains_iff_mem] at hmodel
  exact ⟨model, hmodel⟩

end SinkPredicate

namespace CompiledSinks

variable {models others : List SinkModel} {kind : String} {node : Node}

theorem isSinkNode_compile_iff :
    (compile models).isSinkNode u node kind = true ↔
      ∃ shape, (SinkPredicate.ofShape models kind shape).isSink u node = true := by
  simp only [isSinkNode, compile, shapesOf, List.any_flatMap, List.any_map, List.any_eq_true,
    Function.comp_apply, Sorted.mem_ofList, List.mem_map, List.mem_flatMap, List.mem_filter,
    Bool.and_eq_true, beq_iff_eq]
  refine ⟨?_, ?_⟩
  · rintro ⟨_, -, shape, -, rfl, hsink⟩
    exact ⟨shape, hsink⟩
  · rintro ⟨shape, hsink⟩
    obtain ⟨model, hmodel, hkind, hshape⟩ := SinkPredicate.exists_model_of_isSink hsink
    exact ⟨kind, ⟨model, hmodel, hkind⟩, shape, ⟨model, ⟨hmodel, hkind⟩, hshape⟩, rfl, hsink⟩

/-- Models that match no call of a unit may be left out. -/
theorem isSinkNode_compile_congr (h : ∀ (model : SinkModel) (call : ElementId),
      Matcher.matchesCall model.method.isAbout u call = true →
        (model ∈ models ↔ model ∈ others)) :
    (compile models).isSinkNode u node kind = (compile others).isSinkNode u node kind := by
  rw [Bool.eq_iff_iff, isSinkNode_compile_iff, isSinkNode_compile_iff]
  refine exists_congr fun shape => ?_
  have hagree : Matcher.Agree u (SinkPredicate.ofShape models kind shape).matcher
      (SinkPredicate.ofShape others kind shape).matcher := Alternatives.agree_filter h _
  rw [SinkPredicate.isSink_congr hagree rfl]

end CompiledSinks

/-! ## The types in use -/

namespace CompiledModels

/-- The type of a model that matches a call of a unit is in use there. -/
theorem mem_typesInUse_of_matchesCall (hu : u.Accepted)
    (hacyclic : ∀ fqn, ¬ Relation.TransGen (TypeDecl.Extends u.tree.types) fqn fqn)
    {model : MethodModel} {call : ElementId}
    (h : Matcher.matchesCall model.isAbout u call = true) : model.fqn ∈ typesInUse u := by
  obtain ⟨signature, hcall, habout⟩ := Matcher.matchesCall_iff.mp h
  have hcalled := CompilationUnit.mem_calledSignatures hcall
  simp only [MethodModel.isAbout, MethodModel.matchesDeclaring, Bool.and_eq_true] at habout
  obtain ⟨-, hdeclaring⟩ := habout
  split at hdeclaring
  · cases hdeclaring
  · next declaring hfqn =>
    have hknown := hu.declaring_mem_names hcalled hfqn
    simp only [typesInUse, Sorted.mem_ofList, List.mem_flatMap, List.mem_filterMap]
    refine ⟨declaring, ⟨signature, hcalled, hfqn⟩, ?_⟩
    simp only [Bool.or_eq_true, Bool.and_eq_true, beq_iff_eq, List.contains_iff_mem] at hdeclaring
    -- The model is about the declaring type, the root class, or a supertype.
    rcases hdeclaring with rfl | ⟨-, hobject | hsupertype⟩
    · exact (hu.hierarchy_built.mem_supertypes_iff hknown).mpr .refl
    · rw [hobject]
      exact hu.hierarchy_built.objectName_mem_supertypes hacyclic hknown
    · exact hsupertype

/-- In a unit, the models about the types in use say all that the models of a store say. -/
theorem forUnit_agrees_with_forAll {store : ModelStore} (hstore : store.Loaded)
    (hu : u.Accepted)
    (hacyclic : ∀ fqn, ¬ Relation.TransGen (TypeDecl.Extends u.tree.types) fqn fqn) :
    (∀ kind source target, ((forUnit store u).flows kind).isStep u source target =
      ((forAll store).flows kind).isStep u source target) ∧
    ∀ kind node, (forUnit store u).sinks.isSinkNode u node kind =
      (forAll store).sinks.isSinkNode u node kind := by
  obtain ⟨hflows, hsinks⟩ := hstore.filed
  have hinUse : ∀ (model : FlowModel) (call : ElementId) (kind : FlowKind),
      Matcher.matchesCall model.method.isAbout u call = true →
      (model ∈ (store.flows kind).forTypes (typesInUse u) ↔ model ∈ (store.flows kind).all) := by
    intro model call kind hmatches
    rw [(hflows kind).mem_forTypes_iff]
    exact and_iff_left (mem_typesInUse_of_matchesCall hu hacyclic hmatches)
  refine ⟨fun kind source target => ?_, fun kind node => ?_⟩
  · cases kind with
    | value => exact CompiledFlows.isStep_compile_congr fun model call => hinUse model call .value
    | taint => exact CompiledFlows.isStep_compile_congr fun model call => hinUse model call .taint
  · refine CompiledSinks.isSinkNode_compile_congr fun model call hmatches => ?_
    rw [hsinks.mem_forTypes_iff]
    exact and_iff_left (mem_typesInUse_of_matchesCall hu hacyclic hmatches)

end CompiledModels

/-! ## A method of a supertype -/

/-- A class with a method that calls a method of the type `Task`, which extends `Base`:
    `test() { task.run("42"); }`. -/
def taskTree : Tree :=
  let run : Signature := ⟨.named "Task", "run", [.string], .string, ⟨0⟩⟩
  let kinds : List Kind := [
    .compilationUnit "" [⟨1⟩], .classDecl "Main" [⟨2⟩],
    .method ⟨.named "Main", "test", [], .primitive .void, ⟨0⟩⟩ [] (some ⟨3⟩), .block [⟨4⟩],
    .exprStmt ⟨5⟩, .call (some ⟨6⟩) "run" (some run) [⟨7⟩],
    .identifier "task" none (.named "Task"), .literal (.string "42") .string]
  { root := ⟨0⟩, elements := (kinds.map fun kind => ⟨none, kind⟩).toArray,
    types := [.ofClass "Task" (some "Base") []] }

/-- The unit of that tree. -/
def taskUnit : CompilationUnit :=
  (CompilationUnit.ofTree taskTree).toOption.get (by decide +kernel)

theorem taskUnit_accepted : taskUnit.Accepted := ⟨taskTree, eq_ok_get _⟩

/-- Models about a supertype, about a type that is not used, and about the root class. -/
def taskStore : ModelStore :=
  let model (package type input : String) : FlowModel :=
    ⟨⟨package, type, true, "run", "", "", input⟩, "ReturnValue", .taint, ""⟩
  { value := .empty
    taint := ⟨[("Base", [model "" "Base" "Argument[0]"]),
      ("Other", [model "" "Other" "Argument[0]"]),
      (objectName, [model "java.lang" "Object" "Argument[-1]"])]⟩
    sinks := .empty }

theorem taskStore_loaded : taskStore.Loaded := by
  refine @ModelStore.Loaded.addFlows .empty _ "models"
    ("\n,Base,true,run,,,Argument[0],ReturnValue,taint," ++
      "\n,Other,true,run,,,Argument[0],ReturnValue,taint," ++
      "\njava.lang,Object,true,run,,,Argument[-1],ReturnValue,taint,") .empty ?_
  exact toOption_eq_some_iff.mp (by decide +kernel)

theorem taskUnit_acyclic (fqn : String) :
    ¬ Relation.TransGen (TypeDecl.Extends taskUnit.tree.types) fqn fqn := by
  have htypes : taskUnit.tree.types = [.ofClass "Task" (some "Base") []] := by decide +kernel
  have hextends : ∀ sub sup, TypeDecl.Extends taskUnit.tree.types sub sup →
      sub = "Task" ∧ sup = "Base" := by
    rw [htypes]
    rintro sub sup ⟨decl, hdecl, rfl, hsup⟩
    rw [List.mem_singleton] at hdecl
    subst hdecl
    exact ⟨rfl, List.mem_singleton.mp hsup⟩
  intro hcycle
  obtain ⟨next, hfirst, -⟩ := Relation.TransGen.head'_iff.mp hcycle
  obtain ⟨last, -, hlast⟩ := Relation.TransGen.tail'_iff.mp hcycle
  have heq := (hextends _ _ hfirst).1.symm.trans (hextends _ _ hlast).2
  exact absurd heq (by decide)

/-- The model about the type that is not used is left out, and no step of the unit with it. -/
theorem CompiledModels.forUnit_agrees_with_forAll_taskUnit :
    taskStore.Loaded ∧ taskUnit.Accepted ∧
    ((forUnit taskStore taskUnit).taint.models.length = 2 ∧
      (forAll taskStore).taint.models.length = 3) ∧
    ((forUnit taskStore taskUnit).flows .taint).isStep taskUnit (.expression ⟨7⟩)
      (.expression ⟨5⟩) = true ∧
    ∀ source target, ((forUnit taskStore taskUnit).flows .taint).isStep taskUnit source target =
      ((forAll taskStore).flows .taint).isStep taskUnit source target :=
  ⟨taskStore_loaded, taskUnit_accepted, by decide +kernel, by decide +kernel,
    (forUnit_agrees_with_forAll taskStore_loaded taskUnit_accepted taskUnit_acyclic).1 .taint⟩

end ValueFlow
