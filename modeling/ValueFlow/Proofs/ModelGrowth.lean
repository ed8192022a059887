/-
  ValueFlow.Proofs.ModelGrowth

  More flow models lose no local flow.

  Models are grouped and sorted before they are used, but what a group says depends only on
  which models there are, and grows with them. So the steps of a specification grow with
  the models, and from values to taint. Sinks, barriers and guards stay as they are if they
  do not look at flow models, hence every path to a sink stays one.
-/

import ValueFlow.Flow.Selector
import ValueFlow.Proofs.LocalInGlobal
import ValueFlow.Proofs.ModelsInUse

namespace ValueFlow

/-! ## Comparing sink models -/

theorem MethodModel.compare_eq : (compare : MethodModel → MethodModel → Ordering) =
    compareLex (compareOn package) (compareLex (compareOn typeName)
      (compareLex (compareOn subtypes) (compareLex (compareOn MethodModel.name)
        (compareLex (compareOn signature) (compareLex (compareOn ext) (compareOn input)))))) := by
  funext a b
  simp only [compareLex, compareOn]
  rw [← Ordering.then_eq (o := compare a.input b.input)]
  rfl

instance : Std.TransOrd MethodModel := by
  rw [Std.TransOrd, MethodModel.compare_eq]
  infer_instance

instance : Std.LawfulEqOrd MethodModel where
  eq_of_compare {a b} h := by
    rw [MethodModel.compare_eq] at h
    simp only [compareLex, compareOn, Ordering.then_eq_eq,
      Std.LawfulEqOrd.compare_eq_iff_eq] at h
    cases a
    cases b
    simp_all

theorem SinkModel.compare_eq : (compare : SinkModel → SinkModel → Ordering) =
    compareLex (compareOn SinkModel.method)
      (compareLex (compareOn SinkModel.kind) (compareOn SinkModel.provenance)) := by
  funext a b
  simp only [compareLex, compareOn]
  rw [← Ordering.then_eq (o := compare a.provenance b.provenance)]
  rfl

instance : Std.TransOrd SinkModel := by
  rw [Std.TransOrd, SinkModel.compare_eq]
  infer_instance

instance : Std.LawfulEqOrd SinkModel where
  eq_of_compare {a b} h := by
    rw [SinkModel.compare_eq] at h
    simp only [compareLex, compareOn, Ordering.then_eq_eq,
      Std.LawfulEqOrd.compare_eq_iff_eq] at h
    cases a
    cases b
    simp_all

/-- Arguments come before returned values, by their positions. -/
theorem SinkShape.compare_eq : (compare : SinkShape → SinkShape → Ordering) =
    compareLex (compareOn fun shape => if shape = .returned then 1 else 0)
      (compareOn fun | .argument index => index | .returned => 0) := by
  funext a b
  cases a <;> cases b
  · exact Ordering.then_eq
  · rfl
  · rfl
  · rfl

instance : Std.TransOrd SinkShape := by
  rw [Std.TransOrd, SinkShape.compare_eq]
  infer_instance

instance : Std.LawfulEqOrd SinkShape where
  eq_of_compare {a b} h := by
    rw [SinkShape.compare_eq, compareLex, Ordering.then_eq_eq] at h
    cases a <;> cases b <;> simp_all [compareOn]

/-- Compiled sink models depend only on which models there are. -/
theorem CompiledSinks.compile_congr {models others : List SinkModel}
    (h : ∀ model, model ∈ models ↔ model ∈ others) : compile models = compile others := by
  have hkinds : Sorted.ofList (models.map (·.kind)) = Sorted.ofList (others.map (·.kind)) :=
    Sorted.ofList_congr fun kind => by simp only [List.mem_map, h]
  have hshapes : ∀ kind, shapesOf models kind = shapesOf others kind := fun kind =>
    Sorted.ofList_congr fun shape => by simp only [List.mem_flatMap, List.mem_filter, h]
  have hgroups : ∀ kind, SinkPredicate.ofShape models kind = SinkPredicate.ofShape others kind := by
    intro kind
    funext shape
    refine congrArg (fun group => SinkPredicate.mk kind shape (.ofList group)) ?_
    exact Sorted.ofList_congr fun model => by simp only [List.mem_filter, h]
  simp only [compile, hkinds, hshapes, hgroups]

/-! ## More models, more steps -/

variable {u : CompilationUnit}

namespace Matcher

variable {m other : Matcher} {node : Node} {index : Int}

/-- What is passed to a call that one matcher accepts is passed to one that a wider matcher
    accepts. -/
theorem isParameter_mono
    (h : ∀ call, m.matchesCall u call = true → other.matchesCall u call = true)
    (hparameter : m.isParameter u node index = true) : other.isParameter u node index = true := by
  simp only [isParameter, Option.any_eq_true] at hparameter ⊢
  obtain ⟨found, hfound, hindex⟩ := hparameter
  obtain ⟨hargument, hmatches⟩ := Option.filter_eq_some_iff.mp hfound
  exact ⟨found, Option.filter_eq_some_iff.mpr ⟨hargument, h found.1 hmatches⟩, hindex⟩

end Matcher

namespace FlowPredicate

variable {predicate other : FlowPredicate} {source target : Node}

theorem isInput_mono
    (h : ∀ call, predicate.matcher.matchesCall u call = true →
      other.matcher.matchesCall u call = true) {call : ElementId} {index : Int}
    (hinput : predicate.isInput u source call index = true) :
    other.isInput u source call index = true := by
  rw [isInput] at hinput ⊢
  split at hinput
  · next hreceiver => rwa [if_pos hreceiver]
  · next hargument =>
    rw [if_neg hargument, Bool.and_eq_true]
    rw [Bool.and_eq_true] at hinput
    exact ⟨hinput.1, Matcher.isParameter_mono h hinput.2⟩

/-- A predicate that matches more calls has more steps. -/
theorem isStep_mono
    (h : ∀ call, predicate.matcher.matchesCall u call = true →
      other.matcher.matchesCall u call = true) (hshape : predicate.shape = other.shape)
    (hstep : predicate.isStep u source target = true) : other.isStep u source target = true := by
  have hmatched : ∀ call index,
      (predicate.isInput u source call index && predicate.matcher.matchesCall u call) = true →
        (other.isInput u source call index && other.matcher.matchesCall u call) = true := by
    intro call index hboth
    rw [Bool.and_eq_true] at hboth ⊢
    exact ⟨isInput_mono h hboth.1, h call hboth.2⟩
  rw [isStep] at hstep ⊢
  rw [← hshape]
  cases hcase : predicate.shape with
  | toReturn index =>
    simp only [hcase] at hstep ⊢
    split at hstep
    · cases hstep
    · exact hmatched _ index hstep
  | toReceiver index =>
    simp only [hcase] at hstep ⊢
    split at hstep
    · cases hstep
    · exact hmatched _ index hstep
  | toArgument index targetIndex =>
    simp only [hcase] at hstep ⊢
    split at hstep
    · cases hstep
    · rw [Bool.and_eq_true, Bool.and_eq_true] at hstep ⊢
      obtain ⟨⟨hne, hinput⟩, hparameter⟩ := hstep
      exact ⟨⟨hne, isInput_mono h hinput⟩, Matcher.isParameter_mono h hparameter⟩

end FlowPredicate

/-- More flow models have more steps. -/
theorem CompiledFlows.isStep_compile_mono {models others : List FlowModel}
    (h : ∀ model ∈ models, model ∈ others) {source target : Node}
    (hstep : (compile models).isStep u source target = true) :
    (compile others).isStep u source target = true := by
  obtain ⟨shape, hshape⟩ := isStep_compile_iff.mp hstep
  have hwider : ∀ call, (FlowPredicate.ofShape models shape).matcher.matchesCall u call = true →
      (FlowPredicate.ofShape others shape).matcher.matchesCall u call = true := by
    intro call hcall
    obtain ⟨model, hmodel, hmatches⟩ := Alternatives.matchesCall_ofList_iff.mp hcall
    refine Alternatives.matchesCall_ofList_iff.mpr ⟨model, ?_, hmatches⟩
    rw [Sorted.mem_ofList, List.mem_filter] at hmodel ⊢
    exact ⟨h model hmodel.1, hmodel.2⟩
  exact isStep_compile_iff.mpr ⟨shape, FlowPredicate.isStep_mono hwider rfl hshape⟩

/-! ## Larger stores -/

/-- A store has the sink models of another one and at least its flow models. -/
structure ModelStore.Grows (store later : ModelStore) : Prop where
  sinks : ∀ model, model ∈ store.sinks.all ↔ model ∈ later.sinks.all
  flows : ∀ kind, ∀ model ∈ (store.flows kind).all, model ∈ (later.flows kind).all

section Stores

variable {store later : ModelStore} (hstore : store.Loaded) (hlater : later.Loaded)
  (hgrows : store.Grows later) (u : CompilationUnit)
include hstore hlater hgrows

theorem CompiledModels.sinks_forUnit_eq :
    (forUnit store u).sinks = (forUnit later u).sinks := by
  refine CompiledSinks.compile_congr fun model => ?_
  rw [hstore.filed.2.mem_forTypes_iff, hlater.filed.2.mem_forTypes_iff, hgrows.sinks]

theorem CompiledModels.isStep_forUnit_mono (kind : FlowKind) {source target : Node}
    (hstep : ((forUnit store u).flows kind).isStep u source target = true) :
    ((forUnit later u).flows kind).isStep u source target = true := by
  have hmodels : ∀ kind, ∀ model ∈ (store.flows kind).forTypes (typesInUse u),
      model ∈ (later.flows kind).forTypes (typesInUse u) := by
    intro kind model hmodel
    rw [(hstore.filed.1 kind).mem_forTypes_iff] at hmodel
    rw [(hlater.filed.1 kind).mem_forTypes_iff]
    exact ⟨hgrows.flows kind model hmodel.1, hmodel.2⟩
  cases kind with
  | value => exact CompiledFlows.isStep_compile_mono (hmodels .value) hstep
  | taint => exact CompiledFlows.isStep_compile_mono (hmodels .taint) hstep

end Stores

/-! ## Specifications -/

namespace FlowSpec

/-- The tests of a specification look at the unit and the sink models at most. -/
structure IgnoresFlowModels (spec : FlowSpec) : Prop where
  isSource : ∀ u models later, models.sinks = later.sinks →
    spec.isSource ⟨u, models⟩ = spec.isSource ⟨u, later⟩
  isSink : ∀ u models later, models.sinks = later.sinks →
    spec.isSink ⟨u, models⟩ = spec.isSink ⟨u, later⟩
  isExtraStep : ∀ u models later, models.sinks = later.sinks →
    spec.isExtraStep ⟨u, models⟩ = spec.isExtraStep ⟨u, later⟩
  isBarrier : ∀ u models later, models.sinks = later.sinks →
    spec.isBarrier ⟨u, models⟩ = spec.isBarrier ⟨u, later⟩
  isBarrierGuard : ∀ u models later, models.sinks = later.sinks →
    spec.isBarrierGuard ⟨u, models⟩ = spec.isBarrierGuard ⟨u, later⟩

end FlowSpec

/-- Selectors know sink models, but no flow models. -/
theorem Selector.holds_congr {models later : CompiledModels} (h : models.sinks = later.sinks)
    (node : Node) (selector : Selector) :
    selector.holds ⟨u, models⟩ node = selector.holds ⟨u, later⟩ node := by
  cases selector with
  | sinkKind name => rw [holds, holds, FlowContext.isSinkNode, FlowContext.isSinkNode, h]
  | _ => rfl

theorem SelectorSpec.toSpec_ignoresFlowModels (data : SelectorSpec) :
    data.toSpec.IgnoresFlowModels := by
  have htest : ∀ (selectors : List Selector) u (models later : CompiledModels),
      models.sinks = later.sinks →
        (fun node => selectors.any (Selector.holds ⟨u, models⟩ node)) =
          fun node => selectors.any (Selector.holds ⟨u, later⟩ node) := by
    intro selectors u models later h
    funext node
    congr 1
    funext selector
    exact Selector.holds_congr h node selector
  exact ⟨htest data.sources, htest data.sinks, fun _ _ _ _ => rfl, htest data.barriers,
    fun _ _ _ _ => rfl⟩

/-- More models and following taint add steps. -/
theorem FlowSpec.isStep_taint {spec : FlowSpec} {models later : CompiledModels}
    (hflows : ∀ kind source target, (models.flows kind).isStep u source target = true →
      (later.flows kind).isStep u source target = true)
    (hextra : spec.isExtraStep ⟨u, models⟩ = spec.isExtraStep ⟨u, later⟩) {source target : Node}
    (h : spec.isStep ⟨u, models⟩ source target = true) :
    spec.taint.isStep ⟨u, later⟩ source target = true := by
  simp only [isStep, Bool.or_eq_true, Bool.and_eq_true] at h ⊢
  rcases h with (hvalue | ⟨-, htaint | hdefault⟩) | hstep
  · exact Or.inl (Or.inl (hflows .value source target hvalue))
  · exact Or.inl (Or.inr ⟨rfl, Or.inl (hflows .taint source target htaint)⟩)
  · exact Or.inl (Or.inr ⟨rfl, Or.inr hdefault⟩)
  · rw [hextra] at hstep
    exact Or.inr hstep

section Local

variable {spec : FlowSpec} (hspec : spec.IgnoresFlowModels) {models later : CompiledModels}
  (hsinks : models.sinks = later.sinks)
  (hflows : ∀ kind source target, (models.flows kind).isStep u source target = true →
    (later.flows kind).isStep u source target = true)
include hspec hsinks hflows

/-- So they add local steps. -/
theorem FlowSpec.localStep_taint {start node next : Node}
    (h : spec.LocalStep ⟨u, models⟩ start node next) :
    spec.taint.LocalStep ⟨u, later⟩ start node next := by
  obtain ⟨hsuccessor, hbarrier, hreaches⟩ := h
  have hstep : ∀ a b, spec.isStep ⟨u, models⟩ a b = true →
      spec.taint.isStep ⟨u, later⟩ a b = true := fun a b =>
    isStep_taint hflows (hspec.isExtraStep u models later hsinks)
  have hnext : next ∈ spec.taint.successors ⟨u, later⟩ node :=
    @successors_mono spec spec.taint ⟨u, models⟩ ⟨u, later⟩ rfl hstep node next hsuccessor
  refine ⟨hnext, ?_, ?_⟩
  · show spec.isBarrier ⟨u, later⟩ next = false
    rwa [← hspec.isBarrier u models later hsinks]
  · intro id hid
    obtain ⟨method, flow, hmethod, hbuild, hmem⟩ := hreaches id hid
    rw [hspec.isBarrierGuard u models later hsinks] at hmem
    exact ⟨method, flow, hmethod, hbuild, hmem⟩

/-- A summary that is found with fewer steps has its paths in one that is found with more. -/
theorem findSinks_taint (hu : u.Accepted) {start : Node} (hstart : start ∈ Node.attached u)
    {summary : SinkSummary} (h : findSinks spec ⟨u, models⟩ start = .ok (some summary)) :
    ∃ larger, findSinks spec.taint ⟨u, later⟩ start = .ok (some larger) ∧
      ∀ path ∈ summary.paths, path ∈ larger.paths := by
  obtain ⟨hsource, hnonempty, hflow⟩ := source_of_findSinks h
  obtain ⟨-, hpaths⟩ := @findSinks_eq_some spec ⟨u, models⟩ hu start hstart summary h
  have hsource' : spec.taint.isSource ⟨u, later⟩ start = true := by
    show spec.isSource ⟨u, later⟩ start = true
    rwa [← hspec.isSource u models later hsinks]
  obtain ⟨larger, hlarger, hpaths'⟩ :=
    @findSinks_eq_ok spec.taint ⟨u, later⟩ start hu hstart hflow hsource'
  have hmore : ∀ path ∈ summary.paths, path ∈ larger.paths := by
    intro path hpath
    obtain ⟨htrail, sink, hlast, hsink⟩ := (hpaths path).mp hpath
    refine (hpaths' path).mpr ⟨htrail.imp ?_, sink, hlast, ?_⟩
    · exact fun node next _ hstep => FlowSpec.localStep_taint hspec hsinks hflows hstep
    · show spec.isSink ⟨u, later⟩ sink = true
      rwa [← hspec.isSink u models later hsinks]
  refine ⟨larger, ?_, hmore⟩
  -- A path of the smaller summary is one of the larger, which is not empty then.
  obtain ⟨path, hpath⟩ := List.isEmpty_eq_false_iff_exists_mem.mp hnonempty
  have hlargerNonempty : larger.isEmpty = false :=
    List.isEmpty_eq_false_iff_exists_mem.mpr ⟨path, hmore path hpath⟩
  rw [hlarger, hlargerNonempty]
  rfl

end Local

/-- More flow models and following taint lose no local flow: where a summary was found one
    is found, with all sinks and nodes of the first. -/
theorem findSinks_grows (spec : FlowSpec) (hspec : spec.IgnoresFlowModels)
    (store later : ModelStore) (hstore : store.Loaded) (hlater : later.Loaded)
    (hgrows : store.Grows later) (u : CompilationUnit) (hu : u.Accepted) (start : Node)
    (hstart : start ∈ Node.attached u) (summary : SinkSummary)
    (h : findSinks spec ⟨u, .forUnit store u⟩ start = .ok (some summary)) :
    ∃ larger, findSinks spec.taint ⟨u, .forUnit later u⟩ start = .ok (some larger) ∧
      (∀ node ∈ summary.sinks, node ∈ larger.sinks) ∧
      ∀ node ∈ summary.participants, node ∈ larger.participants := by
  have hsinks := CompiledModels.sinks_forUnit_eq hstore hlater hgrows u
  have hflows := fun kind source target =>
    @CompiledModels.isStep_forUnit_mono store later hstore hlater hgrows u kind source target
  obtain ⟨larger, hlarger, hpaths⟩ := findSinks_taint hspec hsinks hflows hu hstart h
  refine ⟨larger, hlarger, fun node hnode => ?_, fun node hnode => ?_⟩
  · rw [SinkSummary.sinks, Sorted.mem_ofList, List.mem_filterMap] at hnode ⊢
    obtain ⟨path, hpath, hlast⟩ := hnode
    exact ⟨path, hpaths path hpath, hlast⟩
  · rw [SinkSummary.participants, Sorted.mem_ofList, List.mem_flatten] at hnode ⊢
    obtain ⟨path, hpath, hmem⟩ := hnode
    exact ⟨path, hpaths path hpath, hmem⟩

/-- A value model about the supertype of `Task`. -/
def valueStore : ModelStore :=
  { ModelStore.empty with
    value := ⟨[("Base", [⟨⟨"", "Base", true, "run", "", "", "Argument[0]"⟩, "ReturnValue",
      .value, ""⟩])]⟩ }

theorem valueStore_loaded : valueStore.Loaded := by
  refine @ModelStore.Loaded.addFlows .empty _ "models"
    "\n,Base,true,run,,,Argument[0],ReturnValue,value," .empty ?_
  exact toOption_eq_some_iff.mp (by decide +kernel)

/-- The same with taint models, too. -/
def valueAndTaintStore : ModelStore := { taskStore with value := valueStore.value }

theorem valueAndTaintStore_loaded : valueAndTaintStore.Loaded := by
  refine @ModelStore.Loaded.addFlows valueStore _ "models"
    ("\n,Base,true,run,,,Argument[0],ReturnValue,taint," ++
      "\n,Other,true,run,,,Argument[0],ReturnValue,taint," ++
      "\njava.lang,Object,true,run,,,Argument[-1],ReturnValue,taint,") valueStore_loaded ?_
  exact toOption_eq_some_iff.mp (by decide +kernel)

theorem valueStore_grows : valueStore.Grows valueAndTaintStore where
  sinks _ := Iff.rfl
  flows kind := by cases kind <;> decide +kernel

/-- From the text "42" to the calls of `run`. -/
def literalToRun : SelectorSpec := ⟨false, [.literal (.string "42")], [.call "run"], [], [], []⟩

/-- In the unit with the call of `run`, the flow that the value model gives stays. -/
theorem findSinks_grows_taskUnit :
    valueStore.Loaded ∧ valueAndTaintStore.Loaded ∧ valueStore.Grows valueAndTaintStore ∧
      taskUnit.Accepted ∧ ∃ summary larger,
        findSinks literalToRun.toSpec ⟨taskUnit, .forUnit valueStore taskUnit⟩
          (.expression ⟨7⟩) = .ok (some summary) ∧
        summary.sinks = [.expression ⟨5⟩] ∧
        findSinks literalToRun.toSpec.taint ⟨taskUnit, .forUnit valueAndTaintStore taskUnit⟩
          (.expression ⟨7⟩) = .ok (some larger) ∧
        .expression ⟨5⟩ ∈ larger.sinks := by
  have hsinks : (findSinks literalToRun.toSpec ⟨taskUnit, .forUnit valueStore taskUnit⟩
      (.expression ⟨7⟩)).toOption.map (·.map SinkSummary.sinks) =
        some (some [.expression ⟨5⟩]) := by decide +kernel
  obtain ⟨result, hresult, hmap⟩ := Option.map_eq_some_iff.mp hsinks
  obtain ⟨summary, rfl, hsummary⟩ := Option.map_eq_some_iff.mp hmap
  have hfind := toOption_eq_some_iff.mp hresult
  obtain ⟨larger, hlarger, hmore, -⟩ := findSinks_grows literalToRun.toSpec
    literalToRun.toSpec_ignoresFlowModels valueStore valueAndTaintStore valueStore_loaded
    valueAndTaintStore_loaded valueStore_grows taskUnit taskUnit_accepted (.expression ⟨7⟩)
    (by decide +kernel) summary hfind
  refine ⟨valueStore_loaded, valueAndTaintStore_loaded, valueStore_grows, taskUnit_accepted,
    summary, larger, hfind, hsummary, hlarger, hmore _ ?_⟩
  rw [hsummary]
  exact List.mem_singleton_self _

end ValueFlow
