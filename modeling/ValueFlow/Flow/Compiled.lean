/-
  ValueFlow.Flow.Compiled

  Models grouped by what they say: all models that move values between the same
  positions make one predicate, and so do all sink models of one kind and position.

  For a unit only those models matter whose type is the declaring type of a called
  method or a supertype of one.
-/

import ValueFlow.Flow.Matching
import ValueFlow.Model.Store

namespace ValueFlow

/-! ## Flow models -/

/-- The positions that a flow model moves values between; -1 is the receiver. -/
inductive FlowShape where
  | toReturn (source : Int)
  | toReceiver (source : Int)
  | toArgument (source target : Int)
deriving DecidableEq, Repr, Ord

/-- How a shape is shown. -/
def FlowShape.text : FlowShape → String
  | .toReturn source => argumentPosition source ++ " -> " ++ returnPosition
  | .toReceiver source => argumentPosition source ++ " -> " ++ receiverPosition
  | .toArgument source target => argumentPosition source ++ " -> " ++ argumentPosition target

/-- The argument positions that a model takes values from; none if its input is not
    a range. -/
def MethodModel.inputs (model : MethodModel) : List Int :=
  (model.inputRange?.map ArgumentRange.positions).getD []

/-- The shapes of a model. What goes into a constructor comes out as the new object,
    and a receiver never flows into itself. -/
def FlowModel.shapes (model : FlowModel) : List FlowShape :=
  let inputs := model.method.inputs
  let outputs := (model.outputRange?.map ArgumentRange.positions).getD []
  let isConstructor := model.method.isConstructor
  (if model.output == returnPosition || isConstructor then inputs.map .toReturn else [])
    ++ (if model.output == receiverPosition && !isConstructor then
        (inputs.filter (· != -1)).map .toReceiver
      else [])
    ++ inputs.flatMap fun i => (outputs.filter (0 ≤ ·)).map (.toArgument i)

/-- All models of one shape. -/
structure FlowPredicate where
  shape : FlowShape
  models : Alternatives FlowModel
deriving DecidableEq, Repr

namespace FlowPredicate

/-- The models of a shape among all. -/
def ofShape (models : List FlowModel) (shape : FlowShape) : FlowPredicate :=
  ⟨shape, .ofList (Sorted.ofList (models.filter fun model => model.shapes.contains shape))⟩

/-- The methods that some model of the predicate is about. -/
def matcher (predicate : FlowPredicate) : Matcher :=
  predicate.models.matcher fun model => model.method.isAbout

/-- Whether a node takes an input position of a call: it is the receiver, or passed
    to the parameter at the index. -/
def isInput (predicate : FlowPredicate) (u : CompilationUnit) (source : Node)
    (call : ElementId) (index : Int) : Bool :=
  if index == -1 then source.receiverOf? u == some call
  else
    (source.argumentOf? u).map (·.1) == some call
      && predicate.matcher.isParameter u source index

/-- Whether a matching call moves the value of `source` into `target`; both belong to
    that call. -/
def isStep (predicate : FlowPredicate) (u : CompilationUnit) (source target : Node) : Bool :=
  match predicate.shape with
  | .toReturn index =>
    match target.expression? with
    | none => false
    | some call =>
      predicate.isInput u source call index && predicate.matcher.matchesCall u call
  | .toReceiver index =>
    match target.receiverOf? u with
    | none => false
    | some call =>
      predicate.isInput u source call index && predicate.matcher.matchesCall u call
  | .toArgument index targetIndex =>
    match target.argumentOf? u with
    | none => false
    | some (call, _) =>
      source != target && predicate.isInput u source call index
        && predicate.matcher.isParameter u target targetIndex

end FlowPredicate

/-- Predicates compiled from flow models of one kind, by increasing shape. -/
structure CompiledFlows where
  predicates : List FlowPredicate
deriving DecidableEq, Repr

namespace CompiledFlows

/-- Groups models by shape. -/
def compile (models : List FlowModel) : CompiledFlows where
  predicates := (Sorted.ofList (models.flatMap FlowModel.shapes)).map (.ofShape models)

/-- Whether some model moves the value of `source` into `target`. -/
def isStep (flows : CompiledFlows) (u : CompilationUnit) (source target : Node) : Bool :=
  flows.predicates.any fun predicate => predicate.isStep u source target

/-- All models of some predicate, in increasing order. -/
def models (flows : CompiledFlows) : List FlowModel :=
  Sorted.ofList (flows.predicates.flatMap fun predicate => predicate.models.toList)

end CompiledFlows

/-! ## Sink models -/

/-- The position that a sink model is about; argument -1 is the receiver. -/
inductive SinkShape where
  | argument (index : Int)
  | returned
deriving DecidableEq, Repr, Ord

/-- How a shape is shown. -/
def SinkShape.text : SinkShape → String
  | .argument index => argumentPosition index
  | .returned => returnPosition

/-- The shapes of a sink model. -/
def SinkModel.shapes (model : SinkModel) : List SinkShape :=
  (if model.method.input == returnPosition then [.returned] else [])
    ++ model.method.inputs.map .argument

/-- All models of one kind and shape. -/
structure SinkPredicate where
  kind : String
  shape : SinkShape
  models : Alternatives SinkModel
deriving DecidableEq, Repr

namespace SinkPredicate

/-- The models of a kind and shape among all. -/
def ofShape (models : List SinkModel) (kind : String) (shape : SinkShape) : SinkPredicate :=
  ⟨kind, shape, .ofList (Sorted.ofList (models.filter fun model =>
    model.kind == kind && model.shapes.contains shape))⟩

/-- The methods that some model of the predicate is about. -/
def matcher (predicate : SinkPredicate) : Matcher :=
  predicate.models.matcher fun model => model.method.isAbout

/-- Whether a node takes the position of the predicate in a matching call. -/
def isSink (predicate : SinkPredicate) (u : CompilationUnit) (node : Node) : Bool :=
  match predicate.shape with
  | .argument index =>
    if index == -1 then predicate.matcher.isReceiver u node
    else predicate.matcher.isParameter u node index
  | .returned => node.expression?.any (predicate.matcher.matchesCall u)

end SinkPredicate

/-- Predicates compiled from sink models, by increasing kind and then shape. -/
structure CompiledSinks where
  predicates : List SinkPredicate
deriving DecidableEq, Repr

namespace CompiledSinks

/-- The shapes that models of a kind have. -/
def shapesOf (models : List SinkModel) (kind : String) : List SinkShape :=
  Sorted.ofList ((models.filter fun model => model.kind == kind).flatMap SinkModel.shapes)

/-- Groups models by kind and shape. -/
def compile (models : List SinkModel) : CompiledSinks where
  predicates := (Sorted.ofList (models.map (·.kind))).flatMap fun kind =>
    (shapesOf models kind).map (.ofShape models kind)

/-- Whether a sink model of a kind is about the node. -/
def isSinkNode (sinks : CompiledSinks) (u : CompilationUnit) (node : Node) (kind : String) :
    Bool :=
  sinks.predicates.any fun predicate => predicate.kind == kind && predicate.isSink u node

/-- All models of some predicate, in increasing order. -/
def models (sinks : CompiledSinks) : List SinkModel :=
  Sorted.ofList (sinks.predicates.flatMap fun predicate => predicate.models.toList)

end CompiledSinks

/-! ## Both -/

/-- All models, compiled. -/
structure CompiledModels where
  value : CompiledFlows
  taint : CompiledFlows
  sinks : CompiledSinks
deriving DecidableEq, Repr

namespace CompiledModels

/-- The compiled flow models of a kind. -/
def flows (models : CompiledModels) : FlowKind → CompiledFlows
  | .value => models.value
  | .taint => models.taint

/-- All models of a store. -/
def forAll (store : ModelStore) : CompiledModels where
  value := .compile store.value.all
  taint := .compile store.taint.all
  sinks := .compile store.sinks.all

/-- The types that models for a unit can be about: the declaring types of its calls
    and their supertypes. -/
def typesInUse (u : CompilationUnit) : List String :=
  Sorted.ofList ((u.calledSignatures.filterMap (·.declaringType.fqn?)).flatMap
    u.hierarchy.supertypes)

/-- The models of a store that matter for a unit. -/
def forUnit (store : ModelStore) (u : CompilationUnit) : CompiledModels :=
  let types := typesInUse u
  { value := .compile (store.value.forTypes types)
    taint := .compile (store.taint.forTypes types)
    sinks := .compile (store.sinks.forTypes types) }

end CompiledModels
end ValueFlow
