/-
  ValueFlow.Command.Report

  Results as the program prints them.
-/

import ValueFlow.Flow.Global
import ValueFlow.Flow.Local
import ValueFlow.Json.Basic
import ValueFlow.Pattern.Basic
import ValueFlow.Syntax.Json

namespace ValueFlow

/-- A text with spaces after it, up to a width. -/
def padRight (width : Nat) (text : String) : String :=
  text ++ String.ofList (List.replicate (width - text.length) ' ')

/-- Lines, each with its end. -/
def unlines (lines : List String) : String :=
  String.join (lines.map fun line => line ++ "\n")

/-- Whether a filter keeps a name. -/
def isKept (filter : Option Pattern) (name : String) : Bool :=
  filter.all fun pattern => pattern.isFoundIn name

/-! ## Flows -/

namespace Node

/-- A node as the fields of an object. -/
def toFields (node : Node) : List (String × Json) :=
  [("node", .str (if node.isParameter then "parameter" else "expression")),
    ("element", node.id.toJson)]

/-- A node with its source code. -/
def toStep (u : CompilationUnit) (node : Node) : Json :=
  .obj (node.toFields ++ [("source", .str (node.snippet u))])

end Node

namespace LocalFlows

/-- Local flows as JSON. -/
def toJson (flows : LocalFlows) (u : CompilationUnit) (kind : FlowKind) : Json :=
  .obj [("kind", .str kind.text), ("sources", .ofList (Node.toStep u) flows.sources),
    ("sinks", .ofList (Node.toStep u) flows.sinks),
    ("paths", .ofList (Json.ofList (Node.toStep u)) flows.paths)]

/-- A path with its number. -/
def pathLines (u : CompilationUnit) (path : List Node) (number : Nat) : List String :=
  ("path #" ++ toString number ++ ":")
    :: path.map fun node => "  " ++ padRight 10 node.text ++ " " ++ node.snippet u

/-- The paths of local flows. -/
def listing (flows : LocalFlows) (u : CompilationUnit) : String :=
  unlines (flows.paths.zipIdx.flatMap fun (path, number) => pathLines u path number)

end LocalFlows

namespace GlobalFlows

/-- The participants of global flows as JSON. -/
def toJson (flows : GlobalFlows) (spec : FlowSpec) (cx : FlowContext) : Json :=
  .ofList (fun node : Node =>
    let role := flows.role spec cx node.id
    .obj (node.toFields ++
      [("is_source", .bool role.isSource), ("is_sink", .bool role.isSink),
        ("is_flow_participant", .bool role.isParticipant),
        ("source", .str (node.snippet cx.unit))]))
    flows.participants

end GlobalFlows

/-! ## Types and models -/

/-- The types that a filter keeps, each with its supertypes. -/
def Hierarchy.listing (hierarchy : Hierarchy) (filter : Pattern) : String :=
  unlines ((hierarchy.types.filter fun type => filter.isFoundIn type.fqn).map fun type =>
    type.fqn ++ ": "
      ++ ", ".intercalate ((hierarchy.supertypes type.fqn).filter fun fqn => fqn != type.fqn))

/-- Number of models for each type that a filter keeps. -/
def ModelStore.counts (store : ModelStore) (filter : Option Pattern) : String :=
  let fqns := Sorted.ofList (store.value.fqns ++ store.taint.fqns ++ store.sinks.fqns)
  unlines ((fqns.filter (isKept filter)).map fun fqn =>
    fqn ++ ": " ++ toString (store.value.get fqn).length ++ " value, "
      ++ toString (store.taint.get fqn).length ++ " taint, "
      ++ toString (store.sinks.get fqn).length ++ " sink")

/-- A predicate with those of its models that a filter keeps; nothing if it keeps none. -/
def predicateLines (filter : Option Pattern) (title : String) (models : List MethodModel) :
    List String :=
  match models.filter fun model => isKept filter model.fqn with
  | [] => []
  | kept => (title ++ ":") :: kept.map fun model => "    " ++ model.describe

namespace CompiledModels

/-- The predicates of one kind of flow. -/
def flowLines (models : CompiledModels) (filter : Option Pattern) (kind : FlowKind) :
    List String :=
  (models.flows kind).predicates.flatMap fun predicate =>
    predicateLines filter (kind.text ++ " " ++ predicate.shape.text)
      (predicate.models.toList.map (·.method))

/-- The predicates of sinks. -/
def sinkLines (models : CompiledModels) (filter : Option Pattern) : List String :=
  models.sinks.predicates.flatMap fun predicate =>
    predicateLines filter ("sink(" ++ predicate.kind ++ ") " ++ predicate.shape.text)
      (predicate.models.toList.map (·.method))

/-- All predicates. -/
def listing (models : CompiledModels) (filter : Option Pattern) : String :=
  unlines (models.flowLines filter .value ++ models.flowLines filter .taint
    ++ models.sinkLines filter)

end CompiledModels
end ValueFlow
