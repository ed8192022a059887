/-
  ValueFlow.Flow.Selector.Json

  Selectors and specifications as JSON.
-/

import ValueFlow.Flow.Selector
import ValueFlow.Syntax.Json

namespace ValueFlow

/-- Reads a method name and the index of a parameter, of 32 bits with sign. -/
def Selector.parameterOfJson? : Json → Option (String × Int) :=
  Json.pair? Json.str? fun value => value.int?.bind ArgumentRange.int32?

/-- Reads a selector. -/
def Selector.ofJson? (value : Json) : Option Selector := do
  match ← value.choice? .direct with
  | ("any", none) => some .any
  | ("parameter", none) => some .parameter
  | ("return_operand", none) => some .returned
  | ("element", some content) => (ElementId.ofJson? content).map .element
  | ("kind", some content) => content.str?.map .kind
  | ("literal", some content) => (Literal.ofJson? .direct content).map .literal
  | ("call", some content) => content.str?.map .call
  | ("argument", some content) => content.str?.map .argument
  | ("parameter_at", some content) =>
    (parameterOfJson? content).map fun (name, index) => .parameterAt name index
  | ("select", some content) => content.str?.map .receiver
  | ("sink_kind", some content) => content.str?.map .sinkKind
  | ("add_right", some content) => (Literal.ofJson? .direct content).map .sumWith
  | _ => none

/-- Reads outcomes of conditions. -/
def Guard.listOfJson? : Json → Option (List (ElementId × Bool)) :=
  Json.list? (Json.pair? ElementId.ofJson? Json.bool?)

/-- Reads steps between elements. -/
def SelectorSpec.stepsOfJson? : Json → Option (List (ElementId × ElementId)) :=
  Json.list? (Json.pair? ElementId.ofJson? ElementId.ofJson?)

/-- Reads a specification; every field may be missing. -/
def SelectorSpec.ofJson? (value : Json) : Option SelectorSpec := do
  let selectors := Json.list? Selector.ofJson?
  match ← value.record? ["taint", "source", "sink", "barrier", "steps", "guards"] with
  | [taint, sources, sinks, barriers, steps, guards] =>
    some {
      taint := ← Json.orDefault false Json.bool? taint
      sources := ← Json.orDefault [] selectors sources
      sinks := ← Json.orDefault [] selectors sinks
      barriers := ← Json.orDefault [] selectors barriers
      steps := ← Json.orDefault [] stepsOfJson? steps
      guards := ← Json.orDefault [] Guard.listOfJson? guards }
  | _ => none

end ValueFlow
