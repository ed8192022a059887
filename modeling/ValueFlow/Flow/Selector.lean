/-
  ValueFlow.Flow.Selector

  Specifications written down as data: lists of node selectors, steps between
  elements, and outcomes of conditions.
-/

import ValueFlow.Flow.Spec

namespace ValueFlow

/-- A test on nodes. -/
inductive Selector where
  | any
  | parameter
  /-- The value of a return statement. -/
  | returned
  | element (id : ElementId)
  /-- Elements of a kind, by its name. -/
  | kind (name : String)
  | literal (value : Literal)
  /-- Resolved calls of a method name. -/
  | call (name : String)
  /-- Any argument of a resolved call. -/
  | argument (name : String)
  /-- What is passed to a parameter of a resolved call. -/
  | parameterAt (name : String) (index : Int)
  /-- The receiver of a resolved call. -/
  | receiver (name : String)
  /-- Positions of sink models of a kind. -/
  | sinkKind (name : String)
  /-- Sums whose right operand is a literal. -/
  | sumWith (value : Literal)
deriving DecidableEq, Repr

namespace Selector

/-- The literal that an element is. -/
def literalAt? (u : CompilationUnit) (id : ElementId) : Option Literal :=
  (Node.expression id).literal? u

/-- Whether a node is selected. -/
def holds (cx : FlowContext) (node : Node) : Selector → Bool
  | .any => true
  | .parameter => node.isParameter
  | .returned => node.isReturned cx.unit
  | .element id => node.id == id
  | .kind name => (cx.unit.kind? node.id).any fun found => found.name == name
  | .literal value => node.literal? cx.unit == some value
  | .call name => (node.callSignature? cx.unit).any fun signature => signature.name == name
  | .argument name => (Matcher.named name).isAnyArgument cx.unit node
  | .parameterAt name index => (Matcher.named name).isParameter cx.unit node index
  | .receiver name => (Matcher.named name).isReceiver cx.unit node
  | .sinkKind name => cx.isSinkNode node name
  | .sumWith value =>
    match node.expressionKind? cx.unit with
    | some (.binary .addition _ right _) => literalAt? cx.unit right == some value
    | _ => false

end Selector

/-- A specification as data; a list of selectors selects what any of them does. -/
structure SelectorSpec where
  taint : Bool
  sources : List Selector
  sinks : List Selector
  barriers : List Selector
  /-- Extra steps between elements. -/
  steps : List (ElementId × ElementId)
  /-- Refused outcomes of conditions; a condition is named by itself or by its
      statement. -/
  guards : List (ElementId × Bool)
deriving DecidableEq, Repr

/-- Whether a list refuses an outcome of a guard. -/
def Guard.isRefused (guards : List (ElementId × Bool)) (guard : Guard) (outcome : Bool) : Bool :=
  guards.any fun (id, refused) =>
    refused == outcome && (id == guard.condition || id == guard.statement)

/-- The specification that the data describes. -/
def SelectorSpec.toSpec (data : SelectorSpec) : FlowSpec where
  kind := if data.taint then .taint else .value
  isSource := fun cx node => data.sources.any (Selector.holds cx node)
  isSink := fun cx node => data.sinks.any (Selector.holds cx node)
  isExtraStep := fun _ source target => data.steps.contains (source.id, target.id)
  isBarrier := fun cx node => data.barriers.any (Selector.holds cx node)
  isBarrierGuard := fun _ guard outcome => guard.isRefused data.guards outcome

end ValueFlow
