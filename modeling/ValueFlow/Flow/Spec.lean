/-
  ValueFlow.Flow.Spec

  What a flow analysis looks for: sources, sinks, barriers and steps.

  A specification is a record of tests, so that analyses can be compared for two of
  them. Following taint instead of values only adds steps.
-/

import ValueFlow.ControlFlow
import ValueFlow.Flow.Compiled

namespace ValueFlow

/-- What a test can look at: the unit and the models compiled for it. -/
structure FlowContext where
  unit : CompilationUnit
  models : CompiledModels
deriving DecidableEq, Repr

/-- A sink model of a kind is about the node. -/
def FlowContext.isSinkNode (cx : FlowContext) (node : Node) (kind : String) : Bool :=
  cx.models.sinks.isSinkNode cx.unit node kind

/-- What a flow analysis looks for. -/
structure FlowSpec where
  kind : FlowKind
  isSource : FlowContext → Node → Bool
  isSink : FlowContext → Node → Bool
  /-- Steps besides the built-in ones. -/
  isExtraStep : FlowContext → Node → Node → Bool
  /-- Nodes that values never flow into. -/
  isBarrier : FlowContext → Node → Bool
  /-- Outcomes of conditions that stop the flow. -/
  isBarrierGuard : FlowContext → Guard → Bool → Bool

namespace FlowSpec

/-- Neither sources nor sinks. -/
def nothing : FlowSpec where
  kind := .value
  isSource := fun _ _ => false
  isSink := fun _ _ => false
  isExtraStep := fun _ _ _ => false
  isBarrier := fun _ _ => false
  isBarrierGuard := fun _ _ _ => false

/-- The same specification, following taint; its barriers act as sanitizers. -/
def taint (spec : FlowSpec) : FlowSpec := { spec with kind := .taint }

end FlowSpec

/-- A sum is tainted when one of its operands is. -/
def isAdditionStep (u : CompilationUnit) (source target : Node) : Bool :=
  match source.expression?, target.expressionKind? u with
  | some id, some (.binary .addition left right _) => left == id || right == id
  | _, _ => false

/-- The steps that taint takes without any model. -/
def isDefaultTaintStep (u : CompilationUnit) (source target : Node) : Bool :=
  isAdditionStep u source target

/-- Whether a value flows from `source` into `target` other than by the built-in local
    steps: by a value model, for taint also by a taint model or a default step, or by
    an extra step. -/
def FlowSpec.isStep (spec : FlowSpec) (cx : FlowContext) (source target : Node) : Bool :=
  cx.models.value.isStep cx.unit source target
    || (spec.kind == .taint
      && (cx.models.taint.isStep cx.unit source target
        || isDefaultTaintStep cx.unit source target))
    || spec.isExtraStep cx source target

end ValueFlow
