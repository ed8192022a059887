/-
  ValueFlow.Command.Policy

  Flow specifications given by options: patterns on qualified method names and kinds of
  sink models.
-/

import ValueFlow.Command.Arguments
import ValueFlow.Command.Error
import ValueFlow.Flow.Spec
import ValueFlow.Pattern.Parser

namespace ValueFlow

/-- The methods whose qualified name contains a pattern. -/
def Pattern.matcher (pattern : Pattern) : Matcher := fun _ signature =>
  pattern.isFoundIn signature.qualifiedName

/-- What is looked for, as options say it. -/
structure Policy where
  sourceMethod : Option Pattern
  sourceParameters : Bool
  sinkMethod : Option Pattern
  sinkKinds : List String
  barrierMethod : Option Pattern
  taint : Bool
deriving DecidableEq, Repr

/-- The pattern that is the value of an option. -/
def Arguments.pattern? (arguments : Arguments) (opt : Opt) :
    Except CommandError (Option Pattern) :=
  match arguments.value? opt with
  | none => .ok none
  | some text =>
    match Pattern.parse? text with
    | none => .error .badPattern
    | some pattern => .ok (some pattern)

namespace Policy

/-- The policy of some options; it needs a source and a sink. -/
def ofArguments (arguments : Arguments) : Except CommandError Policy := do
  -- The patterns are read before it is checked that there are enough of them.
  let policy : Policy := {
    sourceMethod := ← arguments.pattern? .sourceMethod
    sourceParameters := arguments.has .sourceParameters
    sinkMethod := ← arguments.pattern? .sinkMethod
    sinkKinds := arguments.values .sinkKind
    barrierMethod := ← arguments.pattern? .barrierMethod
    taint := arguments.has .taint }
  if policy.sourceMethod.isNone && !policy.sourceParameters then
    .error (.badArguments "--source-method or --source-parameters needed")
  else if policy.sinkMethod.isNone && policy.sinkKinds.isEmpty then
    .error (.badArguments "--sink-method or --sink-kind needed")
  else .ok policy

/-- Whether a node is a call of a method that a pattern names. -/
def isCallOf (pattern : Option Pattern) (u : CompilationUnit) (node : Node) : Bool :=
  pattern.any fun pattern => (node.callSignature? u).any (pattern.matcher u.hierarchy)

/-- Sources are parameters and calls, sinks are arguments and model positions, barriers are
    calls. -/
def toSpec (policy : Policy) : FlowSpec where
  kind := if policy.taint then .taint else .value
  isSource := fun cx node =>
    (policy.sourceParameters && node.isParameter) || isCallOf policy.sourceMethod cx.unit node
  isSink := fun cx node =>
    (policy.sinkMethod.any fun pattern => pattern.matcher.isAnyArgument cx.unit node)
      || policy.sinkKinds.any (cx.isSinkNode node)
  isExtraStep := fun _ _ _ => false
  isBarrier := fun cx node => isCallOf policy.barrierMethod cx.unit node
  isBarrierGuard := fun _ _ _ => false

end Policy
end ValueFlow
