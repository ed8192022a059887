/-
  ValueFlow.Flow.Marks

  Flows shown in source code: a mark in front of each node that takes part.
-/

import ValueFlow.Flow.Node
import ValueFlow.Source

namespace ValueFlow

/-- Which nodes are sources, sinks and participants of a flow. -/
structure FlowMarks where
  isSource : Node → Bool
  isSink : Node → Bool
  isParticipant : Node → Bool

/-- How nodes are marked. -/
inductive MarkStyle where
  /-- All participants get the same mark. -/
  | plain
  /-- Sources and sinks are labelled. -/
  | labelled
deriving DecidableEq, Repr

namespace FlowMarks

/-- The mark of a participant. -/
def participantMarker : String := "/*~~>*/"

/-- The mark of a source. -/
def sourceMarker : String := "/*~~(source)~~>*/"

/-- The mark of a sink. -/
def sinkMarker : String := "/*~~(sink)~~>*/"

/-- The mark of a node that is a source and a sink. -/
def sourceSinkMarker : String := "/*~~(source, sink)~~>*/"

/-- The mark in front of a node. -/
def mark? (marks : FlowMarks) (style : MarkStyle) (node : Node) : Option String :=
  let participant := if marks.isParticipant node then some participantMarker else none
  match style with
  | .plain => participant
  | .labelled =>
    match marks.isSource node, marks.isSink node with
    | true, true => some sourceSinkMarker
    | true, false => some sourceMarker
    | false, true => some sinkMarker
    | false, false => participant

/-- The source code of a unit with its nodes marked. -/
def render (marks : FlowMarks) (u : CompilationUnit) (style : MarkStyle) : String :=
  Source.render u fun id => (Node.ofElement? u id).bind (marks.mark? style)

end FlowMarks

/-- The source code of a node on a single line. -/
def Node.snippet (u : CompilationUnit) (node : Node) : String :=
  Text.oneLine (Source.renderElement u (fun _ => none) node.id)

end ValueFlow
