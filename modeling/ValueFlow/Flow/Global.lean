/-
  ValueFlow.Flow.Global

  Flows across the methods of a unit.

  For each source a node is walked once, under the calls that were entered on the first
  walk that reaches it.
-/

import ValueFlow.Flow.Error
import ValueFlow.Flow.Marks
import ValueFlow.Flow.Prune

namespace ValueFlow

/-- The flows across the methods of a unit. -/
structure GlobalFlows where
  scanned : ScannedFlow
  /-- The nodes on a flow from a source to a sink. -/
  participants : List Node
deriving DecidableEq, Repr

/-- The role of an element in the global flows. -/
structure FlowRole where
  isSource : Bool
  isSink : Bool
  isParticipant : Bool
deriving DecidableEq, Repr

namespace GlobalFlows

/-- Scans a unit and prunes the result. -/
def compute (spec : FlowSpec) (cx : FlowContext) : GlobalFlows :=
  let scanned := ScannedFlow.ofUnit spec cx
  ⟨scanned, Prune.participants spec cx scanned⟩

/-- The roles of nodes: only participants are shown as sources or sinks. -/
def marks (flows : GlobalFlows) (spec : FlowSpec) (cx : FlowContext) : FlowMarks where
  isSource := fun node => flows.participants.contains node && spec.isSource cx node
  isSink := fun node => flows.participants.contains node && spec.isSink cx node
  isParticipant := flows.participants.contains

/-- The role of an element; what is no node has none. -/
def role (flows : GlobalFlows) (spec : FlowSpec) (cx : FlowContext) (id : ElementId) :
    FlowRole :=
  match Node.ofElement? cx.unit id with
  | none => ⟨false, false, false⟩
  | some node =>
    let marks := flows.marks spec cx
    ⟨marks.isSource node, marks.isSink node, marks.isParticipant node⟩

/-- The source code of the unit with the participants marked. -/
def render (flows : GlobalFlows) (spec : FlowSpec) (cx : FlowContext) (style : MarkStyle) :
    String :=
  (flows.marks spec cx).render cx.unit style

end GlobalFlows

/-! ## Scanning on demand -/

/-- Global flows that are computed when asked to. -/
inductive PendingFlows where
  | pending
  | scanned (flows : GlobalFlows)
deriving DecidableEq, Repr

namespace PendingFlows

/-- Whether the unit was scanned. -/
def isScanned : PendingFlows → Bool
  | .pending => false
  | .scanned _ => true

/-- Scans the unit, once. -/
def scan (spec : FlowSpec) (cx : FlowContext) : PendingFlows → PendingFlows
  | .pending => .scanned (.compute spec cx)
  | .scanned flows => .scanned flows

/-- The flows of a scanned unit. -/
def flows : PendingFlows → Except FlowError GlobalFlows
  | .pending => .error .notScanned
  | .scanned flows => .ok flows

end PendingFlows
end ValueFlow
