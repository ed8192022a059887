/-
  ValueFlow.Proofs.CallContexts

  Which flows across calls are reported.

  The calls that a walk has entered are never left again, so that a return counts as
  matched if its call was entered at any time before. Each node is walked once for a
  source, and every arrival at a returned value drops the returns that it does not match.
  A flow is therefore reported if its returns are matched whenever the walk arrives at
  them; that calls and returns match along the flow itself is not enough.
-/

import ValueFlow.Proofs.Prune

namespace ValueFlow
namespace Prune

variable {u : CompilationUnit} {graph : FlowGraph}

/-! ## Returns that survive -/

/-- Whether a node is the call of a method; constructors are none. -/
def isMethodCall (u : CompilationUnit) (node : Node) : Bool :=
  match node.expressionKind? u with
  | some (.call ..) => true
  | _ => false

theorem mayReturnTo_iff {entered : List ElementId} {target : Node} :
    mayReturnTo u entered target = true ↔ (isMethodCall u target = true → target.id ∈ entered) := by
  cases target with
  | parameter id => simp [mayReturnTo, isMethodCall, Node.expressionKind?, Node.expression?]
  | expression id =>
    rw [mayReturnTo, isMethodCall, Node.expressionKind?, Node.expression?, Option.bind_some]
    cases u.kind? id with
    | none => simp
    | some kind => cases kind <;> simp [Node.id]

/-- After some calls were entered, a returned value flows on to a method call only if that
    call is one of them. -/
theorem mayFollow_iff {entered : List ElementId} {source target : Node} :
    mayFollow u entered source target = true ↔ (source.isReturned u = true →
      isMethodCall u target = true → entered = [] ∨ target.id ∈ entered) := by
  rw [mayFollow, Bool.or_eq_true, mayReturnTo_iff]
  cases source.isReturned u with
  | false => simp
  | true =>
    cases entered with
    | nil => simp
    | cons call entered => simp

theorem mem_surviving_iff {source node child : Node} :
    child ∈ surviving u graph source node ↔ child ∈ graph.children node ∧
      (node.isReturned u = true → isMethodCall u child = true →
        ∀ entered, (node, entered) ∈ arrivals u graph source →
          entered = [] ∨ child.id ∈ entered) := by
  rw [surviving, List.mem_filter, List.all_eq_true]
  refine and_congr_right fun _ => ⟨?_, ?_⟩
  · intro hall hreturned hcall entered harrival
    have hfollow := hall (node, entered) harrival
    rw [bne_self_eq_false, Bool.false_or] at hfollow
    exact mayFollow_iff.mp hfollow hreturned hcall
  · rintro hmatched ⟨other, entered⟩ harrival
    by_cases hother : other = node
    · subst hother
      rw [bne_self_eq_false, Bool.false_or]
      exact mayFollow_iff.mpr fun hreturned hcall => hmatched hreturned hcall entered harrival
    · rw [bne_iff_ne.mpr hother, Bool.true_or]

variable (u graph) in
/-- An edge that, if it is a return to a method call, is matched on every way from a
    source: no call is entered before it, or that call is. -/
def Matched (source node child : Node) : Prop :=
  child ∈ graph.children node ∧ (node.isReturned u = true → isMethodCall u child = true →
    ∀ entered, Arrival u graph.children source entered node → entered = [] ∨ child.id ∈ entered)

/-- A return that is matched on every way survives. -/
theorem Matched.mem_surviving {source node child : Node} (h : Matched u graph source node child) :
    child ∈ surviving u graph source node := by
  refine mem_surviving_iff.mpr ⟨h.1, ?_⟩
  intro hreturned hcall entered harrival
  exact h.2 hreturned hcall entered (arrival_of_mem_arrivals harrival)

/-- What is reported: the nodes between a recorded source and a sink along the edges that
    survive, which are those whose returns are matched at every arrival of the walk. In
    particular a flow whose returns are matched on every way is reported in full. -/
theorem participants_exact {spec : FlowSpec} {cx : FlowContext} (hu : cx.unit.Accepted) :
    let flow := ScannedFlow.ofUnit spec cx
    let graph := dropCallSteps spec cx flow
    (∀ node, node ∈ participants spec cx flow ↔ ∃ source ∈ flow.sourceNodes, ∃ sink,
      spec.isSink cx sink = true ∧
      Search.Reach (surviving cx.unit graph source) source node ∧
      Search.Reach (surviving cx.unit graph source) node sink) ∧
    (∀ source node child, child ∈ surviving cx.unit graph source node ↔
      child ∈ graph.children node ∧
        (node.isReturned cx.unit = true → isMethodCall cx.unit child = true →
          ∀ entered, (node, entered) ∈ arrivals cx.unit graph source →
            entered = [] ∨ child.id ∈ entered)) ∧
    ∀ source ∈ flow.sourceNodes, ∀ (path : List Node) (sink : Node),
      path.head? = some source → path.getLast? = some sink → spec.isSink cx sink = true →
      path.IsChain (Matched cx.unit graph source) →
      ∀ node ∈ path, node ∈ participants spec cx flow := by
  intro flow graph
  have hscan := (ScannedFlow.ofUnit_faithful spec hu).toWellFormed
  have hparticipants := @mem_participants_iff spec cx flow hscan
  refine ⟨@hparticipants, fun _ _ _ => mem_surviving_iff, ?_⟩
  intro source hsource path sink hhead hlast hsink hchain node hnode
  obtain ⟨rest, rfl⟩ := List.head?_eq_some_iff.mp hhead
  obtain ⟨hforward, hbackward⟩ := Search.reach_of_isChain
    (hchain.imp fun _ _ hmatched => hmatched.mem_surviving) hlast node hnode
  exact hparticipants.mpr ⟨source, hsource, sink, hsink, hforward, hbackward⟩

/-- In the small unit every way to the returned value of `id` enters the call that it is
    returned to, so that the flow to this call is reported. -/
theorem participants_exact_relayUnit :
    relayUnit.Accepted ∧
    ∀ node ∈ [Node.expression ⟨11⟩, .parameter ⟨3⟩, .expression ⟨6⟩, .expression ⟨10⟩],
      node ∈ participants (literalTo (.expression ⟨10⟩)) relayContext
        (.ofUnit (literalTo (.expression ⟨10⟩)) relayContext) := by
  -- The literal is the argument of the call, so every way that goes on enters the call.
  have hways : ∀ entered node,
      Arrival relayUnit (dropCallSteps (literalTo (.expression ⟨10⟩)) relayContext
        (.ofUnit (literalTo (.expression ⟨10⟩)) relayContext)).children
        (.expression ⟨11⟩) entered node →
      node = .expression ⟨11⟩ ∨ ⟨10⟩ ∈ entered := by
    intro entered node harrival
    induction harrival with
    | start => exact Or.inl rfl
    | step _ _ ih =>
      right
      rcases ih with rfl | hentered
      · exact List.mem_append_left _ (by decide +kernel)
      · exact List.mem_append_right _ hentered
  refine ⟨relayUnit_accepted, ?_⟩
  refine (participants_exact relayUnit_accepted).2.2 (.expression ⟨11⟩) (by decide +kernel) _
    (.expression ⟨10⟩) rfl rfl rfl ?_
  refine .cons_cons ⟨by decide +kernel, ?_⟩ (.cons_cons ⟨by decide +kernel, ?_⟩
    (.cons_cons ⟨by decide +kernel, ?_⟩ (.singleton _)))
  · exact fun hreturned => absurd hreturned (by decide +kernel)
  · exact fun hreturned => absurd hreturned (by decide +kernel)
  · intro _ _ entered harrival
    rcases hways entered _ harrival with heq | hentered
    · cases heq
    · exact Or.inr hentered

/-! ## Calls and returns along a flow -/

/-- Whether an edge returns from a method to one of its calls. -/
def isReturn (u : CompilationUnit) (node next : Node) : Bool :=
  (node.returnedFrom? u).isSome && node.returnedFrom? u == next.calledDeclaration? u

/-- The calls that are entered and not left after an edge, the latest first: an argument
    enters its call, and a return leaves the latest call, if any is entered. There are none
    for a return to another call. -/
def callsAfter (u : CompilationUnit) (calls : List ElementId) (node next : Node) :
    Option (List ElementId) :=
  if next.isParameter then some (enters u node ++ calls)
  else if isReturn u node next then
    match calls with
    | [] => some []
    | call :: calls => if next = .expression call then some calls else none
  else some calls

/-- Whether no call that a node enters is one of a method that was entered and not left. -/
def entersAnew (u : CompilationUnit) (calls : List ElementId) (node : Node) : Bool :=
  (enters u node).all fun call => calls.all fun other =>
    (Node.expression call).calledDeclaration? u != (Node.expression other).calledDeclaration? u

/-- Whether calls and returns match along a path, without recursion. -/
def isRealizable (u : CompilationUnit) : List ElementId → List Node → Bool
  | calls, node :: next :: rest =>
    (!next.isParameter || entersAnew u calls node) &&
      match callsAfter u calls node next with
      | none => false
      | some calls => isRealizable u calls (next :: rest)
  | _, _ => true

/-- In the small unit the value passed to `id` comes back to its call and is returned from
    there: calls and returns match along this flow, but it is not reported. -/
theorem realizable_flow_not_reported :
    let flow := ScannedFlow.ofUnit (literalTo (.expression ⟨15⟩)) relayContext
    let path : List Node :=
      [.expression ⟨11⟩, .parameter ⟨3⟩, .expression ⟨6⟩, .expression ⟨10⟩, .expression ⟨15⟩]
    flow.sourceNodes = [.expression ⟨11⟩] ∧
    (∀ edge ∈ path.zip path.tail,
      edge.2 ∈ (dropCallSteps (literalTo (.expression ⟨15⟩)) relayContext flow).children edge.1) ∧
    isRealizable relayUnit [] path = true ∧
    (literalTo (.expression ⟨15⟩)).isSink relayContext (.expression ⟨15⟩) = true ∧
    participants (literalTo (.expression ⟨15⟩)) relayContext flow = [] := by
  decide +kernel

end Prune
end ValueFlow
