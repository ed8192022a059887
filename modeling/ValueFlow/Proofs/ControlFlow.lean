/-
  ValueFlow.Proofs.ControlFlow

  The control flow of a method stays inside the method.

  A property that holds of the body and passes from elements to their children holds
  of every statement that an edge leads to, and of every expression that control
  reaches.
-/

import ValueFlow.ControlFlow
import ValueFlow.Proofs.Search
import ValueFlow.Proofs.Tree

namespace ValueFlow
namespace ControlFlow

/-! ## Statements that edges lead to -/

/-- Every statement that an edge leads to has a property. -/
def LeadsInto (P : ElementId → Prop) (flow : ControlFlow) : Prop :=
  ∀ edge ∈ flow.edges, ∀ id, edge.target = .statement id → P id

section LeadsInto

variable {P : ElementId → Prop} {flow : ControlFlow}

theorem LeadsInto.addEdge (h : LeadsInto P flow) {source target : Point} {branch : Branch}
    (htarget : ∀ id, target = .statement id → P id) :
    LeadsInto P (flow.addEdge source target branch) := by
  intro edge hedge id hid
  rcases List.mem_append.mp hedge with hold | hnew
  · exact h edge hold id hid
  · rw [List.mem_singleton] at hnew
    subst hnew
    exact htarget id hid

theorem LeadsInto.foldl_addEdge {target : Point} (htarget : ∀ id, target = .statement id → P id)
    (branch : Point × Branch → Branch) (ends : OpenEnds) (h : LeadsInto P flow) :
    LeadsInto P (ends.foldl (fun flow e => flow.addEdge e.1 target (branch e)) flow) := by
  induction ends generalizing flow with
  | nil => exact h
  | cons e ends ih => exact ih (h.addEdge htarget)

theorem LeadsInto.addStatement (h : LeadsInto P flow) {id : ElementId} (hid : P id)
    (ends : OpenEnds) : LeadsInto P (flow.addStatement id ends) := by
  refine LeadsInto.foldl_addEdge ?_ (·.2) ends h
  intro other heq
  cases heq
  exact hid

/-- Statements that are added one after the other. -/
theorem LeadsInto.foldlM {add : ElementId → OpenEnds → ControlFlow →
      Except TreeError (ControlFlow × OpenEnds)} {statements : List ElementId}
    (hstep : ∀ id ∈ statements, ∀ ends flow result, LeadsInto P flow →
      add id ends flow = .ok result → LeadsInto P result.1)
    {ends : OpenEnds} {result : ControlFlow × OpenEnds} (h : LeadsInto P flow)
    (hadd : statements.foldlM (fun state inner => add inner state.2 state.1) (flow, ends) =
      .ok result) : LeadsInto P result.1 := by
  induction statements generalizing flow ends with
  | nil =>
    cases hadd
    exact h
  | cons first statements ih =>
    rw [List.foldlM_cons] at hadd
    obtain ⟨middle, hfirst, hrest⟩ := bind_eq_ok_iff.mp hadd
    have hmiddle := hstep first List.mem_cons_self _ _ _ h hfirst
    exact ih (fun id hid => hstep id (List.mem_cons_of_mem _ hid)) hmiddle hrest

/-- Adding a statement with all inside it leads to statements inside it only. -/
theorem LeadsInto.addUpTo {tree : Tree} (hP : ∀ id, P id → ∀ child ∈ tree.children id, P child)
    (bound : Nat) {id : ElementId} {ends : OpenEnds} {result : ControlFlow × OpenEnds}
    (hid : P id) (h : LeadsInto P flow) (hadd : addUpTo tree bound id ends flow = .ok result) :
    LeadsInto P result.1 := by
  induction bound generalizing id ends flow result with
  | zero => cases hadd
  | succ bound ih =>
    have hchild : ∀ kind, tree.kind? id = some kind → ∀ child ∈ kind.children, P child := by
      intro kind hkind child hmem
      refine hP id hid child ?_
      rw [Tree.children, hkind]
      exact hmem
    -- Besides what is inside, edges lead back to a loop and out to the exit.
    have hback : ∀ other, Point.statement id = .statement other → P other := by
      intro other heq
      cases heq
      exact hid
    have hexit : ∀ other, Point.exit = .statement other → P other := by
      intro other heq
      cases heq
    have hopened := h.addStatement hid ends
    rw [ControlFlow.addUpTo] at hadd
    split at hadd
    · cases hadd
    · next statements hkind =>
      have hall := hchild _ hkind
      refine LeadsInto.foldlM ?_ h hadd
      intro inner hinner ends flow result hflow hinnerAdd
      exact ih (hall inner hinner) hflow hinnerAdd
    · next condition thenBranch elseBranch hkind =>
      have hall := hchild _ hkind
      obtain ⟨middle, hthen, hadd⟩ := bind_eq_ok_iff.mp hadd
      have hmiddle := ih (hall thenBranch (by simp [Kind.children])) hopened hthen
      cases elseBranch with
      | none =>
        cases hadd
        exact hmiddle
      | some elseBranch =>
        obtain ⟨last, helse, hadd⟩ := bind_eq_ok_iff.mp hadd
        have hlast := ih (hall elseBranch (by simp [Kind.children])) hmiddle helse
        cases hadd
        exact hlast
    · next condition body hkind =>
      have hall := hchild _ hkind
      obtain ⟨middle, hbody, hadd⟩ := bind_eq_ok_iff.mp hadd
      have hmiddle := ih (hall body (by simp [Kind.children])) hopened hbody
      cases hadd
      exact LeadsInto.foldl_addEdge hback (fun _ => .jump) middle.2 hmiddle
    · cases hadd
      exact hopened.addEdge hexit
    · cases hadd
      exact hopened
    · cases hadd
      exact hopened
    · cases hadd

end LeadsInto

/-- The statements of a built control flow have every property that the body has and that
    passes to children. -/
theorem leadsInto_of_build {u : CompilationUnit} {method : ElementId} {flow : ControlFlow}
    (hbuild : build u method = .ok flow) {P : ElementId → Prop}
    (hbody : ∀ body ∈ u.tree.children method, P body)
    (hP : ∀ id, P id → ∀ child ∈ u.tree.children id, P child) : LeadsInto P flow := by
  have hexit : ∀ id, Point.exit = .statement id → P id := by
    intro id heq
    cases heq
  have hempty : LeadsInto P ⟨[], []⟩ := by
    intro edge hedge
    cases hedge
  rw [build] at hbuild
  split at hbuild
  · cases hbuild
  · next signature parameters body hkind =>
    cases body with
    | none =>
      cases hbuild
      exact LeadsInto.foldl_addEdge hexit (·.2) _ hempty
    | some body =>
      have hmem : body ∈ u.tree.children method := by
        rw [Tree.children, ← CompilationUnit.kind?, hkind]
        simp [Kind.children]
      obtain ⟨result, hadd, hbuild⟩ := bind_eq_ok_iff.mp hbuild
      have hresult := hempty.addUpTo hP u.size (hbody body hmem) hadd
      cases hbuild
      exact LeadsInto.foldl_addEdge hexit (·.2) _ hresult
  · cases hbuild

/-! ## Reachable expressions -/

/-- A statement that control reaches is one that an edge leads to. -/
theorem exists_edge_of_reachable {flow : ControlFlow} {u : CompilationUnit}
    {barrier : Guard → Bool → Bool} {id : ElementId}
    (h : id ∈ flow.reachableStatements u barrier) :
    ∃ edge ∈ flow.edges, edge.target = .statement id := by
  rw [reachableStatements, Sorted.mem_ofList, List.mem_filterMap] at h
  obtain ⟨point, hpoint, heq⟩ := h
  have hid : point = .statement id := by
    cases point with
    | statement other => rw [Option.some.inj heq]
    | entry => cases heq
    | exit => cases heq
  subst hid
  rcases Search.expand_sound _ _ _ _ _ hpoint with hnone | ⟨start, hstart, hreach⟩
  · cases hnone
  · rw [List.mem_singleton] at hstart
    subst hstart
    rcases Relation.ReflTransGen.cases_tail hreach with heq | ⟨middle, -, hstep⟩
    · cases heq
    · obtain ⟨edge, hedge, htarget⟩ := List.mem_map.mp hstep
      exact ⟨edge, (List.mem_filter.mp hedge).1, htarget⟩

/-- What the walk below an element finds are expressions. They have every property that the
    element has and that passes to the children of what is no statement. -/
theorem mem_expressionsUpTo {tree : Tree} {P : ElementId → Prop}
    (hP : ∀ id, P id → tree.isKind Kind.isStatement id = false →
      ∀ child ∈ tree.children id, P child) (bound : Nat) {top id : ElementId}
    (htop : P top) (h : id ∈ expressionsUpTo tree bound top) :
    P id ∧ tree.isKind Kind.isExpression id = true := by
  induction bound generalizing top with
  | zero => cases h
  | succ bound ih =>
    rw [expressionsUpTo] at h
    split at h
    · cases h
    · next kind hkind =>
      split at h
      · cases h
      · next hstatement =>
        rcases List.mem_append.mp h with hself | hbelow
        · split at hself
          · next hexpression =>
            obtain rfl := List.mem_singleton.mp hself
            refine ⟨htop, ?_⟩
            rw [Tree.isKind, hkind]
            exact hexpression
          · cases hself
        · obtain ⟨child, hchild, hmem⟩ := List.mem_flatMap.mp hbelow
          refine ih (hP top htop ?_ child ?_) hmem
          · rw [Tree.isKind, hkind]
            exact Bool.eq_false_iff.mpr hstatement
          · rw [Tree.children, hkind]
            exact hchild

/-- The expressions that control reaches in a method stand inside the method. -/
theorem below_of_mem_reachableExpressions {u : CompilationUnit} {method : ElementId}
    {flow : ControlFlow} (hbuild : build u method = .ok flow) {barrier : Guard → Bool → Bool}
    {id : ElementId} (h : id ∈ flow.reachableExpressions u barrier) :
    ∃ depth, u.tree.Below method (depth + 1) id := by
  have hP : ∀ id, (∃ depth, u.tree.Below method (depth + 1) id) →
      ∀ child ∈ u.tree.children id, ∃ depth, u.tree.Below method (depth + 1) child := by
    rintro id ⟨depth, hbelow⟩ child hchild
    exact ⟨depth + 1, .child hbelow hchild⟩
  have hleads : LeadsInto (fun id => ∃ depth, u.tree.Below method (depth + 1) id) flow :=
    leadsInto_of_build hbuild (fun body hbody => ⟨0, .child .self hbody⟩) hP
  rw [reachableExpressions, Sorted.mem_ofList, List.mem_flatMap] at h
  obtain ⟨statement, hstatement, hown⟩ := h
  obtain ⟨edge, hedge, htarget⟩ := exists_edge_of_reachable hstatement
  obtain ⟨child, hchild, hmem⟩ := List.mem_flatMap.mp hown
  exact (mem_expressionsUpTo (fun id hid _ => hP id hid) u.size
    (hP statement (hleads edge hedge statement htarget) child hchild) hmem).1

end ControlFlow
end ValueFlow
