/-
  ValueFlow.Proofs.ReachableExpressions

  Control reaches the expressions of the statements that it reaches.

  The walk from a statement goes down through all that is no statement. On its way down the
  closest statement around an element stays the one where the walk began, and no expression
  with that statement around it is left out. So each expression belongs to one statement,
  however deep it stands and whatever that statement is part of.
-/

import ValueFlow.Proofs.NearestStatement
import ValueFlow.Proofs.StructuredFlow

namespace ValueFlow
namespace ControlFlow

section Expressions

variable {u : CompilationUnit} (hu : u.Accepted)
include hu

/-! ## Own expressions -/

/-- The walk from a statement finds just the expressions whose closest statement it is. -/
theorem mem_ownExpressions_iff {statement id : ElementId} (hattached : statement ∈ u.attached)
    (hkind : u.tree.isKind Kind.isStatement statement = true) :
    id ∈ ownExpressions u statement ↔ id ∈ u.attached ∧
      u.tree.isKind Kind.isExpression id = true ∧ u.enclosingStatement? id = some statement := by
  refine ⟨fun hown => ?_, fun ⟨hid, hexpression, hstatement⟩ =>
    mem_ownExpressions hu hid hexpression hstatement⟩
  obtain ⟨child, hchild, hmem⟩ := List.mem_flatMap.mp hown
  -- The walk goes on below what is no statement, and there the closest statement is the same.
  have hstep : ∀ id, id ∈ u.attached ∧ u.enclosingStatement? id = some statement →
      u.tree.isKind Kind.isStatement id = false → ∀ child ∈ u.tree.children id,
        child ∈ u.attached ∧ u.enclosingStatement? child = some statement := by
    rintro id ⟨hid, hstatement⟩ hnot child hchild
    refine ⟨(hu.attached_child_iff hchild).mpr hid, ?_⟩
    rw [hu.enclosingStatement?_of_not_isStatement hid hchild hnot, hstatement]
  have hstart : child ∈ u.attached ∧ u.enclosingStatement? child = some statement :=
    ⟨(hu.attached_child_iff hchild).mpr hattached,
      hu.enclosingStatement?_of_isStatement hattached hchild hkind⟩
  obtain ⟨⟨hid, hstatement⟩, hexpression⟩ := mem_expressionsUpTo hstep u.size hstart hmem
  exact ⟨hid, hexpression, hstatement⟩

/-- What stands inside a statement that is nested in another one is no own expression of the
    outer one. -/
theorem not_mem_ownExpressions_of_nested {outer inner id : ElementId} (hid : id ∈ u.attached)
    (houter : u.tree.isKind Kind.isStatement outer = true)
    (hinner : u.tree.isKind Kind.isStatement inner = true)
    (hnested : outer ∈ u.tree.ancestors inner) (hinside : inner ∈ u.tree.ancestors id) :
    id ∉ ownExpressions u outer := by
  intro hown
  have hinnerAttached := hu.attached_of_mem_ancestors hid hinside
  have houterAttached := hu.attached_of_mem_ancestors hinnerAttached hnested
  obtain ⟨-, -, hstatement⟩ := (mem_ownExpressions_iff hu houterAttached houter).mp hown
  -- The closest statement stands inside all others around the expression.
  obtain ⟨depth, hbelow⟩ := hu.linked.below_ancestor hinside
  obtain ⟨level, hlevel⟩ := hu.linked.below_of_find?_ancestorsUpTo hstatement hinner hbelow
  have hcontains := hu.contains_iff_below.mpr ⟨hinnerAttached, level, hlevel⟩
  have heq := hu.contains_antisymm hcontains
    ((hu.contains_iff houterAttached hinnerAttached).mpr
      ((hu.mem_subtree_iff houterAttached).mpr (Or.inr hnested)))
  subst heq
  exact Nat.lt_irrefl _ (hu.idxOf_lt_of_mem_ancestors hinnerAttached hnested)

/-! ## What control reaches -/

variable {method : ElementId} {flow : ControlFlow} {barrier : Guard → Bool → Bool}

/-- Control reaches attached statements only. -/
theorem isStatement_of_reachable (hmethod : method ∈ u.attached)
    (hbuild : build u method = .ok flow) {id : ElementId}
    (h : id ∈ flow.reachableStatements u barrier) :
    id ∈ u.attached ∧ u.tree.isKind Kind.isStatement id = true := by
  obtain ⟨edge, hedge, htarget⟩ := exists_edge_of_reachable h
  have hchildren : ∀ parent ∈ u.attached, ∀ child ∈ u.tree.children parent, child ∈ u.attached :=
    fun parent hparent child hchild => (hu.attached_child_iff hchild).mpr hparent
  have hleads : LeadsInto (· ∈ u.attached) flow :=
    leadsInto_of_build hbuild (hchildren method hmethod) hchildren
  refine ⟨hleads edge hedge id htarget, ?_⟩
  have hmet : id ∈ flow.statements :=
    statement_mem_arrivals.mp (htarget ▸ (orderly_of_build hbuild).target edge hedge)
  obtain ⟨signature, parameters, body, inner, ends, -, hadds, rfl⟩ := build_eq_ok hbuild
  rw [statements_connect] at hmet
  rcases hadds.mem_statements hmet with hnone | ⟨-, whole, hwhole, hwithin⟩
  · cases hnone
  · exact hadds.isStatement_of_within hwhole hwithin

theorem mem_reachableExpressions_iff (hmethod : method ∈ u.attached)
    (hbuild : build u method = .ok flow) {id : ElementId} :
    id ∈ flow.reachableExpressions u barrier ↔ id ∈ u.attached ∧
      u.tree.isKind Kind.isExpression id = true ∧
      ∃ statement ∈ flow.reachableStatements u barrier,
        u.enclosingStatement? id = some statement := by
  rw [reachableExpressions, Sorted.mem_ofList, List.mem_flatMap]
  constructor
  · rintro ⟨statement, hreached, hown⟩
    obtain ⟨hattached, hkind⟩ := isStatement_of_reachable hu hmethod hbuild hreached
    obtain ⟨hid, hexpression, hstatement⟩ := (mem_ownExpressions_iff hu hattached hkind).mp hown
    exact ⟨hid, hexpression, statement, hreached, hstatement⟩
  · rintro ⟨hid, hexpression, statement, hreached, hstatement⟩
    exact ⟨statement, hreached, mem_ownExpressions hu hid hexpression hstatement⟩

/-- Control reaches an expression exactly if it reaches the closest statement around it, and all
    that it reaches are attached expressions. The expressions of a statement are those with
    this statement around them, at any depth, and none that stands in a statement nested in
    it. -/
theorem reachableExpressions_of_nearest_statements (hmethod : method ∈ u.attached)
    (hbuild : build u method = .ok flow) (barrier : Guard → Bool → Bool) :
    (∀ id ∈ u.attached, u.tree.isKind Kind.isExpression id = true →
      (id ∈ flow.reachableExpressions u barrier ↔
        ∃ statement, (u.tree.ancestors id).find? (u.tree.isKind Kind.isStatement) =
            some statement ∧ statement ∈ flow.reachableStatements u barrier)) ∧
    (∀ id ∈ flow.reachableExpressions u barrier,
      id ∈ u.attached ∧ u.tree.isKind Kind.isExpression id = true) ∧
    (∀ statement ∈ flow.reachableStatements u barrier, ∀ id, id ∈ ownExpressions u statement ↔
      id ∈ u.attached ∧ u.tree.isKind Kind.isExpression id = true ∧
        (u.tree.ancestors id).find? (u.tree.isKind Kind.isStatement) = some statement) ∧
    ∀ outer ∈ flow.reachableStatements u barrier, ∀ inner, ∀ id ∈ u.attached,
      u.tree.isKind Kind.isStatement inner = true → outer ∈ u.tree.ancestors inner →
      inner ∈ u.tree.ancestors id → id ∉ ownExpressions u outer := by
  refine ⟨fun id hid hexpression => ?_, fun id hmem => ?_, fun statement hreached id => ?_,
    fun outer hreached inner id hid hinner hnested hinside => ?_⟩
  · rw [mem_reachableExpressions_iff hu hmethod hbuild]
    constructor
    · rintro ⟨-, -, statement, hreached, hstatement⟩
      exact ⟨statement, hstatement, hreached⟩
    · rintro ⟨statement, hstatement, hreached⟩
      exact ⟨hid, hexpression, statement, hreached, hstatement⟩
  · obtain ⟨hid, hexpression, -⟩ := (mem_reachableExpressions_iff hu hmethod hbuild).mp hmem
    exact ⟨hid, hexpression⟩
  · obtain ⟨hattached, hkind⟩ := isStatement_of_reachable hu hmethod hbuild hreached
    exact mem_ownExpressions_iff hu hattached hkind
  · obtain ⟨-, houter⟩ := isStatement_of_reachable hu hmethod hbuild hreached
    exact not_mem_ownExpressions_of_nested hu hid houter hinner hnested hinside

end Expressions

/-- If the condition in the loop must not hold, control evaluates this condition, but not the
    read in the branch behind it, though it reaches the loop around both. -/
theorem reachableExpressions_of_nearest_statements_loopUnit :
    loopUnit.Accepted ∧ ⟨2⟩ ∈ loopUnit.attached ∧ build loopUnit ⟨2⟩ = .ok loopFlow ∧
      ⟨8⟩ ∈ loopFlow.reachableStatements loopUnit (refusesTrue ⟨11⟩) ∧
      ⟨12⟩ ∈ loopFlow.reachableExpressions loopUnit (refusesTrue ⟨11⟩) ∧
      ⟨16⟩ ∉ loopFlow.reachableExpressions loopUnit (refusesTrue ⟨11⟩) ∧
      ⟨16⟩ ∉ ownExpressions loopUnit ⟨8⟩ := by
  have hmethod : ⟨2⟩ ∈ loopUnit.attached := by decide +kernel
  have hloop : ⟨8⟩ ∈ loopFlow.reachableStatements loopUnit (refusesTrue ⟨11⟩) := by decide +kernel
  obtain ⟨hiff, -, -, hnested⟩ := reachableExpressions_of_nearest_statements loopUnit_accepted
    hmethod build_loopUnit (refusesTrue ⟨11⟩)
  refine ⟨loopUnit_accepted, hmethod, build_loopUnit, hloop, ?_, ?_, ?_⟩
  · exact (hiff ⟨12⟩ (by decide +kernel) (by decide +kernel)).mpr
      ⟨⟨11⟩, by decide +kernel, by decide +kernel⟩
  · rw [hiff ⟨16⟩ (by decide +kernel) (by decide +kernel)]
    rintro ⟨statement, hstatement, hreached⟩
    have hcall : (loopUnit.tree.ancestors ⟨16⟩).find? (loopUnit.tree.isKind Kind.isStatement) =
        some ⟨14⟩ := by decide +kernel
    obtain rfl := Option.some.inj (hcall.symm.trans hstatement)
    exact absurd hreached (by decide +kernel)
  · exact hnested ⟨8⟩ hloop ⟨11⟩ ⟨16⟩ (by decide +kernel) (by decide +kernel) (by decide +kernel)
      (by decide +kernel)

end ControlFlow
end ValueFlow
