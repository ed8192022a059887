/-
  ValueFlow.Proofs.ReachingReads

  Reads that see a definition, against the ways that control takes.

  An assignment is taken to hide a definition from a read by where they stand, without a
  look at the control flow. It stands in a block around the read, and what follows in a
  block is entered through what precedes. So every way from outside to the read goes
  through the assignment, and a read that control comes to on another way is not lost by
  it. Ways around a loop are lost where they lead to a read in front of the definition.
-/

import Mathlib.Data.List.Chain
import ValueFlow.Proofs.NearestStatement

namespace ValueFlow
namespace ControlFlow

/-! ## Paths -/

/-- A way of control along edges, from one point to another. -/
def IsPath (flow : ControlFlow) : Point → List FlowEdge → Point → Prop
  | source, [], last => source = last
  | source, edge :: rest, last =>
    edge ∈ flow.edges ∧ edge.source = source ∧ flow.IsPath edge.target rest last

instance decidableIsPath (flow : ControlFlow) :
    (source : Point) → (path : List FlowEdge) → (last : Point) →
      Decidable (flow.IsPath source path last)
  | source, [], last => inferInstanceAs (Decidable (source = last))
  | source, edge :: rest, last =>
    have := decidableIsPath flow edge.target rest last
    inferInstanceAs (Decidable (edge ∈ flow.edges ∧ edge.source = source ∧
      flow.IsPath edge.target rest last))

section Paths

variable {flow : ControlFlow} {source last : Point} {path : List FlowEdge}

/-- An edge of a path leads to a point on the way or to the end. -/
theorem IsPath.mem_cases (h : flow.IsPath source path last) {edge : FlowEdge}
    (hedge : edge ∈ path) : edge ∈ path.dropLast ∨ edge.target = last := by
  induction path generalizing source with
  | nil => cases hedge
  | cons first rest ih =>
    obtain ⟨-, -, hrest⟩ := h
    cases rest with
    | nil =>
      rw [List.mem_singleton.mp hedge]
      exact Or.inr hrest
    | cons second rest =>
      rw [List.dropLast_cons_cons]
      rcases List.mem_cons.mp hedge with rfl | hedge
      · exact Or.inl List.mem_cons_self
      · exact (ih hrest hedge).imp_left (List.mem_cons_of_mem _)

theorem IsPath.source_mem (h : flow.IsPath source path last) (horderly : Orderly flow)
    (hne : path ≠ []) : source ∈ flow.departures := by
  cases path with
  | nil => exact absurd rfl hne
  | cons edge rest =>
    obtain ⟨hedge, rfl, -⟩ := h
    exact horderly.source edge hedge

theorem IsPath.last_mem (h : flow.IsPath source path last) (horderly : Orderly flow)
    (hne : path ≠ []) : last ∈ flow.arrivals := by
  induction path generalizing source with
  | nil => exact absurd rfl hne
  | cons edge rest ih =>
    obtain ⟨hedge, -, hrest⟩ := h
    cases rest with
    | nil => exact hrest ▸ horderly.target edge hedge
    | cons second rest => exact ih hrest (by simp)

/-- A path without jumps goes forward through the statements. -/
theorem IsPath.forward (h : flow.IsPath source path last) (horderly : Orderly flow)
    {rank : ElementId → Nat} (hrank : flow.statements.Pairwise fun a b => rank a < rank b)
    (hforward : ∀ edge ∈ path, edge.branch ≠ .jump) (hne : path ≠ []) {a b : ElementId}
    (ha : source = .statement a) (hb : last = .statement b) : rank a < rank b := by
  induction path generalizing source a with
  | nil => exact absurd rfl hne
  | cons edge rest ih =>
    obtain ⟨hedge, rfl, hrest⟩ := h
    obtain ⟨hbranch, hlater⟩ := List.forall_mem_cons.mp hforward
    have hstep : ∀ c, edge.target = .statement c → rank a < rank c := by
      intro c hc
      have hsub := hrank.sublist (horderly.forward edge hedge hbranch a c ha hc)
      exact List.rel_of_pairwise_cons hsub (List.mem_singleton.mpr rfl)
    by_cases hnil : rest = []
    · subst hnil
      exact hstep b (hrest.trans hb)
    · -- Where control comes to and goes on from is a statement.
      have harrival := horderly.target edge hedge
      have hdeparture := hrest.source_mem horderly hnil
      cases hmiddle : edge.target with
      | entry =>
        rw [hmiddle] at harrival
        simp [arrivals] at harrival
      | exit =>
        rw [hmiddle] at hdeparture
        simp [departures] at hdeparture
      | statement c => exact (hstep c hmiddle).trans (ih hrest hlater hnil hmiddle)

end Paths

/-! ## Regions with a gate -/

/-- The point is a statement of a region. -/
def Inside (region : ElementId → Prop) : Point → Prop
  | .statement id => region id
  | _ => False

/-- All these ends are inside of a region. -/
def AllInside (region : ElementId → Prop) (ends : OpenEnds) : Prop :=
  ∀ e ∈ ends, Inside region e.1

/-- Control enters the region at the gate only. -/
def EntersAt (gate : ElementId) (region : ElementId → Prop) (edges : List FlowEdge) : Prop :=
  ∀ edge ∈ edges, Inside region edge.target →
    edge.target = .statement gate ∨ Inside region edge.source

/-- A region of statements: a gate and what follows it in its block, with all parts. -/
structure Gated (tree : Tree) (gate : ElementId) (region : ElementId → Prop) : Prop where
  inward : ∀ id, region id → ∀ part ∈ tree.parts id, region part
  outward : ∀ id, ¬ region id → ∀ part ∈ tree.parts id, region part →
    ∃ before later, tree.kind? id = some (.block (before ++ gate :: later)) ∧
      (∀ statement ∈ before, ¬ region statement) ∧ ∀ statement ∈ later, region statement
  gate_mem : region gate
  noBlock : tree.isKind Kind.isBlock gate = false

/-- A statement of the region is its gate or follows one of the region. -/
def Follows (gate : ElementId) (region : ElementId → Prop) (a b : ElementId) : Prop :=
  region b → b = gate ∨ region a

section Regions

variable {gate : ElementId} {region : ElementId → Prop}

theorem allInside_singleton {id : ElementId} (h : region id) (branch : Branch) :
    AllInside region [(.statement id, branch)] := by
  intro e he
  rw [List.mem_singleton.mp he]
  exact h

theorem EntersAt.append {edges more : List FlowEdge} (h : EntersAt gate region edges)
    (hmore : EntersAt gate region more) : EntersAt gate region (edges ++ more) :=
  List.forall_mem_append.mpr ⟨h, hmore⟩

theorem entersAt_ends {ends : OpenEnds} {target : Point} {branch : Point × Branch → Branch}
    (h : Inside region target → target = .statement gate ∨ AllInside region ends) :
    EntersAt gate region (ends.map fun e => ⟨e.1, target, branch e⟩) := by
  intro edge hedge htarget
  obtain ⟨e, he, rfl⟩ := List.mem_map.mp hedge
  exact (h htarget).imp_right fun hends => hends e he

theorem EntersAt.addStatement {flow : ControlFlow} {ends : OpenEnds} {id : ElementId}
    (h : EntersAt gate region flow.edges) (hid : region id → id = gate ∨ AllInside region ends) :
    EntersAt gate region (flow.addStatement id ends).edges := by
  rw [edges_addStatement]
  refine h.append (entersAt_ends fun hregion => ?_)
  exact (hid hregion).imp_left (congrArg Point.statement)

theorem follows_of_forall {statements : List ElementId}
    (h : ∀ statement ∈ statements, region statement) :
    statements.IsChain (Follows gate region) :=
  (List.pairwise_of_forall_mem_list fun a ha _ _ _ => Or.inr (h a ha)).isChain

theorem follows_of_forall_not {statements : List ElementId}
    (h : ∀ statement ∈ statements, ¬ region statement) :
    statements.IsChain (Follows gate region) :=
  (List.pairwise_of_forall_mem_list fun _ _ b hb hregion => absurd hregion (h b hb)).isChain

section Gated

variable {tree : Tree} (hgated : Gated tree gate region)
include hgated

theorem Gated.ne_gate {id : ElementId} {statements : List ElementId}
    (hkind : tree.kind? id = some (.block statements)) : id ≠ gate := by
  rintro rfl
  have hnoBlock := hgated.noBlock
  rw [Tree.isKind, hkind] at hnoBlock
  cases hnoBlock

/-- Only blocks have parts in a region that they are not in. -/
theorem Gated.of_part {id part : ElementId} {kind : Kind} (hkind : tree.kind? id = some kind)
    (hblock : kind.isBlock = false) (hpart : part ∈ kind.parts) (hregion : region part) :
    region id := by
  by_contra hnot
  obtain ⟨before, later, hblockKind, -⟩ :=
    hgated.outward id hnot part (Tree.parts_eq hkind ▸ hpart) hregion
  rw [hkind] at hblockKind
  cases hblockKind
  cases hblock

/-- A block outside of a region leads into it at the gate only. -/
theorem Gated.follows {id : ElementId} {statements : List ElementId}
    (hkind : tree.kind? id = some (.block statements)) (hnot : ¬ region id) :
    statements.IsChain (Follows gate region) ∧
      ∀ first ∈ statements.head?, region first → first = gate := by
  by_cases hpart : ∃ part ∈ statements, region part
  · obtain ⟨part, hpart, hregion⟩ := hpart
    obtain ⟨before, later, hblock, hbefore, hlater⟩ :=
      hgated.outward id hnot part (Tree.parts_eq hkind ▸ hpart) hregion
    rw [hkind] at hblock
    cases hblock
    refine ⟨(follows_of_forall_not hbefore).append (follows_of_forall ?_) ?_, ?_⟩
    · exact List.forall_mem_cons.mpr ⟨hgated.gate_mem, hlater⟩
    · intro a _ b hb _
      exact Or.inl (Option.mem_some_iff.mp hb).symm
    · intro first hfirst hin
      cases before with
      | nil => exact (Option.mem_some_iff.mp hfirst).symm
      | cons other rest =>
        obtain rfl := Option.mem_some_iff.mp hfirst
        exact absurd hin (hbefore other List.mem_cons_self)
  · push Not at hpart
    refine ⟨follows_of_forall_not hpart, ?_⟩
    intro first hfirst hin
    exact absurd hin (hpart first (List.mem_of_mem_head? hfirst))

/-- Adding statements of which only the gate leads into a region leaves no other way in. If
    the last one is inside, so are the ends behind it. -/
theorem Adds.entersAt {statements : List ElementId} {ends lastEnds : OpenEnds}
    {flow last : ControlFlow} (h : Adds tree statements ends flow last lastEnds)
    (hchain : statements.IsChain (Follows gate region))
    (hhead : ∀ first ∈ statements.head?, region first → first = gate ∨ AllInside region ends)
    (hflow : EntersAt gate region flow.edges) :
    EntersAt gate region last.edges ∧
      ∀ final ∈ statements.getLast?, region final → AllInside region lastEnds := by
  induction h with
  | nil => exact ⟨hflow, by simp⟩
  | @cons first rest _ _ _ _ _ _ _ hrest ihFirst ihRest =>
    obtain ⟨hnext, hrestChain⟩ := List.isChain_cons.mp hchain
    obtain ⟨hmiddle, hmiddleEnds⟩ := ihFirst (.singleton _) (by simpa using hhead) hflow
    obtain ⟨hlast, hlastEnds⟩ := ihRest hrestChain
      (fun second hsecond hregion => (hnext second hsecond hregion).imp_right
        (hmiddleEnds first (by simp))) hmiddle
    refine ⟨hlast, ?_⟩
    cases rest with
    | nil =>
      cases hrest
      exact hmiddleEnds
    | cons second rest =>
      rw [List.getLast?_cons_cons]
      exact hlastEnds
  | @block id statements _ _ _ _ hkind hadds ih =>
    by_cases hregion : region id
    · -- A block is not the gate, so that the ends before it are inside.
      have hends := (hhead id rfl hregion).resolve_left (hgated.ne_gate hkind)
      have hparts : ∀ statement ∈ statements, region statement := fun statement hmem =>
        hgated.inward id hregion statement (Tree.parts_eq hkind ▸ hmem)
      obtain ⟨hlast, hlastEnds⟩ := ih (follows_of_forall hparts) (fun _ _ _ => Or.inr hends) hflow
      refine ⟨hlast, fun _ _ _ => ?_⟩
      cases hfinal : statements.getLast? with
      | none =>
        rw [List.getLast?_eq_none_iff] at hfinal
        subst hfinal
        cases hadds
        exact hends
      | some final => exact hlastEnds final hfinal (hparts final (List.mem_of_getLast? hfinal))
    · obtain ⟨hinner, hfirst⟩ := hgated.follows hkind hregion
      obtain ⟨hlast, -⟩ := ih hinner (fun first hmem hin => Or.inl (hfirst first hmem hin)) hflow
      refine ⟨hlast, fun final hfinal hin => ?_⟩
      obtain rfl := Option.mem_some_iff.mp hfinal
      exact absurd hin hregion
  | @ifElse id _ thenBranch elseBranch _ _ _ _ _ _ hkind _ helse ihThen ihElse =>
    -- Both branches are entered from the statement itself.
    have hself : ∀ part ∈ thenBranch :: elseBranch.toList, region part →
        ∀ branch, AllInside region [(.statement id, branch)] := fun part hpart hregion =>
      allInside_singleton (hgated.of_part hkind rfl hpart hregion)
    obtain ⟨hmiddle, hthenEnds⟩ := ihThen (.singleton _)
      (fun part hpart hregion => Or.inr (hself part (by simp_all) hregion _))
      (hflow.addStatement (hhead id rfl))
    obtain ⟨hlast, helseEnds⟩ := ihElse (by cases elseBranch <;> simp)
      (fun part hpart hregion => Or.inr (hself part
        (List.mem_cons_of_mem _ (List.mem_of_mem_head? hpart)) hregion _)) hmiddle
    refine ⟨hlast, fun final hfinal hregion => List.forall_mem_append.mpr ?_⟩
    obtain rfl := Option.mem_some_iff.mp hfinal
    have hparts := hgated.inward id hregion
    rw [Tree.parts_eq hkind] at hparts
    obtain ⟨hthen, helseParts⟩ := List.forall_mem_cons.mp hparts
    refine ⟨hthenEnds thenBranch rfl hthen, ?_⟩
    cases elseBranch with
    | none =>
      cases helse
      exact allInside_singleton hregion _
    | some elseBranch => exact helseEnds elseBranch rfl (helseParts _ (by simp))
  | @whileLoop id condition body _ _ _ _ hkind _ ih =>
    have hbody : body ∈ (Kind.whileLoop condition body).parts := List.mem_singleton.mpr rfl
    obtain ⟨hmiddle, hbodyEnds⟩ := ih (.singleton _)
      (fun part hpart hregion => Or.inr (allInside_singleton
        (hgated.of_part hkind rfl (Option.mem_some_iff.mp hpart ▸ hbody) hregion) _))
      (hflow.addStatement (hhead id rfl))
    refine ⟨?_, ?_⟩
    · rw [edges_goBack]
      refine hmiddle.append (entersAt_ends fun hregion => Or.inr ?_)
      exact hbodyEnds body rfl (hgated.inward id hregion body (Tree.parts_eq hkind ▸ hbody))
    · intro final hfinal hregion
      obtain rfl := Option.mem_some_iff.mp hfinal
      exact allInside_singleton hregion _
  | @ret id _ _ _ _ =>
    refine ⟨?_, by simp [AllInside]⟩
    rw [edges_leave]
    refine (hflow.addStatement (hhead id rfl)).append ?_
    intro edge hedge hinside
    rw [List.mem_singleton.mp hedge] at hinside
    exact hinside.elim
  | @plain id _ _ _ _ _ =>
    refine ⟨hflow.addStatement (hhead id rfl), ?_⟩
    intro final hfinal hregion
    obtain rfl := Option.mem_some_iff.mp hfinal
    exact allInside_singleton hregion _

end Gated

/-- A path into a region, from outside, goes through the gate. -/
theorem IsPath.passes_gate {flow : ControlFlow} (hflow : EntersAt gate region flow.edges)
    {source last : Point} {path : List FlowEdge} (h : flow.IsPath source path last)
    (hsource : ¬ Inside region source) (hlast : Inside region last) :
    ∃ edge ∈ path, edge.target = .statement gate := by
  induction path generalizing source with
  | nil => exact absurd (h ▸ hlast) hsource
  | cons edge rest ih =>
    obtain ⟨hedge, rfl, hrest⟩ := h
    by_cases hmiddle : Inside region edge.target
    · exact ⟨edge, List.mem_cons_self, (hflow edge hedge hmiddle).resolve_right hsource⟩
    · obtain ⟨later, hlater, htarget⟩ := ih hrest hmiddle
      exact ⟨later, List.mem_cons_of_mem _ hlater, htarget⟩

end Regions

/-! ## Bodies of methods -/

section Bodies

/-- What stands in these siblings. -/
def Among (u : CompilationUnit) (siblings : List ElementId) (id : ElementId) : Prop :=
  ∃ sibling ∈ siblings, u.contains sibling id = true

variable {u : CompilationUnit} (hu : u.Accepted) {method : ElementId}
include hu

/-- What follows a statement in a block is entered through that statement. -/
theorem gated_among {block gate : ElementId} {before later : List ElementId}
    (hattached : block ∈ u.attached)
    (hkind : u.kind? block = some (.block (before ++ gate :: later)))
    (hgate : u.tree.isKind Kind.isBlock gate = false) :
    Gated u.tree gate (Among u (gate :: later)) := by
  have hchildren : u.tree.children block = before ++ gate :: later := Tree.children_eq hkind
  have hchild : ∀ statement ∈ gate :: later, statement ∈ u.tree.children block := fun _ hmem =>
    hchildren ▸ List.mem_append_right before hmem
  have hself : ∀ statement ∈ gate :: later, Among u (gate :: later) statement := by
    intro statement hmem
    have hstatement := (hu.attached_child_iff (hchild statement hmem)).mpr hattached
    exact ⟨statement, hmem, hu.contains_self hstatement⟩
  refine ⟨?_, ?_, hself gate List.mem_cons_self, hgate⟩
  · rintro id ⟨sibling, hsibling, hcontains⟩ part hpart
    have hid := (hu.attached_of_contains hcontains).2
    refine ⟨sibling, hsibling, hu.contains_trans hcontains (hu.contains_child hid ?_)⟩
    exact (u.tree.parts_suffix_children id).subset hpart
  · rintro id hnot part hpart ⟨sibling, hsibling, hcontains⟩
    have hpartChild := (u.tree.parts_suffix_children id).subset hpart
    by_cases heq : sibling = part
    · -- The part is one of the siblings, and its parent is their block.
      subst heq
      obtain rfl := hu.linked.parent_unique hpartChild (hchild sibling hsibling)
      refine ⟨before, later, hkind, ?_, fun statement hmem => hself statement (by simp [hmem])⟩
      rintro statement hstatement ⟨other, hother, hcontains⟩
      have hnodup := hu.linked.nodup id
      rw [hchildren] at hnodup
      have hne : other ≠ statement := by
        rintro rfl
        exact List.disjoint_of_nodup_append hnodup hstatement hother
      have hmem : statement ∈ u.tree.children id := hchildren ▸ List.mem_append_left _ hstatement
      exact hu.not_contains_parent hattached (hchild other hother)
        (hu.contains_parent hmem hcontains hne)
    · exact absurd ⟨sibling, hsibling, hu.contains_parent hpartChild hcontains heq⟩ hnot

/-- The region behind a statement of the body has no other entry. -/
theorem entersAt_among {body : ElementId} (hbody : u.IsBody method body) {inner : ControlFlow}
    {ends : OpenEnds} (hadds : Adds u.tree [body] [(.entry, .sequence)] ⟨[], []⟩ inner ends)
    {block gate : ElementId} {before later : List ElementId} (hwithin : u.tree.Within body block)
    (hkind : u.kind? block = some (.block (before ++ gate :: later)))
    (hgate : u.tree.isKind Kind.isBlock gate = false) :
    EntersAt gate (Among u (gate :: later)) (inner.connect ends .exit).edges := by
  have hcontains := hu.contains_of_within hbody.attached hwithin
  have hattached := hu.attached_of_within hbody.attached hwithin
  have houtside : ¬ Among u (gate :: later) body := by
    rintro ⟨sibling, hsibling, habove⟩
    refine hu.not_contains_parent hattached ?_ (hu.contains_trans habove hcontains)
    rw [Tree.children_eq hkind]
    exact List.mem_append_right before hsibling
  obtain ⟨hinner, -⟩ := hadds.entersAt (gated_among hu hattached hkind hgate) (.singleton _)
    (fun first hfirst hregion => by
      obtain rfl := Option.mem_some_iff.mp hfirst
      exact absurd hregion houtside)
    (by simp [EntersAt])
  rw [edges_connect]
  exact hinner.append (entersAt_ends fun hexit => hexit.elim)

/-- The statements of a method are those within its body, in source order. In each block of
    it control enters what follows a statement through that statement. -/
theorem exists_body (hmethod : method ∈ u.attached) {flow : ControlFlow}
    (hbuild : build u method = .ok flow) (hne : flow.statements ≠ []) :
    ∃ body, u.IsBody method body ∧ flow.statements.Sublist u.attached ∧
      (∀ id ∈ flow.statements,
        u.tree.Within body id ∧ u.tree.isKind Kind.isBlock id = false) ∧
      ∀ block gate before later, u.tree.Within body block →
        u.kind? block = some (.block (before ++ gate :: later)) →
        u.tree.isKind Kind.isBlock gate = false →
        EntersAt gate (Among u (gate :: later)) flow.edges := by
  obtain ⟨signature, parameters, body, inner, ends, hkind, hadds, rfl⟩ := build_eq_ok hbuild
  rw [statements_connect] at hne ⊢
  cases body with
  | none =>
    cases hadds
    exact absurd rfl hne
  | some body =>
    have hchild : body ∈ u.tree.children method := by
      rw [Tree.children_eq hkind]
      simp [Kind.children]
    have hattached := (hu.attached_child_iff hchild).mpr hmethod
    have hbody : u.IsBody method body :=
      ⟨Tree.isKind_of_kind? hkind rfl, hattached, (hu.linked.parent_iff body method).mpr hchild,
        fun part hwithin => hadds.isStatement_of_within List.mem_cons_self hwithin⟩
    refine ⟨body, hbody, ?_, ?_, fun block gate before later =>
      entersAt_among hu hbody hadds⟩
    · obtain ⟨depth, hbelow⟩ := hu.mem_attached_iff.mp hattached
      obtain ⟨met, hmet, hsub⟩ :=
        hadds.exists_met hu.linked (List.forall_mem_singleton.mpr ⟨depth, hbelow⟩)
      rw [hmet, List.nil_append]
      rw [Option.toList_some, List.flatMap_singleton] at hsub
      exact hsub.trans (hu.subtree_sublist_attached hbelow)
    · intro id hid
      obtain ⟨hpoint, whole, hwhole, hwithin⟩ :=
        (hadds.mem_statements hid).resolve_left List.not_mem_nil
      obtain rfl := List.mem_singleton.mp hwhole
      refine ⟨hwithin, Tree.isKind_eq_false hpoint fun kind hkind => ?_⟩
      simpa using (Bool.and_eq_true_iff.mp hkind).2

end Bodies

end ControlFlow

namespace CompilationUnit

/-! ## Definitions and reads -/

/-- Whether an element declares a local variable. -/
def isDeclaration : Kind → Bool
  | .localVar .. => true
  | _ => false

/-- The statement of a definition; a declaration is its own statement. -/
def definingStatement? (u : CompilationUnit) (definition : ElementId) : Option ElementId :=
  if u.tree.isKind isDeclaration definition then some definition
  else u.enclosingStatement? definition

/-- Whether an element can define a variable: a declaration or an expression. -/
def isDefinition (kind : Kind) : Bool := isDeclaration kind || kind.isExpression

/-- The expressions that are evaluated at a point. -/
def expressionsAt (u : CompilationUnit) : Point → List ElementId
  | .statement id => ControlFlow.ownExpressions u id
  | _ => []

/-- Control takes this path from the statement of a definition to that of a read, and nothing
    on the way assigns the variable: neither a statement between the two nor the last one
    before it reads. -/
structure ClearWay (u : CompilationUnit) (flow : ControlFlow)
    (variableId definition read source target : ElementId) (path : List FlowEdge) : Prop where
  defined : u.definingStatement? definition = some source
  used : u.enclosingStatement? read = some target
  isPath : flow.IsPath (.statement source) path (.statement target)
  nonempty : path ≠ []
  between : ∀ edge ∈ path.dropLast, ∀ assignment ∈ u.expressionsAt edge.target,
    u.isAssignmentTo variableId assignment = false
  before : ∀ assignment ∈ ControlFlow.ownExpressions u target,
    u.isAssignmentTo variableId assignment = true → u.isBefore assignment read = false

instance (u : CompilationUnit) (flow : ControlFlow)
    (variableId definition read source target : ElementId) (path : List FlowEdge) :
    Decidable (u.ClearWay flow variableId definition read source target path) :=
  decidable_of_iff
    (u.definingStatement? definition = some source ∧ u.enclosingStatement? read = some target ∧
      flow.IsPath (.statement source) path (.statement target) ∧ path ≠ [] ∧
      (∀ edge ∈ path.dropLast, ∀ assignment ∈ u.expressionsAt edge.target,
        u.isAssignmentTo variableId assignment = false) ∧
      ∀ assignment ∈ ControlFlow.ownExpressions u target,
        u.isAssignmentTo variableId assignment = true → u.isBefore assignment read = false)
    ⟨fun ⟨defined, used, isPath, nonempty, between, before⟩ =>
        ⟨defined, used, isPath, nonempty, between, before⟩,
      fun ⟨defined, used, isPath, nonempty, between, before⟩ =>
        ⟨defined, used, isPath, nonempty, between, before⟩⟩

section Reads

variable {u : CompilationUnit} {variableId definition read assignment : ElementId}

theorem isExpression_of_isReadOf (h : u.isReadOf variableId read = true) :
    u.tree.isKind Kind.isExpression read = true := by
  rw [isReadOf, Bool.and_eq_true, Bool.and_eq_true, beq_iff_eq, variableOf?] at h
  obtain ⟨⟨hvariable, -⟩, -⟩ := h
  split at hvariable
  · next hkind => exact Tree.isKind_of_kind? hkind rfl
  · cases hvariable

theorem isExpression_of_isAssignmentTo (h : u.isAssignmentTo variableId assignment = true) :
    u.tree.isKind Kind.isExpression assignment = true := by
  rw [isAssignmentTo] at h
  split at h
  · next hkind => exact Tree.isKind_of_kind? hkind rfl
  · cases h

/-- An assignment hides earlier values from the reads in the block that its statement stands
    in. -/
theorem hides_iff :
    u.hides assignment read = true ↔
      ∃ statement block, u.enclosingStatement? assignment = some statement ∧
        u.parent? statement = some block ∧ u.tree.isKind Kind.isBlock block = true ∧
        u.contains block read = true := by
  rw [hides]
  split
  · next block hblock =>
    obtain ⟨statement, hstatement, hparent⟩ := Option.bind_eq_some_iff.mp hblock
    rw [Bool.and_eq_true]
    refine ⟨fun hhides => ⟨statement, block, hstatement, hparent, hhides⟩, ?_⟩
    rintro ⟨other, otherBlock, hother, hotherParent, hhides⟩
    cases hstatement.symm.trans hother
    cases hparent.symm.trans hotherParent
    exact hhides
  · next hnone =>
    refine ⟨fun hfalse => absurd hfalse Bool.false_ne_true, ?_⟩
    rintro ⟨statement, block, hstatement, hparent, -⟩
    rw [hstatement, Option.bind_some, hparent] at hnone
    cases hnone

/-- An assignment cuts a definition off from a read if it stands between them, as a
    statement of a block around the read. -/
theorem cutsOff_iff :
    u.cutsOff definition read assignment = true ↔ assignment ≠ definition ∧
      u.isBefore definition assignment = true ∧ u.isBefore assignment read = true ∧
      ∃ statement block, u.enclosingStatement? assignment = some statement ∧
        u.parent? statement = some block ∧ u.tree.isKind Kind.isBlock block = true ∧
        u.contains block read = true := by
  rw [cutsOff, Bool.and_eq_true, Bool.and_eq_true, Bool.and_eq_true, bne_iff_ne, and_assoc,
    and_assoc, hides_iff]

/-- A read sees a definition in front of it that no assignment cuts off. -/
theorem mem_readsReaching_iff (hu : u.Accepted) :
    read ∈ u.readsReaching variableId definition ↔ u.isReadOf variableId read = true ∧
      u.isBefore definition read = true ∧ ∀ assignment,
        u.isAssignmentTo variableId assignment = true →
          u.cutsOff definition read assignment = false := by
  have hmem : ∀ id ∈ u.attached, id ∈ u.sourceOrder := fun id hid => List.mem_append_right _ hid
  rw [readsReaching, List.mem_filter, readsOf, List.mem_filter, Bool.and_eq_true,
    Bool.not_eq_true', List.any_eq_false]
  refine ⟨?_, ?_⟩
  · rintro ⟨⟨-, hread⟩, hbefore, hnone⟩
    refine ⟨hread, hbefore, fun assignment hassignment => Bool.eq_false_iff.mpr fun hcut => ?_⟩
    obtain ⟨-, hafter, -⟩ := cutsOff_iff.mp hcut
    have hattached := (hu.attached_of_isBefore hafter).2
    exact hnone assignment (List.mem_filter.mpr ⟨hmem _ hattached, hassignment⟩) hcut
  · rintro ⟨hread, hbefore, hnone⟩
    refine ⟨⟨hmem read (hu.attached_of_isBefore hbefore).2, hread⟩, hbefore, ?_⟩
    intro assignment hassignment hcut
    rw [hnone assignment (List.mem_filter.mp hassignment).2] at hcut
    cases hcut

end Reads

section Cuts

variable {u : CompilationUnit} (hu : u.Accepted) {method body : ElementId}
  (hbody : u.IsBody method body)
include hu

/-- A definition stands in its statement: it is a declaration, which has no parts, or an
    expression of the statement. -/
theorem Accepted.definingStatement?_spec {definition source : ElementId}
    (hkind : u.tree.isKind isDefinition definition = true) (hsource : source ∈ u.attached)
    (hdefined : u.definingStatement? definition = some source) :
    definition ∈ u.attached ∧ u.contains source definition = true ∧
      (u.tree.parts source = [] ∨ u.tree.isKind Kind.isStatement definition = false ∧
        u.enclosingStatement? definition = some source) := by
  obtain ⟨kind, hkind, hdefinition⟩ := Tree.exists_of_isKind hkind
  rw [definingStatement?, Tree.isKind, hkind, Option.any_some] at hdefined
  split at hdefined
  · next hdeclaration =>
    cases hdefined
    refine ⟨hsource, hu.contains_self hsource, Or.inl ?_⟩
    rw [Tree.parts_eq hkind]
    cases kind <;> first | rfl | cases hdeclaration
  · next hdeclaration =>
    have hattached := hu.attached_of_enclosingStatement? hdefined hsource
    have hexpression : kind.isExpression = true :=
      (Bool.or_eq_true_iff.mp hdefinition).resolve_left hdeclaration
    exact ⟨hattached, (hu.enclosingStatement?_spec hattached hdefined).2.1,
      Or.inr ⟨Tree.not_isStatement_of_isExpression (Tree.isKind_of_kind? hkind hexpression),
        hdefined⟩⟩

include hbody

/-- A definition comes before the parts of its statement. -/
theorem IsBody.definition_isBefore {definition source part other : ElementId}
    (hkind : u.tree.isKind isDefinition definition = true)
    (hdefined : u.definingStatement? definition = some source)
    (hsource : u.tree.Within body source) (hpart : part ∈ u.tree.parts source)
    (hother : u.contains part other = true) : u.isBefore definition other = true := by
  obtain ⟨hdefinition, -, hnone | ⟨hstatement, henclosing⟩⟩ :=
    hu.definingStatement?_spec hkind (hu.attached_of_within hbody.attached hsource) hdefined
  · rw [hnone] at hpart
    cases hpart
  · exact hbody.isBefore_part hu hsource hdefinition hstatement henclosing hpart hother

/-- An assignment between a definition and a read of the body, in a block around the read,
    stands in the body with its statement and that block. -/
theorem IsBody.within_of_cutsOff {definition read assignment target gate block : ElementId}
    (hdefinition : u.contains body definition = true) (hread : u.contains body read = true)
    (hafter : u.isBefore definition assignment = true)
    (hbefore : u.isBefore assignment read = true)
    (hassignment : u.tree.isKind Kind.isStatement assignment = false)
    (hgate : u.enclosingStatement? assignment = some gate)
    (hparent : u.parent? gate = some block) (hblock : u.tree.isKind Kind.isBlock block = true)
    (htarget : u.tree.Within body target) (hcontains : u.contains block target = true) :
    u.tree.Within body block ∧ u.tree.Within body gate := by
  obtain ⟨statements, hkind⟩ := Tree.exists_of_isBlock hblock
  obtain ⟨-, -, -, hinner⟩ := hu.enclosingStatement?_spec (hu.attached_of_isBefore hafter).2 hgate
  have hchild : gate ∈ u.tree.children block := (hu.linked.parent_iff gate block).mp hparent
  have hgateInside : u.contains body gate = true := by
    refine hinner body (hbody.statements body .refl)
      (hu.contains_of_between hdefinition hread hafter hbefore) ?_
    rintro rfl
    rw [hbody.statements body .refl] at hassignment
    cases hassignment
  have hblockInside : u.contains body block = true := by
    refine hu.contains_parent hchild hgateInside ?_
    -- The parent of the body is the method, and that is no block.
    rintro rfl
    cases hparent.symm.trans hbody.parent
    exact absurd hbody.isMethod (by simp [Tree.isKind, hkind, Kind.isMethod])
  obtain ⟨hwithin, -⟩ := hu.within_between htarget hblockInside hcontains
  refine ⟨hwithin, hwithin.tail ?_⟩
  rw [Tree.children_eq hkind] at hchild
  rwa [Tree.parts_eq hkind]

omit hbody in
/-- What a block contains behind an element stands in the statement of that element or in
    one that follows. -/
theorem Accepted.among_of_isBefore {block gate target assignment read : ElementId}
    {before later : List ElementId}
    (hkind : u.kind? block = some (.block (before ++ gate :: later)))
    (hcontains : u.contains block target = true) (hne : block ≠ target)
    (hgate : u.contains gate assignment = true) (hread : u.contains target read = true)
    (hbefore : u.isBefore assignment read = true) :
    ControlFlow.Among u (gate :: later) target := by
  rcases hu.contains_cases hcontains with heq | ⟨sibling, hsibling, hsiblingContains⟩
  · exact absurd heq hne
  · rw [Tree.children_eq hkind] at hsibling
    rcases List.mem_append.mp hsibling with hearlier | hlater
    · obtain ⟨hpreceding, -⟩ := hu.isBefore_in_block (hu.attached_of_contains hcontains).1 hkind
      have hreadBefore := hu.isBefore_of_contains (hpreceding sibling hearlier)
        (hu.contains_trans hsiblingContains hread) hgate
      exact absurd hbefore (hu.not_isBefore_of_isBefore hreadBefore)
    · exact ⟨sibling, hlater, hsiblingContains⟩

/-- An assignment that cuts a definition off from a read is an expression of a statement of
    the body, and the statement of the read follows it in the same block. -/
theorem IsBody.exists_cut_block {definition read assignment target : ElementId}
    (hdefinition : u.contains body definition = true) (hread : u.contains body read = true)
    (hreadKind : u.tree.isKind Kind.isExpression read = true)
    (hused : u.enclosingStatement? read = some target) (htarget : u.tree.Within body target)
    (hpoint : u.tree.isKind Kind.isBlock target = false)
    (hassignment : u.tree.isKind Kind.isExpression assignment = true)
    (hcut : u.cutsOff definition read assignment = true) :
    ∃ gate block before later, u.enclosingStatement? assignment = some gate ∧
      u.tree.Within body block ∧ u.kind? block = some (.block (before ++ gate :: later)) ∧
      u.tree.isKind Kind.isBlock gate = false ∧ ControlFlow.Among u (gate :: later) target := by
  obtain ⟨-, hafter, hbefore, gate, block, hgate, hparent, hblock, hcontains⟩ := cutsOff_iff.mp hcut
  obtain ⟨statements, hkind⟩ := Tree.exists_of_isBlock hblock
  have hattached := (hu.attached_of_isBefore hafter).2
  have hassignment := Tree.not_isStatement_of_isExpression hassignment
  obtain ⟨-, hgateContains, -⟩ := hu.enclosingStatement?_spec hattached hgate
  obtain ⟨-, htargetContains, -, hinner⟩ :=
    hu.enclosingStatement?_spec (hu.attached_of_contains hread).2 hused
  -- The block is a statement around the read, so it is one around the statement of the read.
  have hblockTarget : u.contains block target = true := by
    refine hinner block (Tree.isKind_of_kind? hkind rfl) hcontains ?_
    rintro rfl
    exact absurd hreadKind (by simp [Tree.isKind, hkind, Kind.isExpression])
  have hne : block ≠ target := by
    rintro rfl
    rw [hblock] at hpoint
    cases hpoint
  obtain ⟨hblockWithin, hgateWithin⟩ := hbody.within_of_cutsOff hu hdefinition hread hafter hbefore
    hassignment hgate hparent hblock htarget hblockTarget
  have hmem : gate ∈ statements := by
    have hchild : gate ∈ u.tree.children block := (hu.linked.parent_iff gate block).mp hparent
    rwa [Tree.children_eq hkind] at hchild
  obtain ⟨before, later, rfl⟩ := List.append_of_mem hmem
  exact ⟨gate, block, before, later, hgate, hblockWithin, hkind,
    hbody.not_isBlock hu hgateWithin hattached hassignment hgate,
    hu.among_of_isBefore hkind hblockTarget hne hgateContains htargetContains hbefore⟩

/-- If the definition stands behind the statement of the assignment, it is in the same
    statement. -/
theorem IsBody.gate_eq_source {definition assignment source gate block : ElementId}
    {before later : List ElementId} (hkind : u.tree.isKind isDefinition definition = true)
    (hdefined : u.definingStatement? definition = some source)
    (hsource : u.tree.Within body source)
    (hassignment : u.tree.isKind Kind.isExpression assignment = true)
    (hgate : u.enclosingStatement? assignment = some gate)
    (hafter : u.isBefore definition assignment = true) (hblock : u.tree.Within body block)
    (hblockKind : u.kind? block = some (.block (before ++ gate :: later)))
    (hamong : ControlFlow.Among u (gate :: later) source) : gate = source := by
  have hattached := (hu.attached_of_isBefore hafter).2
  obtain ⟨-, hcontains, -⟩ := hu.definingStatement?_spec hkind
    (hu.attached_of_within hbody.attached hsource) hdefined
  obtain ⟨-, hgateContains, -⟩ := hu.enclosingStatement?_spec hattached hgate
  have hnot := hu.not_isBefore_of_isBefore hafter
  obtain ⟨sibling, hsibling, hsiblingContains⟩ := hamong
  rcases List.mem_cons.mp hsibling with rfl | hlater
  · have hgateWithin : u.tree.Within body sibling :=
      hblock.tail (by rw [Tree.parts_eq hblockKind]; simp [Kind.parts])
    -- In a part of the statement the definition would come behind its expressions.
    by_contra hne
    obtain ⟨part, hpart, hpartContains⟩ :=
      hbody.exists_part hu hgateWithin hsource hsiblingContains hne
    exact hnot (hbody.isBefore_part hu hgateWithin hattached
      (Tree.not_isStatement_of_isExpression hassignment) hgate hpart
      (hu.contains_trans hpartContains hcontains))
  · obtain ⟨-, hfollowing⟩ :=
      hu.isBefore_in_block (hu.attached_of_within hbody.attached hblock) hblockKind
    exact absurd (hu.isBefore_of_contains (hfollowing sibling hlater) hgateContains
      (hu.contains_trans hsiblingContains hcontains)) hnot

end Cuts

section Ways

variable {u : CompilationUnit} (hu : u.Accepted) {method : ElementId} {flow : ControlFlow}
  (hmethod : method ∈ u.attached) (hbuild : ControlFlow.build u method = .ok flow)
  {variableId definition read source target : ElementId} {path : List FlowEdge}
  (hkind : u.tree.isKind isDefinition definition = true)
  (hread : u.isReadOf variableId read = true)
  (hway : u.ClearWay flow variableId definition read source target path)
include hu hmethod hbuild hkind hway

/-- Both ends of the way stand in the body of the method. -/
theorem ClearWay.exists_body :
    ∃ body, u.IsBody method body ∧ u.tree.Within body source ∧ u.tree.Within body target ∧
      u.tree.isKind Kind.isBlock target = false ∧ u.contains source definition = true ∧
      u.contains target read = true ∧ flow.statements.Sublist u.attached ∧
      ∀ block gate before later, u.tree.Within body block →
        u.kind? block = some (.block (before ++ gate :: later)) →
        u.tree.isKind Kind.isBlock gate = false →
        ControlFlow.EntersAt gate (ControlFlow.Among u (gate :: later)) flow.edges := by
  have horderly := ControlFlow.orderly_of_build hbuild
  have hsource := ControlFlow.statement_mem_departures.mp
    (hway.isPath.source_mem horderly hway.nonempty)
  have htarget := ControlFlow.statement_mem_arrivals.mp
    (hway.isPath.last_mem horderly hway.nonempty)
  obtain ⟨body, hbody, hsub, hpoints, hgates⟩ :=
    ControlFlow.exists_body hu hmethod hbuild (List.ne_nil_of_mem hsource)
  obtain ⟨hsourceWithin, -⟩ := hpoints source hsource
  obtain ⟨htargetWithin, htargetPoint⟩ := hpoints target htarget
  obtain ⟨-, hsourceContains, -⟩ :=
    hu.definingStatement?_spec hkind (hsub.subset hsource) hway.defined
  have hread := hu.attached_of_enclosingStatement? hway.used (hsub.subset htarget)
  obtain ⟨-, htargetContains, -⟩ := hu.enclosingStatement?_spec hread hway.used
  exact ⟨body, hbody, hsourceWithin, htargetWithin, htargetPoint, hsourceContains,
    htargetContains, hsub, hgates⟩

/-- Without jumps, the definition comes before the read. -/
theorem ClearWay.isBefore_of_forward (hforward : ∀ edge ∈ path, edge.branch ≠ .jump) :
    u.isBefore definition read = true := by
  obtain ⟨body, hbody, hsource, htarget, -, hdefinition, hread, hsub, -⟩ :=
    hway.exists_body hu hmethod hbuild hkind
  have hlt := hway.isPath.forward (ControlFlow.orderly_of_build hbuild)
    (hu.pairwise_idxOf.sublist hsub) hforward hway.nonempty rfl rfl
  have hsourceAttached := (hu.attached_of_contains hdefinition).1
  have htargetAttached := (hu.attached_of_contains hread).1
  by_cases hinside : u.contains source target = true
  · -- The read is in a part of the statement of the definition.
    have hne : source ≠ target := by
      rintro rfl
      exact Nat.lt_irrefl _ hlt
    obtain ⟨part, hpart, hpartContains⟩ := hbody.exists_part hu hsource htarget hinside hne
    exact hbody.definition_isBefore hu hkind hway.defined hsource hpart
      (hu.contains_trans hpartContains hread)
  · have hbefore : u.isBefore source target = true :=
      (hu.isBefore_iff hsourceAttached htargetAttached).mpr
        ⟨hlt, mt (hu.contains_iff hsourceAttached htargetAttached).mpr hinside⟩
    exact hu.isBefore_of_contains hbefore hdefinition hread

include hread

/-- On a way that nothing assigns the variable on, the definition can only be cut off inside
    of its own statement. -/
theorem ClearWay.cut_in_source {assignment : ElementId}
    (hassignment : u.isAssignmentTo variableId assignment = true)
    (hcut : u.cutsOff definition read assignment = true) :
    assignment ∈ ControlFlow.ownExpressions u source := by
  obtain ⟨body, hbody, hsource, htarget, htargetPoint, hsourceContains, htargetContains, -,
    hgates⟩ := hway.exists_body hu hmethod hbuild hkind
  have hsourceInside := hu.contains_of_within hbody.attached hsource
  have htargetInside := hu.contains_of_within hbody.attached htarget
  have hexpression := isExpression_of_isAssignmentTo hassignment
  obtain ⟨-, hafter, hbefore, -⟩ := cutsOff_iff.mp hcut
  obtain ⟨gate, block, before, later, hgate, hblock, hblockKind, hgatePoint, hamong⟩ :=
    hbody.exists_cut_block hu (hu.contains_trans hsourceInside hsourceContains)
      (hu.contains_trans htargetInside htargetContains) (isExpression_of_isReadOf hread)
      hway.used htarget htargetPoint hexpression hcut
  have hown :=
    ControlFlow.mem_ownExpressions hu (hu.attached_of_isBefore hafter).2 hexpression hgate
  by_cases hregion : ControlFlow.Among u (gate :: later) source
  · rwa [hbody.gate_eq_source hu hkind hway.defined hsource hexpression hgate hafter
      hblock hblockKind hregion] at hown
  · -- From outside, control comes to the read through the assignment.
    obtain ⟨edge, hedge, hedgeTarget⟩ := hway.isPath.passes_gate
      (hgates block gate before later hblock hblockKind hgatePoint) hregion hamong
    rcases hway.isPath.mem_cases hedge with hbetween | hlast
    · have hat : assignment ∈ u.expressionsAt edge.target := hedgeTarget ▸ hown
      rw [hway.between edge hbetween assignment hat] at hassignment
      cases hassignment
    · cases hedgeTarget.symm.trans hlast
      rw [hway.before assignment hown hassignment] at hbefore
      cases hbefore

/-- A read sees a definition that control carries to it without a jump, if neither a
    statement on the way assigns the variable, nor that of the definition behind it, nor
    that of the read in front of it. -/
theorem mem_readsReaching_of_forward_way (hforward : ∀ edge ∈ path, edge.branch ≠ .jump)
    (hlast : ∀ assignment ∈ ControlFlow.ownExpressions u source,
      u.isAssignmentTo variableId assignment = true → assignment ≠ definition →
        u.isBefore definition assignment = false) :
    read ∈ u.readsReaching variableId definition := by
  have hbefore := hway.isBefore_of_forward hu hmethod hbuild hkind hforward
  refine (mem_readsReaching_iff hu).mpr ⟨hread, hbefore, fun assignment hassignment => ?_⟩
  refine Bool.eq_false_iff.mpr fun hcut => ?_
  have hown := hway.cut_in_source hu hmethod hbuild hkind hread hassignment hcut
  obtain ⟨hne, hafter, -⟩ := cutsOff_iff.mp hcut
  rw [hlast assignment hown hassignment hne] at hafter
  cases hafter

end Ways

/-- From the declaration into the loop, to the branch that reads the variable. -/
def wayIntoLoop : List FlowEdge :=
  [⟨.statement ⟨5⟩, .statement ⟨8⟩, .sequence⟩, ⟨.statement ⟨8⟩, .statement ⟨11⟩, .ifTrue⟩,
    ⟨.statement ⟨11⟩, .statement ⟨14⟩, .ifTrue⟩]

theorem mem_readsReaching_of_forward_way_loopUnit :
    loopUnit.ClearWay loopFlow ⟨5⟩ ⟨5⟩ ⟨16⟩ ⟨5⟩ ⟨14⟩ wayIntoLoop ∧
      ⟨16⟩ ∈ loopUnit.readsReaching ⟨5⟩ ⟨5⟩ := by
  have hway : loopUnit.ClearWay loopFlow ⟨5⟩ ⟨5⟩ ⟨16⟩ ⟨5⟩ ⟨14⟩ wayIntoLoop := by decide +kernel
  exact ⟨hway, mem_readsReaching_of_forward_way loopUnit_accepted (by decide +kernel)
    build_loopUnit (by decide +kernel) (by decide +kernel) hway (by decide) (by decide +kernel)⟩

/-- A read that control comes to from an assignment, on any way that nothing else assigns the
    variable on, sees the assignment exactly if it stands behind it and no assignment of the
    same statement cuts it off. -/
theorem mem_readsReaching_iff_of_way {u : CompilationUnit} (hu : u.Accepted)
    {method : ElementId} (hmethod : method ∈ u.attached) {flow : ControlFlow}
    (hbuild : ControlFlow.build u method = .ok flow)
    {variableId assignment read source target : ElementId} {path : List FlowEdge}
    (hassignment : u.isAssignmentTo variableId assignment = true)
    (hread : u.isReadOf variableId read = true)
    (hway : u.ClearWay flow variableId assignment read source target path) :
    read ∈ u.readsReaching variableId assignment ↔
      u.isBefore assignment read = true ∧ ∀ other ∈ ControlFlow.ownExpressions u source,
        u.isAssignmentTo variableId other = true → u.cutsOff assignment read other = false := by
  have hkind : u.tree.isKind isDefinition assignment = true := by
    obtain ⟨kind, hkind, hexpression⟩ :=
      Tree.exists_of_isKind (isExpression_of_isAssignmentTo hassignment)
    exact Tree.isKind_of_kind? hkind (Bool.or_eq_true_iff.mpr (Or.inr hexpression))
  rw [mem_readsReaching_iff hu]
  refine ⟨?_, ?_⟩
  · rintro ⟨-, hbefore, hnone⟩
    exact ⟨hbefore, fun other _ hother => hnone other hother⟩
  · rintro ⟨hbefore, hnone⟩
    refine ⟨hread, hbefore, fun other hother => Bool.eq_false_iff.mpr fun hcut => ?_⟩
    have hown := hway.cut_in_source hu hmethod hbuild hkind hread hother hcut
    rw [hnone other hown hother] at hcut
    cases hcut

/-- From the assignment back to the loop, and behind it. -/
def wayOutOfLoop : List FlowEdge :=
  [⟨.statement ⟨18⟩, .statement ⟨8⟩, .jump⟩, ⟨.statement ⟨8⟩, .statement ⟨22⟩, .ifFalse⟩]

theorem mem_readsReaching_iff_of_way_loopUnit :
    loopUnit.ClearWay loopFlow ⟨5⟩ ⟨19⟩ ⟨24⟩ ⟨18⟩ ⟨22⟩ wayOutOfLoop ∧
      ⟨24⟩ ∈ loopUnit.readsReaching ⟨5⟩ ⟨19⟩ := by
  have hway : loopUnit.ClearWay loopFlow ⟨5⟩ ⟨19⟩ ⟨24⟩ ⟨18⟩ ⟨22⟩ wayOutOfLoop := by
    decide +kernel
  exact ⟨hway, (mem_readsReaching_iff_of_way loopUnit_accepted (by decide +kernel) build_loopUnit
    (by decide +kernel) (by decide +kernel) hway).mpr ⟨by decide +kernel, by decide +kernel⟩⟩

/-- From the assignment back to the loop, and once more to the branch that reads. -/
def wayAroundLoop : List FlowEdge :=
  [⟨.statement ⟨18⟩, .statement ⟨8⟩, .jump⟩, ⟨.statement ⟨8⟩, .statement ⟨11⟩, .ifTrue⟩,
    ⟨.statement ⟨11⟩, .statement ⟨14⟩, .ifTrue⟩]

/-- The read in front of the assignment is lost, though control comes to it in the next round
    of the loop and nothing on the way assigns the variable again. -/
theorem read_in_next_round_lost :
    loopUnit.Accepted ∧ ⟨2⟩ ∈ loopUnit.attached ∧
      ControlFlow.build loopUnit ⟨2⟩ = .ok loopFlow ∧
      loopUnit.isAssignmentTo ⟨5⟩ ⟨19⟩ = true ∧ loopUnit.isReadOf ⟨5⟩ ⟨16⟩ = true ∧
      loopUnit.ClearWay loopFlow ⟨5⟩ ⟨19⟩ ⟨16⟩ ⟨18⟩ ⟨14⟩ wayAroundLoop ∧
      ⟨16⟩ ∉ loopUnit.readsReaching ⟨5⟩ ⟨19⟩ :=
  ⟨loopUnit_accepted, by decide +kernel, build_loopUnit, by decide +kernel⟩

end CompilationUnit
end ValueFlow
