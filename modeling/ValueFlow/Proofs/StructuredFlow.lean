/-
  ValueFlow.Proofs.StructuredFlow

  Control reaches what the structure of a body says.

  The course of control through a statement can be told from the statement alone: whether
  control enters its parts, and whether it comes out behind it. No graph is needed for
  that, and a loop is looked at once. The statements that are reached in the control flow
  of a method are those that this course enters: each of them has an edge from one that
  was entered before, and no edge leaves the set of statements entered. Edges back to a
  loop carry no condition, but they start only where the loop was entered.
-/

import ValueFlow.Proofs.FlowConstruction
import ValueFlow.Proofs.Sorted

namespace ValueFlow
namespace ControlFlow

/-! ## The course of control -/

/-- What control does in a statement: the statements it enters, blocks aside, and whether it
    comes out behind. -/
structure Course where
  entered : List ElementId
  completes : Bool
deriving DecidableEq, Repr

namespace Course

/-- Statements one after the other: the first one is entered if control comes to them, each
    other one if the one before completes. -/
def inTurn (course : ElementId → Bool → Course) : List ElementId → Bool → Course
  | [], entered => ⟨[], entered⟩
  | first :: rest, entered =>
    let head := course first entered
    let tail := inTurn course rest head.completes
    ⟨head.entered ++ tail.entered, tail.completes⟩

/-- The course of a statement, from the courses of its parts. -/
def ofParts (u : CompilationUnit) (barrier : Guard → Bool → Bool)
    (course : ElementId → Bool → Course) (id : ElementId) (entered : Bool) : Course :=
  let self := if entered then [id] else []
  match u.kind? id with
  | some (.block statements) => inTurn course statements entered
  | some (.ifElse condition thenBranch elseBranch) =>
    let whenTrue := course thenBranch (entered && !barrier ⟨id, condition⟩ true)
    -- A missing branch completes as an empty one does.
    let whenFalse := inTurn course elseBranch.toList (entered && !barrier ⟨id, condition⟩ false)
    ⟨self ++ (whenTrue.entered ++ whenFalse.entered),
      whenTrue.completes || whenFalse.completes⟩
  | some (.whileLoop condition body) =>
    let whenTrue := course body (entered && !barrier ⟨id, condition⟩ true)
    ⟨self ++ whenTrue.entered, entered && !barrier ⟨id, condition⟩ false⟩
  | some (.ret _) => ⟨self, false⟩
  | some (.localVar ..) | some (.exprStmt _) => ⟨self, entered⟩
  | _ => ⟨[], false⟩

end Course

/-- The course of control through a statement, down to `bound` levels. -/
def courseUpTo (u : CompilationUnit) (barrier : Guard → Bool → Bool) :
    Nat → ElementId → Bool → Course
  | 0, _, _ => ⟨[], false⟩
  | bound + 1, id, entered => Course.ofParts u barrier (courseUpTo u barrier bound) id entered

/-- The course of control through a statement. -/
def course (u : CompilationUnit) (barrier : Guard → Bool → Bool) :
    ElementId → Bool → Course :=
  courseUpTo u barrier u.size

namespace Course

variable {u : CompilationUnit} {barrier : Guard → Bool → Bool}
  {course other : ElementId → Bool → Course}

@[simp] theorem inTurn_nil (entered : Bool) : inTurn course [] entered = ⟨[], entered⟩ := rfl

@[simp] theorem inTurn_singleton (id : ElementId) (entered : Bool) :
    inTurn course [id] entered = course id entered := by
  simp [inTurn]

theorem inTurn_congr {statements : List ElementId}
    (h : ∀ id ∈ statements, ∀ entered, course id entered = other id entered) (entered : Bool) :
    inTurn course statements entered = inTurn other statements entered := by
  induction statements generalizing entered with
  | nil => rfl
  | cons first rest ih =>
    obtain ⟨hfirst, hrest⟩ := List.forall_mem_cons.mp h
    simp only [inTurn, hfirst, ih hrest]

/-- The course of a statement depends on those of its parts only. -/
theorem ofParts_congr {id : ElementId} (h : ∀ part ∈ u.tree.parts id, ∀ entered,
      course part entered = other part entered) (entered : Bool) :
    ofParts u barrier course id entered = ofParts u barrier other id entered := by
  rw [ofParts, ofParts]
  cases hkind : u.kind? id with
  | none => rfl
  | some kind =>
    rw [Tree.parts_eq hkind] at h
    cases kind with
    | block statements => exact inTurn_congr h entered
    | ifElse condition thenBranch elseBranch =>
      obtain ⟨hthen, helse⟩ := List.forall_mem_cons.mp h
      simp only [hthen, inTurn_congr helse]
    | whileLoop condition body =>
      simp only [h body List.mem_cons_self]
    | _ => rfl

/-- Where control does not come to, it enters nothing. -/
theorem inTurn_false (h : ∀ id, course id false = ⟨[], false⟩) (statements : List ElementId) :
    inTurn course statements false = ⟨[], false⟩ := by
  induction statements with
  | nil => rfl
  | cons first rest ih => simp [inTurn, h, ih]

theorem ofParts_false (h : ∀ id, course id false = ⟨[], false⟩) (id : ElementId) :
    ofParts u barrier course id false = ⟨[], false⟩ := by
  rw [ofParts]
  split
  · exact inTurn_false h _
  · simp [h, inTurn_false h]
  · simp [h]
  · simp
  · simp
  · simp
  · rfl

end Course

section Course

variable {u : CompilationUnit} {barrier : Guard → Bool → Bool}

theorem courseUpTo_false (bound : Nat) (id : ElementId) :
    courseUpTo u barrier bound id false = ⟨[], false⟩ := by
  induction bound generalizing id with
  | zero => rfl
  | succ bound ih => exact Course.ofParts_false ih id

theorem course_false (id : ElementId) : course u barrier id false = ⟨[], false⟩ :=
  courseUpTo_false u.size id

/-- Levels below the deepest part add nothing. -/
theorem courseUpTo_of_le {id : ElementId} {bound other : Nat}
    (hdeep : ∀ depth x, u.tree.Below id depth x → depth < bound) (hle : bound ≤ other)
    (entered : Bool) :
    courseUpTo u barrier other id entered = courseUpTo u barrier bound id entered := by
  induction bound generalizing id other entered with
  | zero => exact absurd (hdeep 0 id .self) (Nat.not_lt_zero 0)
  | succ bound ih =>
    cases other with
    | zero => omega
    | succ other =>
      refine Course.ofParts_congr (fun part hpart entered => ih ?_ (by omega) entered) entered
      intro depth x hbelow
      have hchild := (u.tree.parts_suffix_children id).subset hpart
      have hlt := hdeep (depth + 1) x (.head hchild hbelow)
      omega

/-- The course of an attached statement is that of its parts, whatever their depth. -/
theorem course_eq (hu : u.Accepted) {id : ElementId} (hid : id ∈ u.attached) (entered : Bool) :
    course u barrier id entered = Course.ofParts u barrier (course u barrier) id entered := by
  obtain ⟨depth, hbelow⟩ := hu.mem_attached_iff.mp hid
  have hdeep : ∀ level x, u.tree.Below id level x → level < u.size := by
    intro level x hx
    have hlt := hu.linked.depth_lt (hbelow.trans hx)
    exact Nat.lt_of_le_of_lt (Nat.le_add_left _ _) hlt
  exact (courseUpTo_of_le hdeep (Nat.le_succ u.size) entered).symm

theorem mem_self_iff {entered : Bool} {id x : ElementId} :
    x ∈ (if entered then [id] else []) ↔ entered = true ∧ x = id := by
  cases entered <;> simp

section Kinds

variable (hu : u.Accepted) {id : ElementId} (hid : id ∈ u.attached) (entered : Bool)
include hu hid

theorem course_block {statements : List ElementId} (hkind : u.kind? id = some (.block statements)) :
    course u barrier id entered = Course.inTurn (course u barrier) statements entered := by
  rw [course_eq hu hid, Course.ofParts, hkind]

theorem course_ifElse {condition thenBranch : ElementId} {elseBranch : Option ElementId}
    (hkind : u.kind? id = some (.ifElse condition thenBranch elseBranch)) :
    course u barrier id entered =
      ⟨(if entered then [id] else []) ++
          ((course u barrier thenBranch (entered && !barrier ⟨id, condition⟩ true)).entered ++
            (Course.inTurn (course u barrier) elseBranch.toList
              (entered && !barrier ⟨id, condition⟩ false)).entered),
        (course u barrier thenBranch (entered && !barrier ⟨id, condition⟩ true)).completes ||
          (Course.inTurn (course u barrier) elseBranch.toList
            (entered && !barrier ⟨id, condition⟩ false)).completes⟩ := by
  rw [course_eq hu hid, Course.ofParts, hkind]

theorem course_whileLoop {condition body : ElementId}
    (hkind : u.kind? id = some (.whileLoop condition body)) :
    course u barrier id entered =
      ⟨(if entered then [id] else []) ++
          (course u barrier body (entered && !barrier ⟨id, condition⟩ true)).entered,
        entered && !barrier ⟨id, condition⟩ false⟩ := by
  rw [course_eq hu hid, Course.ofParts, hkind]

theorem course_ret {expression : Option ElementId} (hkind : u.kind? id = some (.ret expression)) :
    course u barrier id entered = ⟨if entered then [id] else [], false⟩ := by
  rw [course_eq hu hid, Course.ofParts, hkind]

theorem course_plain {kind : Kind} (hkind : u.kind? id = some kind) (hplain : isPlain kind = true) :
    course u barrier id entered = ⟨if entered then [id] else [], entered⟩ := by
  rw [course_eq hu hid, Course.ofParts, hkind]
  cases kind <;> first | rfl | cases hplain

end Kinds

/-- What control enters in statements one after the other, it enters in one of them. -/
theorem Course.exists_of_mem_inTurn {course : ElementId → Bool → Course}
    {statements : List ElementId} {entered : Bool} {x : ElementId}
    (hx : x ∈ (inTurn course statements entered).entered) :
    ∃ id ∈ statements, ∃ entered, x ∈ (course id entered).entered := by
  induction statements generalizing entered with
  | nil => cases hx
  | cons first rest ih =>
    rcases List.mem_append.mp hx with hx | hx
    · exact ⟨first, List.mem_cons_self, entered, hx⟩
    · obtain ⟨id, hid, hmem⟩ := ih hx
      exact ⟨id, List.mem_cons_of_mem _ hid, hmem⟩

/-- What control enters in a statement is the statement or entered in one of its parts. -/
theorem Course.mem_ofParts {course : ElementId → Bool → Course} {id x : ElementId}
    {entered : Bool} (hx : x ∈ (ofParts u barrier course id entered).entered) :
    x = id ∨ ∃ part ∈ u.tree.parts id, ∃ entered, x ∈ (course part entered).entered := by
  have hself : x ∈ (if entered then [id] else []) → x = id := fun hx => (mem_self_iff.mp hx).2
  rw [ofParts] at hx
  cases hkind : u.kind? id with
  | none =>
    rw [hkind] at hx
    cases hx
  | some kind =>
    rw [Tree.parts_eq hkind]
    rw [hkind] at hx
    cases kind with
    | block statements => exact Or.inr (exists_of_mem_inTurn hx)
    | ifElse condition thenBranch elseBranch =>
      rcases List.mem_append.mp hx with hx | hx
      · exact Or.inl (hself hx)
      · rcases List.mem_append.mp hx with hx | hx
        · exact Or.inr ⟨thenBranch, List.mem_cons_self, _, hx⟩
        · obtain ⟨part, hpart, hmem⟩ := exists_of_mem_inTurn hx
          exact Or.inr ⟨part, List.mem_cons_of_mem _ hpart, hmem⟩
    | whileLoop condition body =>
      rcases List.mem_append.mp hx with hx | hx
      · exact Or.inl (hself hx)
      · exact Or.inr ⟨body, List.mem_cons_self, _, hx⟩
    | ret expression => exact Or.inl (hself hx)
    | localVar type name initializer => exact Or.inl (hself hx)
    | exprStmt expression => exact Or.inl (hself hx)
    | _ => cases hx

/-- What control enters in a statement stands in its subtree. -/
theorem mem_subtree_of_entered (hu : u.Accepted) {id : ElementId} (hid : id ∈ u.attached)
    {entered : Bool} {x : ElementId} (hx : x ∈ (course u barrier id entered).entered) :
    x ∈ u.tree.subtree id := by
  obtain ⟨depth, hbelow⟩ := hu.mem_attached_iff.mp hid
  refine hu.linked.induction_below (P := fun id => ∀ entered,
    x ∈ (course u barrier id entered).entered → x ∈ u.tree.subtree id) ?_ hbelow entered hx
  intro id depth hbelow ih entered hx
  rw [course_eq hu (hu.mem_attached_iff.mpr ⟨depth, hbelow⟩)] at hx
  rw [hu.linked.subtree_eq hbelow]
  rcases Course.mem_ofParts hx with rfl | ⟨part, hpart, other, hmem⟩
  · exact List.mem_cons_self
  · have hchild := (u.tree.parts_suffix_children id).subset hpart
    exact List.mem_cons_of_mem _ (List.mem_flatMap.mpr ⟨part, hchild, ih part hchild other hmem⟩)

theorem entered_subset_subtrees (hu : u.Accepted) {statements : List ElementId}
    (hattached : ∀ id ∈ statements, id ∈ u.attached) (entered : Bool) :
    (Course.inTurn (course u barrier) statements entered).entered ⊆
      statements.flatMap u.tree.subtree := by
  intro x hx
  obtain ⟨id, hid, other, hmem⟩ := Course.exists_of_mem_inTurn hx
  exact List.mem_flatMap.mpr ⟨id, hid, mem_subtree_of_entered hu (hattached id hid) hmem⟩

end Course

/-! ## Edges that control takes -/

section Reach

variable (u : CompilationUnit) (barrier : Guard → Bool → Bool)

/-- Control may go on from an open end: it gets to the point, and no barrier cuts what
    follows. -/
def Live (reached : Point → Prop) (e : Point × Branch) : Prop :=
  reached e.1 ∧ isCut u barrier ⟨e.1, .exit, e.2⟩ = false

/-- No edge that control may take leads out of a set of points. -/
def Closed (reached : Point → Prop) (edges : List FlowEdge) : Prop :=
  ∀ edge ∈ edges, reached edge.source → isCut u barrier edge = false → reached edge.target

variable {u barrier}

theorem Closed.mono {reached : Point → Prop} {edges more : List FlowEdge}
    (h : Closed u barrier reached more) (hsub : edges ⊆ more) : Closed u barrier reached edges :=
  fun edge hedge => h edge (hsub hedge)

theorem Closed.append {reached : Point → Prop} {edges more : List FlowEdge}
    (h : Closed u barrier reached edges) (hmore : Closed u barrier reached more) :
    Closed u barrier reached (edges ++ more) := by
  intro edge hedge
  rcases List.mem_append.mp hedge with hedge | hedge
  · exact h edge hedge
  · exact hmore edge hedge

/-- Edges from open ends lead to a point that is reached if an end is live. -/
theorem closed_ends {reached : Point → Prop} {ends : OpenEnds} {target : Point}
    (h : ∀ e ∈ ends, Live u barrier reached e → reached target) :
    Closed u barrier reached (ends.map fun e => ⟨e.1, target, e.2⟩) := by
  intro edge hedge hsource hcut
  obtain ⟨e, he, rfl⟩ := List.mem_map.mp hedge
  exact h e he ⟨hsource, hcut⟩

/-- A live end leads to where its edge does. -/
theorem Closed.of_live {reached : Point → Prop} {ends : OpenEnds} {target : Point}
    (h : Closed u barrier reached (ends.map fun e => ⟨e.1, target, e.2⟩))
    {e : Point × Branch} (he : e ∈ ends) (hlive : Live u barrier reached e) : reached target :=
  h ⟨e.1, target, e.2⟩ (List.mem_map_of_mem he) hlive.1 hlive.2

theorem live_sequence_iff {reached : Point → Prop} {point : Point} :
    Live u barrier reached (point, .sequence) ↔ reached point := by
  simp [Live, isCut]

/-- How an outcome of a condition is followed. -/
def outcome : Bool → Branch
  | true => .ifTrue
  | false => .ifFalse

section Guards

variable {id condition : ElementId} {kind : Kind} (hkind : u.kind? id = some kind)
  (hcondition : kind.condition? = some condition) {reached : Point → Prop} {entered : Bool}
include hkind hcondition

/-- Control may follow an outcome of a condition that it gets to if no barrier refuses it. -/
theorem live_outcome_iff (value : Bool) :
    Live u barrier reached (.statement id, outcome value) ↔
      reached (.statement id) ∧ barrier ⟨id, condition⟩ value = false := by
  cases value <;> simp [Live, isCut, guardAt, outcome, hkind, hcondition]

theorem exists_live_outcome (hself : entered = true → reached (.statement id)) (value : Bool)
    (h : (entered && !barrier ⟨id, condition⟩ value) = true) :
    ∃ e ∈ [(Point.statement id, outcome value)], Live u barrier reached e := by
  rw [Bool.and_eq_true, Bool.not_eq_true'] at h
  exact ⟨_, List.mem_cons_self,
    (live_outcome_iff hkind hcondition value).mpr ⟨hself h.1, h.2⟩⟩

theorem enters_of_live_outcome (hself : reached (.statement id) → entered = true) (value : Bool) :
    ∀ e ∈ [(Point.statement id, outcome value)], Live u barrier reached e →
      (entered && !barrier ⟨id, condition⟩ value) = true := by
  intro e he hlive
  obtain rfl := List.mem_singleton.mp he
  obtain ⟨hreached, hopen⟩ := (live_outcome_iff hkind hcondition value).mp hlive
  rw [hself hreached, hopen]
  rfl

end Guards

/-! ## All that is entered is reached -/

/-- Control gets to a statement that was just added, if it is entered. -/
theorem Closed.reaches_added {reached : Point → Prop} {flow : ControlFlow} {id : ElementId}
    {ends : OpenEnds} {entered : Bool}
    (h : Closed u barrier reached (flow.addStatement id ends).edges)
    (hends : entered = true → ∃ e ∈ ends, Live u barrier reached e) (hentered : entered = true) :
    reached (.statement id) := by
  obtain ⟨e, he, hlive⟩ := hends hentered
  rw [edges_addStatement] at h
  exact (h.mono (List.subset_append_right _ _)).of_live he hlive

/-- If control gets to statements whenever it is said to enter them, it gets to all that their
    course enters, and behind them if the course completes. -/
theorem Adds.enters (hu : u.Accepted) {statements : List ElementId} {ends lastEnds : OpenEnds}
    {flow last : ControlFlow} (h : Adds u.tree statements ends flow last lastEnds)
    {reached : Point → Prop} {entered : Bool}
    (hattached : ∀ id ∈ statements, id ∈ u.attached)
    (hclosed : Closed u barrier reached last.edges)
    (hends : entered = true → ∃ e ∈ ends, Live u barrier reached e) :
    (∀ id ∈ (Course.inTurn (course u barrier) statements entered).entered,
      reached (.statement id)) ∧
    ((Course.inTurn (course u barrier) statements entered).completes = true →
      ∃ e ∈ lastEnds, Live u barrier reached e) := by
  induction h generalizing entered with
  | nil => exact ⟨by simp, hends⟩
  | cons _ hrestAdds ihFirst ihRest =>
    obtain ⟨hfirst, hrest⟩ := List.forall_mem_cons.mp hattached
    obtain ⟨henters, hcompletes⟩ := ihFirst (List.forall_mem_singleton.mpr hfirst)
      (hclosed.mono hrestAdds.edges_subset) hends
    rw [Course.inTurn_singleton] at henters hcompletes
    obtain ⟨hentersRest, hcompletesRest⟩ := ihRest hrest hclosed hcompletes
    refine ⟨?_, hcompletesRest⟩
    intro id hid
    rcases List.mem_append.mp hid with hid | hid
    · exact henters id hid
    · exact hentersRest id hid
  | block hkind _ ih =>
    have hid := List.forall_mem_singleton.mp hattached
    rw [Course.inTurn_singleton, course_block hu hid entered hkind]
    exact ih (hu.attached_parts hid hkind) hclosed hends
  | ifElse hkind hthenAdds helseAdds ihThen ihElse =>
    have hid := List.forall_mem_singleton.mp hattached
    obtain ⟨hthen, helse⟩ := List.forall_mem_cons.mp (hu.attached_parts hid hkind)
    have hmiddle := hclosed.mono helseAdds.edges_subset
    have hself := (hmiddle.mono hthenAdds.edges_subset).reaches_added hends
    obtain ⟨hentersThen, hcompletesThen⟩ := ihThen (List.forall_mem_singleton.mpr hthen) hmiddle
      (exists_live_outcome hkind rfl hself true)
    obtain ⟨hentersElse, hcompletesElse⟩ := ihElse helse hclosed
      (exists_live_outcome hkind rfl hself false)
    rw [Course.inTurn_singleton] at hentersThen hcompletesThen ⊢
    rw [course_ifElse hu hid entered hkind]
    refine ⟨?_, ?_⟩
    · intro other hother
      rcases List.mem_append.mp hother with hother | hother
      · obtain ⟨hentered, rfl⟩ := mem_self_iff.mp hother
        exact hself hentered
      · rcases List.mem_append.mp hother with hother | hother
        · exact hentersThen other hother
        · exact hentersElse other hother
    · intro hcompletes
      rcases Bool.or_eq_true_iff.mp hcompletes with hcompletes | hcompletes
      · obtain ⟨e, he, hlive⟩ := hcompletesThen hcompletes
        exact ⟨e, List.mem_append_left _ he, hlive⟩
      · obtain ⟨e, he, hlive⟩ := hcompletesElse hcompletes
        exact ⟨e, List.mem_append_right _ he, hlive⟩
  | whileLoop hkind hbodyAdds ih =>
    have hid := List.forall_mem_singleton.mp hattached
    rw [edges_goBack] at hclosed
    have hmiddle := hclosed.mono (List.subset_append_left _ _)
    have hself := (hmiddle.mono hbodyAdds.edges_subset).reaches_added hends
    obtain ⟨hentersBody, -⟩ := ih (hu.attached_parts hid hkind) hmiddle
      (exists_live_outcome hkind rfl hself true)
    rw [Course.inTurn_singleton] at hentersBody ⊢
    rw [course_whileLoop hu hid entered hkind]
    refine ⟨?_, exists_live_outcome hkind rfl hself false⟩
    intro other hother
    rcases List.mem_append.mp hother with hother | hother
    · obtain ⟨hentered, rfl⟩ := mem_self_iff.mp hother
      exact hself hentered
    · exact hentersBody other hother
  | ret hkind =>
    have hid := List.forall_mem_singleton.mp hattached
    rw [edges_leave] at hclosed
    have hself := (hclosed.mono (List.subset_append_left _ _)).reaches_added hends
    rw [Course.inTurn_singleton, course_ret hu hid entered hkind]
    refine ⟨?_, by simp⟩
    intro other hother
    obtain ⟨hentered, rfl⟩ := mem_self_iff.mp hother
    exact hself hentered
  | plain hkind hplain =>
    have hid := List.forall_mem_singleton.mp hattached
    have hself := hclosed.reaches_added hends
    rw [Course.inTurn_singleton, course_plain hu hid entered hkind hplain]
    refine ⟨?_, fun hentered => ⟨_, List.mem_cons_self, live_sequence_iff.mpr (hself hentered)⟩⟩
    intro other hother
    obtain ⟨hentered, rfl⟩ := mem_self_iff.mp hother
    exact hself hentered

/-! ## All that is reached is entered -/

/-- Members that stand in disjoint lists are told apart. -/
theorem mem_append_left_iff {α : Type} {front back as bs : List α} (h : (front ++ back).Nodup)
    (hbs : bs ⊆ back) {x : α} (hx : x ∈ front) : x ∈ as ++ bs ↔ x ∈ as := by
  rw [List.mem_append, or_iff_left]
  exact fun hmem => List.disjoint_of_nodup_append h hx (hbs hmem)

theorem mem_append_right_iff {α : Type} {front back as bs : List α} (h : (front ++ back).Nodup)
    (has : as ⊆ front) {x : α} (hx : x ∈ back) : x ∈ as ++ bs ↔ x ∈ bs := by
  rw [List.mem_append, or_iff_right]
  exact fun hmem => List.disjoint_of_nodup_append h (has hmem) hx

/-- Where control gets among a statement and all below it. -/
theorem reached_self_and_below {reached : Point → Prop} {entered : Bool} {id : ElementId}
    {below inner : List ElementId} (hnodup : (id :: below).Nodup) (hinner : inner ⊆ below)
    (h : ∀ x ∈ id :: below, reached (.statement x) ↔
      x ∈ (if entered then [id] else []) ++ inner) :
    (reached (.statement id) ↔ entered = true) ∧
      ∀ x ∈ below, reached (.statement x) ↔ x ∈ inner := by
  have hself : (if entered then [id] else []) ⊆ [id] :=
    fun x hx => List.mem_singleton.mpr (mem_self_iff.mp hx).2
  rw [← List.singleton_append] at hnodup
  refine ⟨?_, ?_⟩
  · rw [h id List.mem_cons_self, mem_append_left_iff hnodup hinner List.mem_cons_self,
      mem_self_iff]
    exact and_iff_left rfl
  · intro x hx
    rw [h x (List.mem_cons_of_mem _ hx), mem_append_right_iff hnodup hself hx]

/-- Edges to a statement that was just added start where control gets only if it gets to the
    statement. -/
theorem Closed.addStatement {reached : Point → Prop} {flow : ControlFlow} {id : ElementId}
    {ends : OpenEnds} {entered : Bool} (h : Closed u barrier reached flow.edges)
    (hends : ∀ e ∈ ends, Live u barrier reached e → entered = true)
    (hself : reached (.statement id) ↔ entered = true) :
    Closed u barrier reached (flow.addStatement id ends).edges := by
  rw [edges_addStatement]
  exact h.append (closed_ends fun e he hlive => hself.mpr (hends e he hlive))

/-- If control gets, among some statements and all inside them, just to those that their
    course enters, then no edge that is added leads it elsewhere, and it goes on behind them
    only if the course completes. -/
theorem Adds.closed (hu : u.Accepted) {statements : List ElementId} {ends lastEnds : OpenEnds}
    {flow last : ControlFlow} (h : Adds u.tree statements ends flow last lastEnds)
    {reached : Point → Prop} (hexit : reached .exit) {entered : Bool}
    (hattached : ∀ id ∈ statements, id ∈ u.attached)
    (hnodup : (statements.flatMap u.tree.subtree).Nodup)
    (hreached : ∀ id ∈ statements.flatMap u.tree.subtree, reached (.statement id) ↔
      id ∈ (Course.inTurn (course u barrier) statements entered).entered)
    (hends : ∀ e ∈ ends, Live u barrier reached e → entered = true)
    (hclosed : Closed u barrier reached flow.edges) :
    Closed u barrier reached last.edges ∧ ∀ e ∈ lastEnds, Live u barrier reached e →
      (Course.inTurn (course u barrier) statements entered).completes = true := by
  induction h generalizing entered with
  | nil => exact ⟨hclosed, hends⟩
  | @cons first rest _ _ _ _ _ _ _ _ ihFirst ihRest =>
    obtain ⟨hfirst, hrest⟩ := List.forall_mem_cons.mp hattached
    rw [List.flatMap_cons] at hnodup hreached
    have hreachedFirst : ∀ id ∈ [first].flatMap u.tree.subtree, reached (.statement id) ↔
        id ∈ (Course.inTurn (course u barrier) [first] entered).entered := by
      intro id hid
      rw [List.flatMap_singleton] at hid
      rw [hreached id (List.mem_append_left _ hid), Course.inTurn_singleton]
      exact mem_append_left_iff hnodup (entered_subset_subtrees hu hrest _) hid
    obtain ⟨hmiddle, hcompletes⟩ := ihFirst (List.forall_mem_singleton.mpr hfirst)
      (by rw [List.flatMap_singleton]; exact (List.nodup_append.mp hnodup).1)
      hreachedFirst hends hclosed
    rw [Course.inTurn_singleton] at hcompletes
    refine ihRest hrest (List.nodup_append.mp hnodup).2.1 ?_ hcompletes hmiddle
    intro id hid
    rw [hreached id (List.mem_append_right _ hid)]
    exact mem_append_right_iff hnodup (fun x hx => mem_subtree_of_entered hu hfirst hx) hid
  | block hkind _ ih =>
    have hid := List.forall_mem_singleton.mp hattached
    rw [hu.linked.flatMap_subtree_singleton (hu.mem_attached_iff.mp hid) hkind] at hnodup hreached
    rw [Course.inTurn_singleton, course_block hu hid entered hkind] at hreached ⊢
    exact ih (hu.attached_parts hid hkind) (List.nodup_cons.mp hnodup).2
      (fun other hother => hreached other (List.mem_cons_of_mem _ hother)) hends hclosed
  | @ifElse id condition thenBranch elseBranch _ _ _ _ _ _ hkind _ _ ihThen ihElse =>
    have hid := List.forall_mem_singleton.mp hattached
    obtain ⟨hthen, helse⟩ := List.forall_mem_cons.mp (hu.attached_parts hid hkind)
    rw [hu.linked.flatMap_subtree_singleton (hu.mem_attached_iff.mp hid) hkind] at hnodup hreached
    rw [Course.inTurn_singleton, course_ifElse hu hid entered hkind] at hreached ⊢
    -- Below the statement stand its condition and its branches, apart from each other.
    rw [Kind.children, List.flatMap_cons, List.flatMap_cons] at hnodup hreached
    have hbranches : (u.tree.subtree thenBranch ++
        elseBranch.toList.flatMap u.tree.subtree).Nodup :=
      (List.nodup_append.mp (List.nodup_cons.mp hnodup).2).2.1
    have hinThen : ∀ entered, (course u barrier thenBranch entered).entered ⊆
        u.tree.subtree thenBranch := fun entered x hx => mem_subtree_of_entered hu hthen hx
    have hinElse : ∀ entered, (Course.inTurn (course u barrier) elseBranch.toList entered).entered ⊆
        elseBranch.toList.flatMap u.tree.subtree := entered_subset_subtrees hu helse
    have hinBranches := List.append_subset.mpr
      ⟨List.Subset.trans (hinThen (entered && !barrier ⟨id, condition⟩ true))
          (List.subset_append_left _ _),
        List.Subset.trans (hinElse (entered && !barrier ⟨id, condition⟩ false))
          (List.subset_append_right (u.tree.subtree thenBranch) _)⟩
    obtain ⟨hself, hbelow⟩ := reached_self_and_below hnodup
      (List.Subset.trans hinBranches (List.subset_append_right _ _)) hreached
    obtain ⟨hmiddle, hcompletesThen⟩ := ihThen (List.forall_mem_singleton.mpr hthen)
      (by rw [List.flatMap_singleton]; exact (List.nodup_append.mp hbranches).1)
      (by
        intro x hx
        rw [List.flatMap_singleton] at hx
        rw [hbelow x (List.mem_append_right _ (List.mem_append_left _ hx)),
          mem_append_left_iff hbranches (hinElse _) hx, Course.inTurn_singleton])
      (enters_of_live_outcome hkind rfl hself.mp true) (hclosed.addStatement hends hself)
    obtain ⟨hlast, hcompletesElse⟩ := ihElse helse (List.nodup_append.mp hbranches).2.1
      (by
        intro x hx
        rw [hbelow x (List.mem_append_right _ (List.mem_append_right _ hx)),
          mem_append_right_iff hbranches (hinThen _) hx])
      (enters_of_live_outcome hkind rfl hself.mp false) hmiddle
    rw [Course.inTurn_singleton] at hcompletesThen
    refine ⟨hlast, ?_⟩
    intro e he hlive
    rw [Bool.or_eq_true]
    rcases List.mem_append.mp he with he | he
    · exact Or.inl (hcompletesThen e he hlive)
    · exact Or.inr (hcompletesElse e he hlive)
  | @whileLoop id condition body _ bodyEnds _ middle hkind hbodyAdds ih =>
    have hid := List.forall_mem_singleton.mp hattached
    have hbody := hu.attached_parts hid hkind
    rw [hu.linked.flatMap_subtree_singleton (hu.mem_attached_iff.mp hid) hkind] at hnodup hreached
    rw [Course.inTurn_singleton, course_whileLoop hu hid entered hkind] at hreached ⊢
    rw [Kind.children, List.flatMap_cons] at hnodup hreached
    have hinBody : ∀ entered, (course u barrier body entered).entered ⊆
        [body].flatMap u.tree.subtree := by
      intro entered x hx
      rw [List.flatMap_singleton]
      exact mem_subtree_of_entered hu (List.forall_mem_singleton.mp hbody) hx
    obtain ⟨hself, hbelow⟩ := reached_self_and_below hnodup
      (List.Subset.trans (hinBody _) (List.subset_append_right _ _)) hreached
    have hreachedBody : ∀ x ∈ [body].flatMap u.tree.subtree, reached (.statement x) ↔
        x ∈ (course u barrier body (entered && !barrier ⟨id, condition⟩ true)).entered :=
      fun x hx => hbelow x (List.mem_append_right _ hx)
    obtain ⟨hmiddle, -⟩ := ih hbody
      (List.nodup_append.mp (List.nodup_cons.mp hnodup).2).2.1
      (by rw [Course.inTurn_singleton]; exact hreachedBody)
      (enters_of_live_outcome hkind rfl hself.mp true) (hclosed.addStatement hends hself)
    rw [edges_goBack]
    refine ⟨hmiddle.append ?_, enters_of_live_outcome hkind rfl hself.mp false⟩
    -- Control comes back from the inside of the loop only if it had entered the loop.
    intro edge hedge hsource _
    obtain ⟨e, he, rfl⟩ := List.mem_map.mp hedge
    rcases hbodyAdds.mem_lastEnds he with he | ⟨part, hpart, hwithin⟩
    · obtain rfl := List.mem_singleton.mp he
      exact hsource
    · have hsubtree := hu.mem_subtrees_of_withinAny hbody hwithin
      rw [hpart, hreachedBody part hsubtree] at hsource
      refine hself.mpr ?_
      by_contra hnot
      rw [Bool.not_eq_true] at hnot
      rw [hnot, Bool.false_and, course_false] at hsource
      cases hsource
  | ret hkind =>
    have hid := List.forall_mem_singleton.mp hattached
    rw [hu.linked.flatMap_subtree_singleton (hu.mem_attached_iff.mp hid) hkind] at hnodup hreached
    rw [Course.inTurn_singleton, course_ret hu hid entered hkind] at hreached
    obtain ⟨hself, -⟩ := reached_self_and_below hnodup (List.nil_subset _)
      (by simpa using hreached)
    rw [edges_leave]
    refine ⟨(hclosed.addStatement hends hself).append ?_, by simp⟩
    intro edge hedge _ _
    obtain rfl := List.mem_singleton.mp hedge
    exact hexit
  | plain hkind hplain =>
    have hid := List.forall_mem_singleton.mp hattached
    rw [hu.linked.flatMap_subtree_singleton (hu.mem_attached_iff.mp hid) hkind] at hnodup hreached
    rw [Course.inTurn_singleton, course_plain hu hid entered hkind hplain] at hreached ⊢
    obtain ⟨hself, -⟩ := reached_self_and_below hnodup (List.nil_subset _)
      (by simpa using hreached)
    refine ⟨hclosed.addStatement hends hself, ?_⟩
    intro e he hlive
    obtain rfl := List.mem_singleton.mp he
    exact hself.mp (live_sequence_iff.mp hlive)

/-! ## What control reaches in a method -/

theorem mem_next_iff {flow : ControlFlow} {a b : Point} :
    b ∈ flow.next u barrier a ↔ ∃ edge ∈ flow.edges,
      edge.source = a ∧ isCut u barrier edge = false ∧ edge.target = b := by
  rw [next, List.mem_map]
  refine exists_congr fun edge => ?_
  rw [List.mem_filter, Bool.and_eq_true, beq_iff_eq, Bool.not_eq_true']
  tauto

/-- The search goes through all points that control can reach. -/
theorem mem_reachablePoints_iff {flow : ControlFlow} (h : Orderly flow) {point : Point} :
    point ∈ flow.reachablePoints u barrier ↔
      Search.Reach (flow.next u barrier) .entry point := by
  have hspace : ∀ a ∈ Point.entry :: .exit :: flow.statements.map .statement,
      ∀ b ∈ flow.next u barrier a, b ∈ Point.entry :: .exit :: flow.statements.map .statement := by
    intro a _ b hb
    obtain ⟨edge, hedge, -, -, rfl⟩ := mem_next_iff.mp hb
    exact List.mem_cons_of_mem _ (h.target edge hedge)
  rw [reachablePoints, Search.mem_closure_iff (by simp) hspace (by simp)]
  simp

theorem mem_reachableStatements_iff {flow : ControlFlow} (h : Orderly flow) {id : ElementId} :
    id ∈ flow.reachableStatements u barrier ↔
      Search.Reach (flow.next u barrier) .entry (.statement id) := by
  rw [reachableStatements, Sorted.mem_ofList, List.mem_filterMap, ← mem_reachablePoints_iff h]
  constructor
  · rintro ⟨point, hpoint, heq⟩
    cases point with
    | statement other =>
      cases heq
      exact hpoint
    | entry => cases heq
    | exit => cases heq
  · intro hpoint
    exact ⟨_, hpoint, rfl⟩

theorem closed_reach (flow : ControlFlow) :
    Closed u barrier (Search.Reach (flow.next u barrier) .entry) flow.edges :=
  fun edge hedge hsource hcut => hsource.tail (mem_next_iff.mpr ⟨edge, hedge, rfl, hcut, rfl⟩)

/-- A set of points that no edge leads out of has all that is reached from its members. -/
theorem Closed.of_reach {reached : Point → Prop} {flow : ControlFlow}
    (h : Closed u barrier reached flow.edges) {a b : Point}
    (hreach : Search.Reach (flow.next u barrier) a b) (ha : reached a) : reached b := by
  refine hreach.mem_of_closed ?_ ha
  intro c hc d hd
  obtain ⟨edge, hedge, rfl, hcut, rfl⟩ := mem_next_iff.mp hd
  exact h edge hedge hc hcut

end Reach

/-- The statements that control enters in a method, as the structure of its body says. -/
def enteredStatements (u : CompilationUnit) (barrier : Guard → Bool → Bool) (method : ElementId) :
    List ElementId :=
  match u.kind? method with
  | some (.method _ _ (some body)) => (course u barrier body true).entered
  | _ => []

/-- The entry, the exit and some statements. -/
def pointsWith (statements : List ElementId) : Point → Prop
  | .statement id => id ∈ statements
  | _ => True

section Method

variable {u : CompilationUnit} {barrier : Guard → Bool → Bool} {method : ElementId}
  {flow : ControlFlow}

theorem enteredStatements_eq {signature : Signature} {parameters : List ElementId}
    {body : Option ElementId} (hkind : u.kind? method = some (.method signature parameters body)) :
    enteredStatements u barrier method =
      (Course.inTurn (course u barrier) body.toList true).entered := by
  rw [enteredStatements, hkind]
  cases body with
  | none => rfl
  | some body => simp

/-- Control reaches the statements that it enters. -/
theorem reach_iff_entered (hu : u.Accepted) (hmethod : method ∈ u.attached)
    (hbuild : build u method = .ok flow) {id : ElementId} :
    Search.Reach (flow.next u barrier) .entry (.statement id) ↔
      id ∈ enteredStatements u barrier method := by
  obtain ⟨signature, parameters, body, inner, ends, hkind, hadds, rfl⟩ := build_eq_ok hbuild
  have hattached : ∀ id ∈ body.toList, id ∈ u.attached := by
    intro child hchild
    refine (hu.attached_child_iff ?_).mpr hmethod
    rw [Tree.children_eq hkind]
    exact List.mem_append_right _ hchild
  have hsub : inner.edges ⊆ (inner.connect ends .exit).edges := by simp
  rw [enteredStatements_eq hkind]
  constructor
  · -- No edge leads out of the statements that are entered.
    have hexit : pointsWith (Course.inTurn (course u barrier) body.toList true).entered .exit :=
      trivial
    have hnodup : (body.toList.flatMap u.tree.subtree).Nodup := by
      cases body with
      | none => exact List.nodup_nil
      | some body =>
        obtain ⟨depth, hbelow⟩ := hu.mem_attached_iff.mp (hattached body (by simp))
        simpa using hu.linked.nodup_subtree hbelow
    obtain ⟨hinner, -⟩ := hadds.closed hu hexit hattached hnodup (fun _ _ => Iff.rfl)
      (fun _ _ _ => rfl) (fun _ hedge => nomatch hedge)
    have hclosed := hinner.append (closed_ends fun e (_ : e ∈ ends) _ => hexit)
    rw [← edges_connect] at hclosed
    intro hreach
    exact hclosed.of_reach hreach trivial
  · -- Control gets from the entry to the body.
    intro hid
    have hentry : true = true → ∃ e ∈ [(Point.entry, Branch.sequence)], Live u barrier
        (Search.Reach ((inner.connect ends .exit).next u barrier) .entry) e :=
      fun _ => ⟨_, List.mem_cons_self, live_sequence_iff.mpr .refl⟩
    exact (hadds.enters hu hattached ((closed_reach _).mono hsub) hentry).1 id hid

/-- Control flow has the meaning of the structure of the body. The course of control through a
    statement follows from the courses of its parts, and in the control flow of a method
    just the statements that the course through its body enters can be reached, whatever
    outcomes of conditions are refused. -/
theorem reachableStatements_eq_entered (hu : u.Accepted) (hmethod : method ∈ u.attached)
    (hbuild : build u method = .ok flow) (barrier : Guard → Bool → Bool) :
    (∀ id ∈ u.attached, ∀ entered, course u barrier id entered =
      Course.ofParts u barrier (course u barrier) id entered) ∧
    flow.reachableStatements u barrier = Sorted.ofList (enteredStatements u barrier method) := by
  refine ⟨fun id hid entered => course_eq hu hid entered, ?_⟩
  refine (Sorted.increasing_ofList _).eq_of_mem_iff (Sorted.increasing_ofList _) fun id => ?_
  calc id ∈ flow.reachableStatements u barrier
      ↔ Search.Reach (flow.next u barrier) .entry (.statement id) :=
        mem_reachableStatements_iff (orderly_of_build hbuild)
    _ ↔ id ∈ enteredStatements u barrier method := reach_iff_entered hu hmethod hbuild
    _ ↔ id ∈ Sorted.ofList (enteredStatements u barrier method) := Sorted.mem_ofList.symm

/-- Refuses that a condition is true. -/
def refusesTrue (statement : ElementId) (guard : Guard) (value : Bool) : Bool :=
  guard.statement == statement && value

/-- If the condition in the loop must not hold, control is never behind it: only the return and
    what stands behind the loop are left. -/
theorem reachableStatements_eq_entered_loopUnit :
    loopUnit.Accepted ∧ ⟨2⟩ ∈ loopUnit.attached ∧ build loopUnit ⟨2⟩ = .ok loopFlow ∧
      enteredStatements loopUnit (refusesTrue ⟨11⟩) ⟨2⟩ = [⟨5⟩, ⟨8⟩, ⟨11⟩, ⟨17⟩, ⟨22⟩] ∧
      loopFlow.reachableStatements loopUnit (refusesTrue ⟨11⟩) =
        [⟨5⟩, ⟨8⟩, ⟨11⟩, ⟨17⟩, ⟨22⟩] := by
  have hmethod : ⟨2⟩ ∈ loopUnit.attached := by decide +kernel
  have hentered : enteredStatements loopUnit (refusesTrue ⟨11⟩) ⟨2⟩ =
      [⟨5⟩, ⟨8⟩, ⟨11⟩, ⟨17⟩, ⟨22⟩] := by decide +kernel
  obtain ⟨-, heq⟩ := reachableStatements_eq_entered loopUnit_accepted hmethod build_loopUnit
    (refusesTrue ⟨11⟩)
  refine ⟨loopUnit_accepted, hmethod, build_loopUnit, hentered, ?_⟩
  rw [heq, hentered]
  decide +kernel

end Method

end ControlFlow
end ValueFlow
