/-
  ValueFlow.Proofs.MarkedSource

  Marks in source code stand in front of the elements and change nothing else.

  Whatever an element is, its writing consists of texts and of the writings of its
  children, each of them once and in source order (`arranges_parts`). This is said once for
  all kinds, and for every way of writing the children. From it follow the order of the
  places for marks, that every element is written in one piece behind its place, and that
  the bound on the depth cuts nothing off.
-/

import ValueFlow.Flow.Marks
import ValueFlow.Proofs.FlowConstruction
import ValueFlow.Proofs.SourceOrder
import Mathlib.Data.List.Infix

namespace ValueFlow
namespace Source

/-! ## Places and texts -/

/-- The elements that have a place for a mark, as the places come. -/
def places : List SourcePiece → List ElementId
  | [] => []
  | .text _ :: rest => places rest
  | .mark id :: rest => id :: places rest

/-- The text in front of the first place for a mark, and the texts behind each place. -/
def texts : List SourcePiece → String × List String
  | [] => ("", [])
  | .text content :: rest => (content ++ (texts rest).1, (texts rest).2)
  | .mark _ :: rest => ("", (texts rest).1 :: (texts rest).2)

theorem places_append (front back : List SourcePiece) :
    places (front ++ back) = places front ++ places back := by
  induction front with
  | nil => rfl
  | cons piece front ih =>
    cases piece with
    | text content => exact ih
    | mark id => exact congrArg (id :: ·) ih

theorem length_texts (pieces : List SourcePiece) :
    (texts pieces).2.length = (places pieces).length := by
  induction pieces with
  | nil => rfl
  | cons piece pieces ih =>
    cases piece with
    | text content => exact ih
    | mark id => exact congrArg Nat.succ ih

/-- Joined pieces are texts and marks by turns. -/
theorem join_eq (mark : ElementId → Option String) (pieces : List SourcePiece) :
    join mark pieces = (texts pieces).1 ++ String.join
      (List.zipWith (fun id text => (mark id).getD "" ++ text) (places pieces)
        (texts pieces).2) := by
  rw [join]
  induction pieces with
  | nil => rfl
  | cons piece pieces ih =>
    rw [List.map_cons, String.join_cons, ih]
    cases piece with
    | text content => rw [texts, places, String.append_assoc]
    | mark id =>
      rw [texts, places, List.zipWith_cons_cons, String.join_cons, String.empty_append,
        String.append_assoc]

/-- Without marks, the texts stand next to each other. -/
theorem join_none (pieces : List SourcePiece) :
    join (fun _ => none) pieces = (texts pieces).1 ++ String.join (texts pieces).2 := by
  have hlength : (texts pieces).2.length ≤ (places pieces).length := (length_texts pieces).le
  have htexts : (List.zip (places pieces) (texts pieces).2).map Prod.snd = (texts pieces).2 :=
    List.map_snd_zip hlength
  rw [join_eq, ← List.map_uncurry_zip_eq_zipWith]
  simp only [Option.getD_none, String.empty_append]
  exact congrArg (fun behind => (texts pieces).1 ++ String.join behind) htexts

/-! ## Arrangements -/

/-- How an element is written at a nesting level. -/
abbrev Writing := Nat → ElementId → List SourcePiece

/-- A part of the writing of an element: text, or an element inside it at a nesting level. -/
inductive Part where
  | text (content : String)
  | inner (level : Nat) (id : ElementId)

/-- The element that a part is. -/
def Part.element? : Part → Option ElementId
  | .text _ => none
  | .inner _ id => some id

/-- The pieces of a part, if its elements are written in this way. -/
def Part.pieces (write : Writing) : Part → List SourcePiece
  | .text content => [.text content]
  | .inner level id => write level id

/-- Whatever the way of writing elements is, the whole consists of texts and of these elements
    in this order. -/
def Arranges (whole : Writing → List SourcePiece) (elements : List ElementId) : Prop :=
  ∃ layout : List Part, layout.filterMap Part.element? = elements ∧
    ∀ write, whole write = layout.flatMap (Part.pieces write)

namespace Arranges

variable {whole front back : Writing → List SourcePiece} {elements others : List ElementId}

theorem nil : Arranges (fun _ => []) [] := ⟨[], rfl, fun _ => rfl⟩

theorem inner (level : Nat) (id : ElementId) : Arranges (fun write => write level id) [id] :=
  ⟨[.inner level id], rfl, fun write => by rw [List.flatMap_singleton, Part.pieces]⟩

theorem append (hfront : Arranges front elements) (hback : Arranges back others) :
    Arranges (fun write => front write ++ back write) (elements ++ others) := by
  obtain ⟨layout, rfl, hlayout⟩ := hfront
  obtain ⟨other, rfl, hother⟩ := hback
  refine ⟨layout ++ other, List.filterMap_append, fun write => ?_⟩
  simp only [hlayout, hother, List.flatMap_append]

/-- Text in front of the whole. -/
theorem text (content : String) (h : Arranges whole elements) :
    Arranges (fun write => .text content :: whole write) elements := by
  obtain ⟨layout, rfl, hlayout⟩ := h
  refine ⟨.text content :: layout, rfl, fun write => ?_⟩
  simp only [hlayout, List.flatMap_cons, Part.pieces, List.singleton_append]

/-- Behind the whole there may be something without elements. -/
theorem closed (h : Arranges whole elements) (hback : Arranges back []) :
    Arranges (fun write => whole write ++ back write) elements := by
  have hboth := h.append hback
  rwa [List.append_nil] at hboth

/-- Elements that are written one after the other. -/
theorem flatMap {each : ElementId → Writing → List SourcePiece} (ids : List ElementId)
    (h : ∀ id, Arranges (each id) [id]) :
    Arranges (fun write => ids.flatMap fun id => each id write) ids := by
  induction ids with
  | nil => exact nil
  | cons id ids ih => exact (h id).append ih

/-- Elements with commas between them. -/
theorem commas (level : Nat) (ids : List ElementId) :
    Arranges (fun write => commas (ids.map (write level))) ids := by
  induction ids with
  | nil => exact nil
  | cons id ids ih =>
    cases ids with
    | nil => simpa only [Source.commas, List.map_cons, List.map_nil, List.intercalate_singleton]
        using inner level id
    | cons next ids =>
      simp only [Source.commas, List.map_cons, List.intercalate_cons_cons] at ih ⊢
      exact ((inner level id).closed (text ", " nil)).append ih

theorem body (u : CompilationUnit) (level : Nat) (id : ElementId) :
    Arranges (fun write => Source.body u write level id) [id] := by
  simp only [Source.body]
  split
  · exact text " " (inner level id)
  · exact text _ (inner (level + 1) id)

end Arranges

/-- The parts of an element are texts and its children in source order. -/
theorem arranges_parts (u : CompilationUnit) (level : Nat) (kind : Kind) :
    Arranges (fun write => parts u write level kind) kind.children := by
  -- A list of elements, each on a line of its own.
  have hlines (ids : List ElementId) : Arranges (fun write => ids.flatMap fun id =>
      newline (level + 1) :: write (level + 1) id) ids :=
    .flatMap ids fun id => .text _ (.inner (level + 1) id)
  have hbrace : Arranges (fun _ => [newline level, .text "\x7d"]) [] := .text _ (.text _ .nil)
  -- Where a part may be missing, what comes before it is arranged first.
  cases kind with
  | compilationUnit package classes =>
    have hclasses : Arranges (fun write => classes.flatMap fun id =>
        newline level :: write level id ++ [newline level]) classes :=
      .flatMap classes fun id => (Arranges.text _ (.inner level id)).closed (.text _ .nil)
    simp only [parts, Kind.children]
    split
    · exact hclasses
    · exact .text _ (.text _ hclasses)
  | classDecl fqn members => exact (Arranges.text _ (hlines members)).closed hbrace
  | method signature parameters bodyId =>
    have hheader := Arranges.text (methodHeader signature) (.commas level parameters)
    cases bodyId with
    | none => exact hheader.append (.text ")" (.text ";" .nil))
    | some id => exact hheader.append (.text ")" (.body u level id))
  | parameter name type => exact .text _ .nil
  | block statements => exact (Arranges.text _ (hlines statements)).closed hbrace
  | localVar type name initializer =>
    have hname := Arranges.text (type.text ++ " ") (.inner level name)
    cases initializer with
    | none => exact (hname.closed .nil).closed (.text ";" .nil)
    | some id => exact (hname.append (.text " = " (.inner level id))).closed (.text ";" .nil)
  | ret expression =>
    cases expression with
    | none => exact (Arranges.text "return" .nil).closed (.text ";" .nil)
    | some id =>
      exact (Arranges.text "return" (.text " " (.inner level id))).closed (.text ";" .nil)
  | exprStmt expression => exact (Arranges.inner level expression).closed (.text ";" .nil)
  | ifElse condition thenBranch elseBranch =>
    have hthen := (Arranges.text "if (" (.inner level condition)).append
      (.text ")" (.body u level thenBranch))
    cases elseBranch with
    | none => exact hthen.closed .nil
    | some id => exact hthen.append (.text _ (.text "else" (.body u level id)))
  | whileLoop condition bodyId =>
    exact (Arranges.text "while (" (.inner level condition)).append
      (.text ")" (.body u level bodyId))
  | literal value type => exact .text _ .nil
  | identifier name target type => exact .text _ .nil
  | call select name signature arguments =>
    have hrest : Arranges (fun write => .text (name ++ "(") ::
        commas (arguments.map (write level))) arguments := .text _ (.commas level arguments)
    cases select with
    | none => exact (Arranges.nil.append hrest).closed (.text ")" .nil)
    | some id =>
      exact (((Arranges.inner level id).closed (.text "." .nil)).append hrest).closed
        (.text ")" .nil)
  | construct type signature arguments =>
    exact (Arranges.text _ (.commas level arguments)).closed (.text ")" .nil)
  | binary operator left right type =>
    exact (Arranges.inner level left).append (.text _ (.inner level right))
  | assign target value =>
    exact (Arranges.inner level target).append (.text " = " (.inner level value))
  | parens expression =>
    exact (Arranges.text "(" (.inner level expression)).closed (.text ")" .nil)
  | cast type expression => exact .text _ (.inner level expression)
  | ternary condition whenTrue whenFalse type =>
    exact ((Arranges.inner level condition).append (.text " ? " (.inner level whenTrue))).append
      (.text " : " (.inner level whenFalse))

/-! ## What arrangements keep -/

section Arranged

variable {whole : Writing → List SourcePiece} {elements : List ElementId} {write other : Writing}

theorem Part.mem_elements {layout : List Part} {level : Nat} {id : ElementId}
    (h : Part.inner level id ∈ layout) : id ∈ layout.filterMap Part.element? :=
  List.mem_filterMap.mpr ⟨_, h, rfl⟩

/-- What is written depends on the writing of the arranged elements only. -/
theorem Arranges.congr (h : Arranges whole elements)
    (hwrite : ∀ id ∈ elements, ∀ level, write level id = other level id) :
    whole write = whole other := by
  obtain ⟨layout, rfl, hlayout⟩ := h
  rw [hlayout, hlayout]
  refine List.flatMap_congr fun part hpart => ?_
  cases part with
  | text content => rfl
  | inner level id => exact hwrite id (Part.mem_elements hpart) level

/-- The places for marks are those inside the arranged elements. -/
theorem Arranges.places (h : Arranges whole elements) {below : ElementId → List ElementId}
    (hbelow : ∀ id ∈ elements, ∀ level, places (write level id) = below id) :
    places (whole write) = elements.flatMap below := by
  obtain ⟨layout, rfl, hlayout⟩ := h
  rw [hlayout]
  -- The rest of a layout is one too, but no longer that of the whole.
  clear hlayout
  induction layout with
  | nil => rfl
  | cons part layout ih =>
    rw [List.flatMap_cons, places_append]
    cases part with
    | text content => exact ih hbelow
    | inner level id =>
      obtain ⟨hid, hrest⟩ := List.forall_mem_cons.mp hbelow
      rw [Part.pieces, hid level, ih hrest]
      rfl

/-- Every arranged element is written in one piece. -/
theorem Arranges.exists_infix_of_mem (h : Arranges whole elements) {id : ElementId}
    (hid : id ∈ elements) : ∃ level, write level id <:+: whole write := by
  obtain ⟨layout, rfl, hlayout⟩ := h
  obtain ⟨part, hpart, helement⟩ := List.mem_filterMap.mp hid
  cases part with
  | text content => cases helement
  | inner level inside =>
    cases helement
    obtain ⟨before, after, rfl⟩ := List.append_of_mem hpart
    refine ⟨level, before.flatMap (Part.pieces write), after.flatMap (Part.pieces write), ?_⟩
    rw [hlayout, List.flatMap_append, List.flatMap_cons, List.append_assoc]
    rfl

end Arranged

/-! ## Attached elements -/

/-- How the elements of a unit are written. -/
def writing (u : CompilationUnit) : Writing := piecesUpTo u u.size

/-- Levels below the deepest element add nothing. -/
theorem piecesUpTo_of_le {u : CompilationUnit} {id : ElementId} {bound other : Nat}
    (hdeep : ∀ depth x, u.tree.Below id depth x → depth < bound) (hle : bound ≤ other)
    (level : Nat) : piecesUpTo u other level id = piecesUpTo u bound level id := by
  induction bound generalizing id other level with
  | zero => exact absurd (hdeep 0 id .self) (Nat.not_lt_zero 0)
  | succ bound ih =>
    obtain ⟨other, rfl⟩ : ∃ less, other = less + 1 := ⟨other - 1, by omega⟩
    rw [piecesUpTo, piecesUpTo]
    cases hkind : u.kind? id with
    | none => rfl
    | some kind =>
      refine congrArg (SourcePiece.mark id :: ·) ((arranges_parts u level kind).congr ?_)
      intro child hchild level
      refine ih (fun depth x hbelow => ?_) (by omega) level
      have hlt := hdeep (depth + 1) x (.head (Tree.children_eq hkind ▸ hchild) hbelow)
      omega

section Attached

variable {u : CompilationUnit} (hu : u.Accepted) {id : ElementId} {depth : Nat}
  (h : u.tree.Below u.tree.root depth id)
include hu h

/-- An attached element is written as a place for its mark and its parts, whatever their
    depth. -/
theorem exists_writing_eq : ∃ kind, u.tree.children id = kind.children ∧
    ∀ level, writing u level id = .mark id :: parts u (writing u) level kind := by
  obtain ⟨kind, hkind⟩ := hu.linked.exists_kind h
  have hdeep : ∀ level x, u.tree.Below id level x → level < u.size := by
    intro level x hx
    exact Nat.lt_of_le_of_lt (Nat.le_add_left _ _) (hu.linked.depth_lt (h.trans hx))
  refine ⟨kind, Tree.children_eq hkind, fun level => ?_⟩
  -- One level more gives the children the bound of the element itself.
  calc writing u level id
      = piecesUpTo u (u.size + 1) level id :=
        (piecesUpTo_of_le hdeep (Nat.le_succ u.size) level).symm
    _ = .mark id :: parts u (writing u) level kind := by
        rw [piecesUpTo, CompilationUnit.kind?, hkind]
        rfl

/-- The places for marks in an attached element are those of the elements below it in source
    order. -/
theorem places_writing (level : Nat) :
    places (writing u level id) = u.tree.subtree id := by
  refine hu.linked.induction_below
    (P := fun id => ∀ level, places (writing u level id) = u.tree.subtree id)
    (fun id depth h ih level => ?_) h level
  obtain ⟨kind, hchildren, hwriting⟩ := exists_writing_eq hu h
  rw [hchildren] at ih
  rw [hwriting, places, (arranges_parts u level kind).places ih, hu.linked.subtree_eq h,
    hchildren]

/-- An attached element is written in one piece of the whole unit. -/
theorem exists_infix_pieces : ∃ level, writing u level id <:+: pieces u u.tree.root := by
  induction h with
  | self => exact ⟨0, List.infix_rfl⟩
  | @child depth parent id hparent hmem ih =>
    obtain ⟨level, hinfix⟩ := ih
    obtain ⟨kind, hchildren, hwriting⟩ := exists_writing_eq hu hparent
    rw [hchildren] at hmem
    obtain ⟨inside, hinside⟩ := (arranges_parts u level kind).exists_infix_of_mem hmem
    rw [hwriting] at hinfix
    exact ⟨inside, (hinside.trans (List.suffix_cons _ _).isInfix).trans hinfix⟩

end Attached

end Source

/-! ## Marks of flows -/

namespace FlowMarks

/-- The texts of marks. -/
def markers : List String :=
  [participantMarker, sourceMarker, sinkMarker, sourceSinkMarker]

/-- Whether a node is to be marked: participants are, and with labels sources and sinks too. -/
def Shows (marks : FlowMarks) (style : MarkStyle) (node : Node) : Prop :=
  marks.isParticipant node = true ∨
    style = .labelled ∧ (marks.isSource node = true ∨ marks.isSink node = true)

/-- A node has one mark if it is to be marked, and none otherwise. -/
theorem mark?_cases (marks : FlowMarks) (style : MarkStyle) (node : Node) :
    (marks.Shows style node ∧ ∃ marker ∈ markers, marks.mark? style node = some marker) ∨
      (¬ marks.Shows style node ∧ marks.mark? style node = none) := by
  cases style with
  | plain => cases hpart : marks.isParticipant node <;> simp [Shows, mark?, markers, hpart]
  | labelled =>
    cases hsource : marks.isSource node <;> cases hsink : marks.isSink node <;>
      cases hpart : marks.isParticipant node <;>
      simp [Shows, mark?, markers, hsource, hsink, hpart]

/-- The text in front of an element. -/
def markerAt (marks : FlowMarks) (u : CompilationUnit) (style : MarkStyle) (id : ElementId) :
    String :=
  ((Node.ofElement? u id).bind (marks.mark? style)).getD ""

/-- The element is a node that is to be marked. -/
def ShowsAt (marks : FlowMarks) (u : CompilationUnit) (style : MarkStyle) (id : ElementId) :
    Prop :=
  ∃ node, Node.ofElement? u id = some node ∧ marks.Shows style node

theorem markerAt_cases (marks : FlowMarks) (u : CompilationUnit) (style : MarkStyle)
    (id : ElementId) :
    (marks.ShowsAt u style id → marks.markerAt u style id ∈ markers) ∧
      (¬ marks.ShowsAt u style id → marks.markerAt u style id = "") := by
  rw [markerAt]
  cases hnode : Node.ofElement? u id with
  | none =>
    refine ⟨fun ⟨node, hsome, _⟩ => ?_, fun _ => rfl⟩
    rw [hnode] at hsome
    cases hsome
  | some node =>
    rcases marks.mark?_cases style node with ⟨hshows, marker, hmarker, hmark⟩ | ⟨hnot, hmark⟩
    · rw [Option.bind_some, hmark]
      exact ⟨fun _ => hmarker, fun hnot => absurd ⟨node, hnode, hshows⟩ hnot⟩
    · rw [Option.bind_some, hmark]
      refine ⟨fun ⟨other, hother, hshows⟩ => ?_, fun _ => rfl⟩
      obtain rfl := Option.some.inj (hnode.symm.trans hother)
      exact absurd hshows hnot

end FlowMarks

/-! ## The whole unit -/

namespace Source

/-- Marks are put between texts that do not depend on them, one place for each attached element
    in source order, and each place is right in front of the writing of its element. For a
    flow there is one mark at each element that is a node to be marked, and none elsewhere. -/
theorem render_inserts_marks (u : CompilationUnit) (hu : u.Accepted) :
    (∃ (front : String) (behind : List String),
      behind.length = (u.tree.preorder u.tree.root).length ∧
      (∀ mark : ElementId → Option String, render u mark = front ++ String.join
        (List.zipWith (fun id text => (mark id).getD "" ++ text)
          (u.tree.preorder u.tree.root) behind)) ∧
      plain u = front ++ String.join behind ∧
      ∀ (marks : FlowMarks) (style : MarkStyle), ∃ marker : ElementId → String,
        marks.render u style = front ++ String.join
          (List.zipWith (fun id text => marker id ++ text)
            (u.tree.preorder u.tree.root) behind) ∧
        ∀ id, (marks.ShowsAt u style id → marker id ∈ FlowMarks.markers) ∧
          (¬ marks.ShowsAt u style id → marker id = "")) ∧
    places (pieces u u.tree.root) = u.tree.preorder u.tree.root ∧
    (u.tree.preorder u.tree.root).Nodup ∧
    ∀ id ∈ u.tree.preorder u.tree.root, ∃ level,
      piecesUpTo u u.size level id <:+: pieces u u.tree.root := by
  have hplaces : places (pieces u u.tree.root) = u.tree.preorder u.tree.root :=
    (places_writing hu .self 0).trans hu.attached_eq.symm
  have hrender : ∀ mark, render u mark = _ := fun mark => join_eq mark (pieces u u.tree.root)
  rw [hplaces] at hrender
  refine ⟨⟨_, _, ?_, hrender, join_none _, fun marks style =>
    ⟨marks.markerAt u style, hrender _, marks.markerAt_cases u style⟩⟩, hplaces,
    hu.nodup_attached, fun id hid => ?_⟩
  · rw [length_texts, hplaces]
  · obtain ⟨depth, hbelow⟩ := hu.mem_attached_iff.mp hid
    exact exists_infix_pieces hu hbelow

/-- The flow that takes part in one read only, that in the branch of the loop. -/
def branchMarks : FlowMarks where
  isSource _ := false
  isSink _ := false
  isParticipant node := node == .expression ⟨16⟩

/-- The loop has a place in front of each of its 25 elements, as they are numbered. The read in
    the branch is marked, and the same read behind the loop is not. -/
theorem render_inserts_marks_loopUnit :
    loopUnit.Accepted ∧ places (pieces loopUnit loopUnit.tree.root) = loopUnit.tree.ids ∧
      ∃ (front : String) (behind : List String), behind.length = 25 ∧
        plain loopUnit = front ++ String.join behind ∧
        ∃ marker : ElementId → String, branchMarks.render loopUnit .labelled =
            front ++ String.join (List.zipWith (fun id text => marker id ++ text)
              loopUnit.tree.ids behind) ∧
          marker ⟨16⟩ ∈ FlowMarks.markers ∧ marker ⟨24⟩ = "" := by
  have hids : loopUnit.tree.preorder loopUnit.tree.root = loopUnit.tree.ids := by decide +kernel
  obtain ⟨⟨front, behind, hlength, -, hplain, hflow⟩, hplaces, -⟩ :=
    render_inserts_marks loopUnit loopUnit_accepted
  obtain ⟨marker, hrender, hmarker⟩ := hflow branchMarks .labelled
  rw [hids] at hlength hplaces hrender
  refine ⟨loopUnit_accepted, hplaces, front, behind, hlength.trans (by decide +kernel), hplain,
    marker, hrender, (hmarker ⟨16⟩).1 ⟨.expression ⟨16⟩, by decide +kernel, Or.inl rfl⟩,
    (hmarker ⟨24⟩).2 ?_⟩
  rintro ⟨node, hnode, hshows⟩
  have hread : Node.ofElement? loopUnit ⟨24⟩ = some (.expression ⟨24⟩) := by decide +kernel
  obtain rfl := Option.some.inj (hread.symm.trans hnode)
  rcases hshows with hpart | ⟨-, hsource | hsink⟩
  · exact absurd hpart (by decide)
  · cases hsource
  · cases hsink

end Source
end ValueFlow
