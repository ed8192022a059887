/-
  ValueFlow.Proofs.TreeJson

  Trees are read back from JSON as they were written.

  Reading undoes writing for each part of a tree: types, signatures, literals, elements of
  every kind. A saved unit is read back as the same unit, whatever is written in place of
  the parents of its elements, because checking a tree computes them anew.
-/

import ValueFlow.Loading
import ValueFlow.Proofs.JsonText
import ValueFlow.Proofs.Tree

namespace ValueFlow

/-! ## Lists and options -/

namespace Json

variable {α : Type} {encode : α → Json} {decode : Json → Option α}

theorem list?_ofList (h : ∀ a, decode (encode a) = some a) (items : List α) :
    list? decode (ofList encode items) = some items := by
  rw [ofList, list?]
  induction items with
  | nil => rfl
  | cons item items ih => simp [List.mapM_cons, h, ih]

theorem list?_mapIdx {β γ : Type} {write : Nat → β → Json} {read : Json → Option γ}
    {result : Nat → β → γ} (h : ∀ place b, read (write place b) = some (result place b))
    (items : List β) : list? read (.arr (items.mapIdx write)) = some (items.mapIdx result) := by
  rw [list?]
  induction items generalizing write result with
  | nil => rfl
  | cons item items ih => simp [List.mapIdx_cons, List.mapM_cons, h, ih fun place => h (place + 1)]

theorem optional_of_ne_null {value : Json} (hnull : value ≠ .null) :
    optional decode (some value) = (decode value).map some := by
  cases value with
  | null => exact absurd rfl hnull
  | _ => rfl

theorem optional_ofOption (hnull : ∀ a, encode a ≠ .null) (h : ∀ a, decode (encode a) = some a)
    (value : Option α) : optional decode (some (ofOption encode value)) = some value := by
  cases value with
  | none => rfl
  | some a => rw [ofOption, optional_of_ne_null (hnull a), h, Option.map_some]

end Json

/-! ## Types and signatures -/

@[simp] theorem Primitive.ofJson?_jsonName (setting : Json.Setting) (which : Primitive) :
    ofJson? setting (.str which.jsonName) = some which := by
  cases which <;> rfl

@[simp] theorem TypeRef.ofJson?_toJson (setting : Json.Setting) (type : TypeRef) :
    ofJson? setting type.toJson = some type := by
  induction type with
  | primitive which => simp [toJson, ofJson?]
  | named fqn => simp [toJson, ofJson?, Json.str?]
  | array element ih => simp [toJson, ofJson?, ih]
  | typeVar name => simp [toJson, ofJson?, Json.str?]
  | unknown => rfl

@[simp] theorem Modifiers.ofJson?_toJson (modifiers : Modifiers) :
    ofJson? modifiers.toJson = some modifiers := by
  have hbits : modifiers.bits.toNat < 0x100000000 := modifiers.bits.toNat_lt
  simp [toJson, ofJson?, Json.nat?, hbits]

@[simp] theorem Signature.ofJson?_toJson (setting : Json.Setting) (signature : Signature) :
    ofJson? setting signature.toJson = some signature := by
  simp [toJson, ofJson?, Json.record?, jsonNames, Json.field?, Json.required, Json.orDefault,
    Json.str?, Json.list?_ofList (TypeRef.ofJson?_toJson setting)]

@[simp] theorem TypeDecl.ofJson?_toJson (setting : Json.Setting) (decl : TypeDecl) :
    ofJson? setting decl.toJson = some decl := by
  have hname : ∀ name : String, Json.str? (.str name) = some name := fun _ => rfl
  simp [toJson, ofJson?, Json.record?, Json.field?, Json.required, Json.orDefault, hname,
    Json.bool?, Json.list?_ofList (Signature.ofJson?_toJson setting), Json.list?_ofList hname,
    Json.optional_ofOption (by simp) hname]

/-! ## Literals and operators -/

theorem Literal.int64?_toInt (value : Int64) : int64? value.toInt = some value := by
  have hrange : -0x8000000000000000 ≤ value.toInt ∧ value.toInt < 0x8000000000000000 :=
    ⟨value.le_toInt, value.toInt_lt⟩
  rw [int64?, if_pos hrange, Int64.ofInt_toInt]

@[simp] theorem Literal.ofJson?_toJson (setting : Json.Setting) (literal : Literal) :
    ofJson? setting literal.toJson = some literal := by
  cases literal with
  | null => rfl
  | bool value => cases setting <;> rfl
  | int value => cases setting <;> simp [toJson, ofJson?, Json.choice?, Json.Setting.isNothing,
      int64OfJson?, Json.int?, int64?_toInt]
  | char value => cases setting <;> simp [toJson, ofJson?, Json.choice?, Json.Setting.isNothing,
      Json.str?, char?]
  | string value => cases setting <;> rfl

@[simp] theorem BinaryOp.ofJson?_jsonName (setting : Json.Setting) (operator : BinaryOp) :
    ofJson? setting (.str operator.jsonName) = some operator := by
  cases operator <;> rfl

/-! ## Elements -/

@[simp] theorem ElementId.ofJson?_toJson (id : ElementId) : ofJson? id.toJson = some id := by
  simp [toJson, ofJson?, number]

theorem ElementId.list?_listToJson (ids : List ElementId) : list? (listToJson ids) = some ids :=
  Json.list?_ofList ofJson?_toJson ids

theorem ElementId.optional_toJson (id : Option ElementId) :
    Json.optional ofJson? (some (.ofOption toJson id)) = some id :=
  Json.optional_ofOption (by simp [toJson]) ofJson?_toJson id

theorem Signature.optional_toJson (setting : Json.Setting) (signature : Option Signature) :
    Json.optional (ofJson? setting) (some (.ofOption toJson signature)) = some signature :=
  Json.optional_ofOption (by simp [toJson]) (ofJson?_toJson setting) signature

/-- The fields of an element, with a value in place of its parent. -/
def Kind.fieldsWith (kind : Kind) (parent : Json) : List (String × Json) :=
  ("parent", parent) :: kind.toFields

theorem Kind.may_parent (kind : Kind) (parent : Json) :
    may (kind.fieldsWith parent) ElementId.ofJson? "parent" =
      Json.optional ElementId.ofJson? (some parent) := by
  cases kind <;> rfl

/-- The name of a kind is read from the fields, and the kind by its name. -/
theorem Kind.ofFields?_fieldsWith (kind : Kind) (parent : Json) :
    ∃ name, need (kind.fieldsWith parent) jsonName? "kind" = some name ∧
      ofFields? name (kind.fieldsWith parent) = some kind := by
  cases kind
  all_goals
    refine ⟨_, rfl, ?_⟩
    simp [fieldsWith, toFields, ofFields?, need, may, Json.field?, Json.required, Json.str?,
      type?, signature?, ElementId.list?_listToJson, ElementId.optional_toJson,
      Signature.optional_toJson]

namespace Element

/-- An element as JSON, with a value in place of its parent. -/
def toJsonWith (parent : Json) (element : Element) : Json := .obj (element.kind.fieldsWith parent)

/-- The kind of an element is read back, with the parent that was written. -/
theorem ofJson?_toJsonWith {parent : Json} {id : Option ElementId}
    (h : Json.optional ElementId.ofJson? (some parent) = some id) (element : Element) :
    ofJson? (element.toJsonWith parent) = some ⟨id, element.kind⟩ := by
  obtain ⟨name, hname, hkind⟩ := element.kind.ofFields?_fieldsWith parent
  simp only [toJsonWith, ofJson?, Kind.may_parent, h, hname, hkind, Option.bind_eq_bind,
    Option.bind_some]

@[simp] theorem ofJson?_toJson (element : Element) : ofJson? element.toJson = some element :=
  ofJson?_toJsonWith (ElementId.optional_toJson element.parent) element

end Element

/-! ## Trees -/

namespace Tree

/-- A tree as JSON, with values in place of the parents of its elements. -/
def toJsonWith (parents : ElementId → Json) (tree : Tree) : Json :=
  .obj [("root", tree.root.toJson),
    ("elements", .arr (tree.elements.toList.mapIdx fun place element =>
      element.toJsonWith (parents ⟨place⟩))),
    ("types", .ofList TypeDecl.toJson tree.types)]

theorem ofJson?_toJson (tree : Tree) : ofJson? tree.toJson = some tree := by
  simp [toJson, ofJson?, Json.record?, Json.field?, Json.required, Json.orDefault,
    Json.list?_ofList Element.ofJson?_toJson, Json.list?_ofList (TypeDecl.ofJson?_toJson .direct)]

/-- A tree is written with the parents of its elements. -/
theorem toJson_eq (tree : Tree) :
    tree.toJson = tree.toJsonWith fun id => .ofOption ElementId.toJson (tree.parent? id) := by
  have helements : tree.elements.toList.map Element.toJson =
      tree.elements.toList.mapIdx fun place element =>
        element.toJsonWith (.ofOption ElementId.toJson (tree.parent? ⟨place⟩)) := by
    refine List.ext_getElem (by simp) fun place hplace _ => ?_
    rw [List.length_map, Array.length_toList] at hplace
    simp [Element.toJson, Element.toJsonWith, Kind.fieldsWith, parent?, element?, hplace]
  rw [toJson, Json.ofList, helements, toJsonWith]

/-- The trees have the same elements, but for their parents. -/
structure SameKinds (tree other : Tree) : Prop where
  root : tree.root = other.root
  types : tree.types = other.types
  kinds : tree.elements.map (·.kind) = other.elements.map (·.kind)

/-- A tree is read back whatever stands in place of the parents. -/
theorem ofJson?_toJsonWith (tree : Tree) {parents : ElementId → Json}
    (h : ∀ id, (Json.optional ElementId.ofJson? (some (parents id))).isSome = true) :
    ∃ other, ofJson? (tree.toJsonWith parents) = some other ∧ tree.SameKinds other := by
  -- What is read in place of the parents, which need not be the parents.
  choose written hwritten using fun id => Option.isSome_iff_exists.mp (h id)
  have helements := Json.list?_mapIdx
    (fun place element => Element.ofJson?_toJsonWith (hwritten ⟨place⟩) element)
    tree.elements.toList
  refine ⟨{ tree with elements := (tree.elements.toList.mapIdx fun place element =>
    ⟨written ⟨place⟩, element.kind⟩).toArray }, ?_, rfl, rfl, ?_⟩
  · simp [toJsonWith, ofJson?, Json.record?, Json.field?, Json.required, Json.orDefault,
      helements, Json.list?_ofList (TypeDecl.ofJson?_toJson .direct)]
  · refine Array.ext_getElem? fun place => ?_
    simp [Function.comp_def]

theorem SameKinds.kind? {tree other : Tree} (h : tree.SameKinds other) (id : ElementId) :
    tree.kind? id = other.kind? id := by
  have hkinds := congrArg (fun kinds => kinds[id.place]?) h.kinds
  simpa [Tree.kind?, element?] using hkinds

theorem SameKinds.withParents {tree other : Tree} (h : tree.SameKinds other)
    (parents : Array (Option ElementId)) :
    tree.withParents parents = other.withParents parents := by
  have hzip := congrArg (fun kinds => kinds.zipWith (fun kind parent => Element.mk parent kind)
    parents) h.kinds
  simp only [Array.zipWith_map_left] at hzip
  rw [Tree.withParents, Tree.withParents, h.root, h.types, hzip]

/-- Linking looks at the kinds of elements only. -/
theorem SameKinds.link {tree other : Tree} (h : tree.SameKinds other) :
    tree.link = other.link := by
  have hsize : tree.size = other.size := by
    simpa [size] using congrArg Array.size h.kinds
  have hchildren : tree.children = other.children := by
    funext id
    rw [children, h.kind?, children]
  -- The parents that linking computes come from the children of elements.
  have hparents : tree.parents? = other.parents? := by
    simp only [parents?, childLinks, ids, hsize, hchildren]
  simp only [Tree.link, hparents, h.root, h.withParents]

theorem sameKinds_of_link {tree linked : Tree} (h : tree.link = .ok linked) :
    tree.SameKinds linked := by
  obtain ⟨parents, hparents, -, rfl⟩ := link_eq_ok_iff.mp h
  have hsize := size_of_parents? hparents
  refine ⟨rfl, rfl, Array.ext_getElem? fun place => ?_⟩
  simpa [kind?, element?] using (kind?_withParents hsize ⟨place⟩).symm

end Tree

/-! ## Everything that is written is read -/

section Covers

open Json (Shape)

theorem Signature.covers_toJson (signature : Signature) : shape.covers signature.toJson = true := by
  simp [shape, Shape.plainRecord, jsonNames, toJson, Shape.covers, Shape.coversFields,
    Shape.field?, List.lookup_cons, Shape.covers_whole]

theorem TypeDecl.covers_toJson (decl : TypeDecl) : shape.covers decl.toJson = true := by
  have hmethods : (Shape.items Signature.shape).covers
      (.ofList Signature.toJson decl.methods) = true :=
    Shape.coversItems_items (by simp [Signature.covers_toJson]) 0
  simp [shape, toJson, Shape.covers, Shape.coversFields, Shape.field?, List.lookup_cons,
    Shape.covers_whole, hmethods]

theorem Tree.covers_fields (root elements : Json) (members : List Json) (types : List TypeDecl)
    (h : elements = .arr members) :
    shape.covers (.obj [("root", root), ("elements", elements),
      ("types", .ofList TypeDecl.toJson types)]) = true := by
  have helements : (Shape.items .whole).covers elements = true := by
    rw [h]
    exact Shape.coversItems_items (fun value _ => Shape.covers_whole value) 0
  have htypes : (Shape.items TypeDecl.shape).covers (.ofList TypeDecl.toJson types) = true :=
    Shape.coversItems_items (by simp [TypeDecl.covers_toJson]) 0
  simp [shape, Shape.covers, Shape.coversFields, Shape.field?, List.lookup_cons, Shape.covers_whole,
    helements, htypes]

end Covers

/-! ## Numbers that are written -/

section Integral

theorem Json.areIntegral_iff {items : List Json} :
    Json.areIntegral items = true ↔ ∀ item ∈ items, item.isIntegral = true := by
  induction items with
  | nil => simp [Json.areIntegral]
  | cons item items ih => simp [Json.areIntegral, ih]

@[simp] theorem Json.isIntegral_ofList {α : Type} {encode : α → Json} {items : List α} :
    (Json.ofList encode items).isIntegral = true ↔
      ∀ a ∈ items, (encode a).isIntegral = true := by
  simp [Json.ofList, Json.isIntegral, Json.areIntegral_iff]

@[simp] theorem Json.isIntegral_ofOption {α : Type} {encode : α → Json} {value : Option α} :
    (Json.ofOption encode value).isIntegral = true ↔
      ∀ a ∈ value, (encode a).isIntegral = true := by
  cases value <;> simp [Json.ofOption, Json.isIntegral]

@[simp] theorem TypeRef.isIntegral_toJson (type : TypeRef) : type.toJson.isIntegral = true := by
  induction type with
  | array element ih => simp [toJson, Json.isIntegral, Json.haveIntegral, ih]
  | _ => rfl

@[simp] theorem Signature.isIntegral_toJson (signature : Signature) :
    signature.toJson.isIntegral = true := by
  have hbits := signature.modifiers.bits.toNat_lt
  have hfits : Json.Parser.fits64 signature.modifiers.bits.toNat = true := by
    rw [Json.Parser.fits64, Bool.and_eq_true, decide_eq_true_eq, decide_eq_true_eq]
    omega
  simp [toJson, Modifiers.toJson, Json.isIntegral, Json.haveIntegral, hfits]

@[simp] theorem TypeDecl.isIntegral_toJson (decl : TypeDecl) : decl.toJson.isIntegral = true := by
  simp [toJson, Json.isIntegral, Json.haveIntegral]

@[simp] theorem Literal.isIntegral_toJson (literal : Literal) :
    literal.toJson.isIntegral = true := by
  cases literal with
  | int value =>
    have hlower := value.le_toInt
    have hupper := value.toInt_lt
    simp only [toJson, Json.isIntegral, Json.haveIntegral, Json.Parser.fits64, Bool.and_true,
      Bool.and_eq_true, decide_eq_true_eq]
    omega
  | _ => rfl

@[simp] theorem ElementId.isIntegral_toJson (id : ElementId) :
    id.toJson.isIntegral = true ↔ id.number < 2 ^ 64 := by
  simp only [toJson, Json.isIntegral, Json.Parser.fits64, Bool.and_eq_true, decide_eq_true_eq]
  omega

theorem Kind.haveIntegral_toFields {kind : Kind}
    (hchildren : ∀ id ∈ kind.children, id.number < 2 ^ 64)
    (htarget : ∀ name target type, kind = .identifier name (some target) type →
      target.number < 2 ^ 64) : Json.haveIntegral kind.toFields = true := by
  cases kind
  all_goals
    simp_all [toFields, children, Json.haveIntegral, Json.isIntegral, ElementId.listToJson]

/-- All numbers that are written for a tree are of 64 bits if those of its elements are. -/
theorem Tree.isIntegral_toJsonWith {tree : Tree} {parents : ElementId → Json}
    (hroot : tree.root.number < 2 ^ 64) (hparents : ∀ id, (parents id).isIntegral = true)
    (hchildren : ∀ id, ∀ child ∈ tree.children id, child.number < 2 ^ 64)
    (htargets : ∀ id name target type, tree.kind? id = some (.identifier name (some target) type) →
      target.number < 2 ^ 64) : (tree.toJsonWith parents).isIntegral = true := by
  have helements : ∀ item ∈ tree.elements.toList.mapIdx (fun place element =>
      element.toJsonWith (parents ⟨place⟩)), item.isIntegral = true := by
    intro item hitem
    obtain ⟨place, hplace, rfl⟩ := List.mem_mapIdx.mp hitem
    have helement : tree.element? ⟨place⟩ = some tree.elements.toList[place] := by
      rw [element?, ← Array.getElem?_toList, List.getElem?_eq_getElem hplace]
    generalize tree.elements.toList[place] = element at helement
    have hkind : tree.kind? ⟨place⟩ = some element.kind := by
      rw [kind?, helement, Option.map_some]
    have hfields : Json.haveIntegral element.kind.toFields = true := by
      refine Kind.haveIntegral_toFields (fun id hid => hchildren ⟨place⟩ id ?_) ?_
      · rw [children, hkind]
        exact hid
      · intro name target type heq
        exact htargets ⟨place⟩ name target type (hkind.trans (congrArg some heq))
    simp [Element.toJsonWith, Kind.fieldsWith, Json.isIntegral, Json.haveIntegral, hparents,
      hfields]
  simp only [toJsonWith, Json.isIntegral, Json.haveIntegral, Json.areIntegral_iff.mpr helements,
    Bool.and_true, Bool.true_and, Bool.and_eq_true, ElementId.isIntegral_toJson, hroot, true_and,
    Json.isIntegral_ofList, TypeDecl.isIntegral_toJson, implies_true]

end Integral

/-! ## Units -/

namespace CompilationUnit

variable {u : CompilationUnit}

/-- A unit is what checking makes of its tree, whatever the parents in the tree are. -/
theorem Accepted.ofTree_eq_ok (hu : u.Accepted) {tree : Tree} (h : u.tree.SameKinds tree) :
    ofTree tree = .ok u := by
  obtain ⟨original, horiginal⟩ := hu
  have hsame := Tree.sameKinds_of_link (ofTree_eq_ok_iff.mp horiginal).1
  rw [← horiginal, ofTree, ofTree, ← h.link, hsame.link]

/-- The text of a tree is read as this tree. -/
theorem parse_pretty {value : Json} {tree : Tree} (hnesting : value.nesting < Json.nestingLimit)
    (hintegral : value.isIntegral = true) (hcovers : Tree.shape.covers value = true)
    (hread : Tree.ofJson? value = some tree) : parse value.pretty = ofTree tree := by
  rw [parse, Json.parseAs?_pretty hnesting hintegral hcovers, Option.bind_some, hread]

theorem number_lt (hsize : u.size < 2 ^ 64) (id : ElementId) (h : id.place < u.size) :
    id.number < 2 ^ 64 := by
  rw [ElementId.number]
  omega

/-- Numbers of 64 bits are enough for a unit with fewer elements. -/
theorem Accepted.isIntegral_toJsonWith (hu : u.Accepted) {parents : ElementId → Json}
    (hparents : ∀ id, (parents id).isIntegral = true) (hsize : u.size < 2 ^ 64)
    (htargets : ∀ id target, u.variableOf? id = some target → target.number < 2 ^ 64) :
    (u.tree.toJsonWith parents).isIntegral = true := by
  have hnumber := number_lt hsize
  refine Tree.isIntegral_toJsonWith (hnumber _ hu.linked.root_lt) hparents ?_ ?_
  · exact fun id child hchild => hnumber _ (hu.linked.child_lt id child hchild)
  · intro id name target type hkind
    refine htargets id target ?_
    rw [variableOf?, kind?, hkind]

theorem Accepted.isIntegral_parent (hu : u.Accepted) (hsize : u.size < 2 ^ 64) (id : ElementId) :
    (Json.ofOption ElementId.toJson (u.tree.parent? id)).isIntegral = true := by
  rw [Json.isIntegral_ofOption]
  intro parent hparent
  have hchild := (hu.linked.parent_iff id parent).mp hparent
  exact parent.isIntegral_toJson.mpr (number_lt hsize _ (Tree.lt_size_of_mem_children hchild))

/-- A unit is read back from what is saved of it, and from what would be saved with any other
    values in place of the parents of its elements that can be read. -/
theorem parse_save (hu : u.Accepted) :
    (Tree.ofJson? u.tree.toJson = some u.tree ∧ ofTree u.tree = .ok u) ∧
    (∀ parents : ElementId → Json,
      (∀ id, (Json.optional ElementId.ofJson? (some (parents id))).isSome = true) →
      ∃ tree, Tree.ofJson? (u.tree.toJsonWith parents) = some tree ∧ ofTree tree = .ok u) ∧
    (u.size < 2 ^ 64 →
      (∀ id target, u.variableOf? id = some target → target.number < 2 ^ 64) →
      (u.tree.toJson.nesting < Json.nestingLimit → parse u.save = .ok u) ∧
      ∀ parents : ElementId → Json,
        (∀ id, (Json.optional ElementId.ofJson? (some (parents id))).isSome = true) →
        (∀ id, (parents id).isIntegral = true) →
        (u.tree.toJsonWith parents).nesting < Json.nestingLimit →
        parse (u.tree.toJsonWith parents).pretty = .ok u) := by
  have htree : ofTree u.tree = .ok u := hu.ofTree_eq_ok ⟨rfl, rfl, rfl⟩
  refine ⟨⟨u.tree.ofJson?_toJson, htree⟩, fun parents hparents => ?_,
    fun hsize htargets => ⟨fun hnesting => ?_, fun parents hparents hwritten hnesting => ?_⟩⟩
  · obtain ⟨tree, hread, hsame⟩ := u.tree.ofJson?_toJsonWith hparents
    exact ⟨tree, hread, hu.ofTree_eq_ok hsame⟩
  · have hintegral := hu.isIntegral_toJsonWith (hu.isIntegral_parent hsize) hsize htargets
    rw [← Tree.toJson_eq] at hintegral
    rw [save, parse_pretty hnesting hintegral (Tree.covers_fields _ _ _ _ rfl)
      u.tree.ofJson?_toJson, htree]
  · obtain ⟨tree, hread, hsame⟩ := u.tree.ofJson?_toJsonWith hparents
    have hintegral := hu.isIntegral_toJsonWith hwritten hsize htargets
    rw [parse_pretty hnesting hintegral (Tree.covers_fields _ _ _ _ rfl) hread,
      hu.ofTree_eq_ok hsame]

/-- The small unit is read back from its text, also with one and the same parent for all of its
    elements. -/
theorem parse_save_relayUnit :
    relayUnit.Accepted ∧ relayUnit.tree.toJson.nesting = 6 ∧
    parse relayUnit.save = .ok relayUnit ∧
    parse (relayUnit.tree.toJsonWith fun _ => .int 7).pretty = .ok relayUnit := by
  have htargets : ∀ id target, relayUnit.variableOf? id = some target →
      target.number < 2 ^ 64 := by
    have hall : ∀ id ∈ relayUnit.tree.ids, ∀ target ∈ relayUnit.variableOf? id,
        target.number < 2 ^ 64 := by decide +kernel
    intro id target htarget
    -- What is not in the tree names no variable.
    cases hkind : relayUnit.tree.kind? id with
    | none => simp [variableOf?, kind?, hkind] at htarget
    | some kind =>
      obtain ⟨element, helement, -⟩ := Option.map_eq_some_iff.mp hkind
      have hlt := (Array.getElem?_eq_some_iff.mp helement).1
      exact hall id (List.mem_map.mpr ⟨id.place, List.mem_range.mpr hlt, rfl⟩) target htarget
  obtain ⟨hsaved, hother⟩ := (parse_save relayUnit_accepted).2.2 (by decide +kernel) htargets
  refine ⟨relayUnit_accepted, by decide +kernel, hsaved (by decide +kernel), ?_⟩
  exact hother _ (fun _ => rfl) (fun _ => by decide) (by decide +kernel)

end CompilationUnit

end ValueFlow
