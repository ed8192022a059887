/-
  ValueFlow.Proofs.StoreContents

  A store holds the rows of the tables that were added to it, and nothing else.

  The formats of the two tables are said column by column (`FlowModel.format`,
  `SinkModel.format`). An index is described by the rows that went into it in order
  (`ModelIndex.Lists`): below each name it has the rows of that name in that order. Filing one
  row, filing a table and merging two indices keep this description, so a whole run of
  additions does, in which the tables with a mistake count for nothing.
-/

import Mathlib.Algebra.BigOperators.Group.List.Lemmas
import ValueFlow.Loading
import ValueFlow.Proofs.Csv
import ValueFlow.Proofs.ModelStore

namespace ValueFlow

/-! ## Formats of rows -/

section Chosen

variable {β γ : Type} [DecidableEq β] {name : γ → β} {first second : γ} {text : β}
  {mistake : ModelError}

theorem chosen_eq_ok_iff (hname : Function.Injective name)
    (hall : ∀ value, value = first ∨ value = second) {value : γ} :
    chosen name first second mistake text = .ok value ↔ text = name value := by
  rw [chosen]
  constructor
  · intro h
    split at h
    · next heq => cases h; exact heq
    · split at h
      · next heq => cases h; exact heq
      · cases h
  · rintro rfl
    rcases hall value with rfl | rfl
    · rw [if_pos rfl]
    · by_cases heq : value = first
      · rw [heq, if_pos rfl]
      · rw [if_neg (hname.ne heq), if_pos rfl]

theorem chosen_eq_error_iff (hall : ∀ value, value = first ∨ value = second)
    {reason : ModelError} :
    chosen name first second mistake text = .error reason ↔
      (∀ value, text ≠ name value) ∧ reason = mistake := by
  rw [chosen]
  constructor
  · intro h
    split at h
    · cases h
    · next hfirst =>
      split at h
      · cases h
      · next hsecond =>
        cases h
        refine ⟨fun value => ?_, rfl⟩
        rcases hall value with rfl | rfl
        · exact hfirst
        · exact hsecond
  · rintro ⟨hno, rfl⟩
    rw [if_neg (hno first), if_neg (hno second)]

end Chosen

/-- A text says a truth value, in any case. -/
def SaysBoolean (text : String) (value : Bool) : Prop :=
  text.toList.map lowerAscii = booleanName value

theorem parseBoolean_eq_ok_iff {text : String} {value : Bool} :
    parseBoolean text = .ok value ↔ SaysBoolean text value := by
  rw [parseBoolean, chosen_eq_ok_iff, SaysBoolean]
  · intro a b
    revert a b
    decide
  · decide

theorem parseBoolean_eq_error_iff {text : String} {reason : ModelError} :
    parseBoolean text = .error reason ↔
      (∀ value, ¬ SaysBoolean text value) ∧ reason = .badBoolean text := by
  rw [parseBoolean, chosen_eq_error_iff (by decide)]
  rfl

theorem FlowKind.eq_value_or_taint (kind : FlowKind) : kind = .value ∨ kind = .taint := by
  cases kind <;> simp

theorem FlowKind.parse_eq_ok_iff {name : String} {kind : FlowKind} :
    FlowKind.parse name = .ok kind ↔ name = kind.text := by
  rw [FlowKind.parse, chosen_eq_ok_iff ?_ FlowKind.eq_value_or_taint]
  intro a b
  cases a <;> cases b <;> decide

theorem FlowKind.parse_eq_error_iff {name : String} {reason : ModelError} :
    FlowKind.parse name = .error reason ↔
      (∀ kind : FlowKind, name ≠ kind.text) ∧ reason = .unknownKind name := by
  rw [FlowKind.parse, chosen_eq_error_iff FlowKind.eq_value_or_taint]

/-- The place of the column that says whether a model holds for subtypes, from zero. -/
def subtypesColumn : Nat := 2

/-- What is wrong with the texts of a row: their number, then the truth value, then the flow
    kind if there is a column for it. -/
inductive WrongRow (columns : Nat) (kindColumn : Option Nat) (texts : List String) :
    ModelError → Prop where
  | count : texts.length ≠ columns →
      WrongRow columns kindColumn texts (.columnCount columns texts.length)
  | boolean {text : String} : texts.length = columns → texts[subtypesColumn]? = some text →
      (∀ value, ¬ SaysBoolean text value) → WrongRow columns kindColumn texts (.badBoolean text)
  | kind {column : Nat} {subtypes text : String} {value : Bool} : texts.length = columns →
      texts[subtypesColumn]? = some subtypes → SaysBoolean subtypes value →
      kindColumn = some column → texts[column]? = some text →
      (∀ kind : FlowKind, text ≠ kind.text) →
      WrongRow columns kindColumn texts (.unknownKind text)

section WrongRow

variable {columns : Nat} {kindColumn : Option Nat} {texts : List String} {reason : ModelError}

theorem wrongRow_iff_of_length_ne (h : texts.length ≠ columns) :
    WrongRow columns kindColumn texts reason ↔
      .error (.columnCount columns texts.length) = (.error reason : Except ModelError Unit) := by
  constructor
  · intro hwrong
    cases hwrong with
    | count => rfl
    | boolean heq => exact absurd heq h
    | kind heq => exact absurd heq h
  · intro heq
    cases heq
    exact .count h

/-- With the right number of columns the truth value is read first, and then the flow kind. -/
theorem wrongRow_iff_of_length {subtypes : String} (h : texts.length = columns)
    (hsubtypes : texts[subtypesColumn]? = some subtypes) :
    WrongRow columns kindColumn texts reason ↔ parseBoolean subtypes = .error reason ∨
      ∃ value, parseBoolean subtypes = .ok value ∧ ∃ column text, kindColumn = some column ∧
        texts[column]? = some text ∧ FlowKind.parse text = .error reason := by
  constructor
  · intro hwrong
    cases hwrong with
    | count hne => exact absurd h hne
    | boolean _ htext hno =>
      rw [hsubtypes] at htext
      cases htext
      exact Or.inl (parseBoolean_eq_error_iff.mpr ⟨hno, rfl⟩)
    | kind _ hother hsays hcolumn htext hno =>
      rw [hsubtypes] at hother
      cases hother
      exact Or.inr ⟨_, parseBoolean_eq_ok_iff.mpr hsays, _, _, hcolumn, htext,
        FlowKind.parse_eq_error_iff.mpr ⟨hno, rfl⟩⟩
  · rintro (hboolean | ⟨value, hvalue, column, text, hcolumn, htext, hkind⟩)
    · obtain ⟨hno, rfl⟩ := parseBoolean_eq_error_iff.mp hboolean
      exact .boolean h hsubtypes hno
    · obtain ⟨hno, rfl⟩ := FlowKind.parse_eq_error_iff.mp hkind
      exact .kind h hsubtypes (parseBoolean_eq_ok_iff.mp hvalue) hcolumn htext hno

end WrongRow

namespace FlowModel

/-- The texts of a row state a flow model, one column after the other. -/
def StatedBy (texts : List String) (model : FlowModel) : Prop :=
  ∃ subtypes, SaysBoolean subtypes model.method.subtypes ∧
    texts = [model.method.package, model.method.typeName, subtypes, model.method.name,
      model.method.signature, model.method.ext, model.method.input, model.output,
      model.kind.text, model.provenance]

/-- Tables of flow models. -/
def format : Csv.Format FlowModel := ⟨StatedBy, WrongRow 10 (some 8)⟩

theorem ofFields_of_length_ne {texts : List String} (h : texts.length ≠ 10) :
    ofFields texts = .error (.columnCount 10 texts.length) := by
  unfold ofFields
  split
  · exact absurd rfl h
  · rfl

theorem format_decides : format.Decides ofFields where
  ok_iff texts model := by
    constructor
    · intro h
      unfold ofFields at h
      split at h
      · obtain ⟨subtypes, hsubtypes, h⟩ := bind_eq_ok_iff.mp h
        obtain ⟨kind, hkind, h⟩ := bind_eq_ok_iff.mp h
        cases h
        rw [FlowKind.parse_eq_ok_iff.mp hkind]
        exact ⟨_, parseBoolean_eq_ok_iff.mp hsubtypes, rfl⟩
      · cases h
    · rintro ⟨subtypes, hsubtypes, rfl⟩
      rw [ofFields, parseBoolean_eq_ok_iff.mpr hsubtypes, FlowKind.parse_eq_ok_iff.mpr rfl]
      rfl
  error_iff texts reason := by
    show ofFields texts = .error reason ↔ WrongRow 10 (some 8) texts reason
    by_cases hlength : texts.length = 10
    · match texts, hlength with
      | [package, typeName, subtypes, name, signature, ext, input, output, kind, provenance],
          hlength =>
        rw [ofFields, bind_eq_error_iff, wrongRow_iff_of_length hlength rfl]
        simp [bind_eq_error_iff]
    · rw [ofFields_of_length_ne hlength, wrongRow_iff_of_length_ne hlength]
      simp

end FlowModel

namespace SinkModel

/-- The texts of a row state a sink model, one column after the other. -/
def StatedBy (texts : List String) (model : SinkModel) : Prop :=
  ∃ subtypes, SaysBoolean subtypes model.method.subtypes ∧
    texts = [model.method.package, model.method.typeName, subtypes, model.method.name,
      model.method.signature, model.method.ext, model.method.input, model.kind,
      model.provenance]

/-- Tables of sink models; what they call a kind may be any text. -/
def format : Csv.Format SinkModel := ⟨StatedBy, WrongRow 9 none⟩

theorem ofFields_of_length_ne {texts : List String} (h : texts.length ≠ 9) :
    ofFields texts = .error (.columnCount 9 texts.length) := by
  unfold ofFields
  split
  · exact absurd rfl h
  · rfl

theorem format_decides : format.Decides ofFields where
  ok_iff texts model := by
    constructor
    · intro h
      unfold ofFields at h
      split at h
      · obtain ⟨subtypes, hsubtypes, h⟩ := bind_eq_ok_iff.mp h
        cases h
        exact ⟨_, parseBoolean_eq_ok_iff.mp hsubtypes, rfl⟩
      · cases h
    · rintro ⟨subtypes, hsubtypes, rfl⟩
      rw [ofFields, parseBoolean_eq_ok_iff.mpr hsubtypes]
      rfl
  error_iff texts reason := by
    show ofFields texts = .error reason ↔ WrongRow 9 none texts reason
    by_cases hlength : texts.length = 9
    · match texts, hlength with
      | [package, typeName, subtypes, name, signature, ext, input, kind, provenance], hlength =>
        rw [ofFields, bind_eq_error_iff, wrongRow_iff_of_length hlength rfl]
        simp
    · rw [ofFields_of_length_ne hlength, wrongRow_iff_of_length_ne hlength]
      simp

end SinkModel

/-! ## Indices -/

namespace ModelIndex

section Lists

variable {α : Type} {fqn : α → String} {index other : ModelIndex α} {rows more : List α}

/-- The index of rows in order: there is a group for each of their names, and it has the rows
    of that name in that order. -/
structure Lists (fqn : α → String) (index : ModelIndex α) (rows : List α) : Prop where
  filed : Filed fqn index
  mem_fqns : ∀ name, name ∈ index.fqns ↔ ∃ row ∈ rows, fqn row = name
  get : ∀ name, index.get name = rows.filter fun row => fqn row = name

theorem Lists.empty : Lists fqn empty [] := ⟨.empty, by simp [fqns, ModelIndex.empty], fun _ => rfl⟩

theorem get_append (index : ModelIndex α) (name other : String) (models : List α) :
    (index.append name models).get other =
      if other = name then index.get other ++ models else index.get other := by
  rw [append, get, Sorted.find?_put]
  split
  · next heq => rw [heq]; rfl
  · rfl

theorem mem_fqns_append (index : ModelIndex α) (name other : String) (models : List α) :
    other ∈ (index.append name models).fqns ↔ other = name ∨ other ∈ index.fqns := by
  rw [append, fqns, Sorted.map_fst_put, Sorted.mem_insert, fqns]

/-- One more row. -/
theorem Lists.append (h : Lists fqn index rows) (row : α) :
    Lists fqn (index.append (fqn row) [row]) (rows ++ [row]) where
  filed := h.filed.append fun _ hmem => congrArg fqn (List.mem_singleton.mp hmem)
  mem_fqns name := by
    rw [mem_fqns_append, h.mem_fqns]
    constructor
    · rintro (rfl | ⟨other, hother, heq⟩)
      · exact ⟨row, by simp, rfl⟩
      · exact ⟨other, List.mem_append_left _ hother, heq⟩
    · rintro ⟨other, hother, rfl⟩
      rcases List.mem_append.mp hother with hother | hother
      · exact Or.inr ⟨other, hother, rfl⟩
      · exact Or.inl (congrArg fqn (List.mem_singleton.mp hother))
  get name := by
    rw [get_append, h.get, List.filter_append]
    by_cases heq : name = fqn row
    · rw [if_pos heq, List.filter_cons_of_pos (by simp [heq]), List.filter_nil]
    · rw [if_neg heq, List.filter_cons_of_neg (by simp [Ne.symm heq]), List.filter_nil,
        List.append_nil]

theorem Lists.ofList (rows : List α) : Lists fqn (ofList fqn rows) rows := by
  suffices h : ∀ index before, Lists fqn index before →
      Lists fqn (rows.foldl (fun index row => index.append (fqn row) [row]) index)
        (before ++ rows) from h _ [] .empty
  induction rows with
  | nil =>
    intro index before h
    rwa [List.append_nil]
  | cons row rows ih =>
    intro index before h
    have hrest := ih _ _ (h.append row)
    rwa [List.append_assoc] at hrest

/-- Merging puts the rows of a name behind those that are there. The groups of the other index
    have different names, so each name gets the rows of one group. -/
theorem get_merge (hother : Sorted.Increasing other.fqns) (index : ModelIndex α) (name : String) :
    (index.merge other).get name = index.get name ++ other.get name := by
  rw [fqns] at hother
  rw [merge, get.eq_1 other]
  generalize other.groups = groups at hother
  induction groups generalizing index with
  | nil => exact (List.append_nil _).symm
  | cons group groups ih =>
    obtain ⟨hfirst, hrest⟩ := List.pairwise_cons.mp hother
    rw [List.foldl_cons, ih _ hrest, get_append, Sorted.find?]
    by_cases heq : name = group.1
    · -- No later group has this name.
      have hnone : Sorted.find? name groups = none := by
        rw [Option.eq_none_iff_forall_ne_some]
        intro models hfound
        have hmem := (Sorted.find?_eq_some_iff hrest).mp hfound
        exact Sorted.ne_of_lt (hfirst name (List.mem_map_of_mem hmem)) heq.symm
      rw [if_pos heq, if_pos heq, hnone]
      exact List.append_nil _
    · rw [if_neg heq, if_neg heq]

theorem mem_fqns_merge (index other : ModelIndex α) (name : String) :
    name ∈ (index.merge other).fqns ↔ name ∈ index.fqns ∨ name ∈ other.fqns := by
  rw [merge, fqns.eq_1 other]
  generalize other.groups = groups
  induction groups generalizing index with
  | nil => simp
  | cons group groups ih =>
    rw [List.foldl_cons, ih, mem_fqns_append, List.map_cons, List.mem_cons]
    constructor
    · rintro ((h | h) | h) <;> simp [h]
    · rintro (h | h | h) <;> simp [h]

theorem Lists.merge (h : Lists fqn index rows) (hother : Lists fqn other more) :
    Lists fqn (index.merge other) (rows ++ more) where
  filed := h.filed.merge hother.filed
  mem_fqns name := by
    rw [mem_fqns_merge, h.mem_fqns, hother.mem_fqns]
    simp only [List.mem_append, or_and_right, exists_or]
  get name := by
    rw [get_merge hother.filed.increasing, h.get, hother.get, List.filter_append]

theorem Filed.all_eq (h : Filed fqn index) : index.all = index.fqns.flatMap index.get := by
  rw [all, fqns, List.flatMap_map]
  refine List.flatMap_congr fun group hgroup => ?_
  rw [get, (Sorted.find?_eq_some_iff h.increasing).mpr hgroup, Option.getD_some]

/-- The groups taken together are as long as the list of the rows. -/
theorem Lists.size_eq (h : Lists fqn index rows) : index.size = rows.length := by
  -- The names are those of the rows, each once, and each has as many rows as it is named.
  have hnames : index.fqns.Perm (rows.map fqn).dedup := by
    refine (List.perm_ext_iff_of_nodup h.filed.increasing.nodup (List.nodup_dedup _)).mpr ?_
    intro name
    rw [h.mem_fqns, List.mem_dedup, List.mem_map]
  have hcount : ∀ name, (index.get name).length = (rows.map fqn).count name := by
    intro name
    rw [h.get, List.count, List.countP_map, List.countP_eq_length_filter]
    rfl
  calc index.size
      = (index.fqns.map fun name => (index.get name).length).sum := by
        rw [size, h.filed.all_eq, List.length_flatMap]
    _ = (index.fqns.map fun name => (rows.map fqn).count name).sum := by simp only [hcount]
    _ = ((rows.map fqn).dedup.map fun name => (rows.map fqn).count name).sum :=
        (hnames.map _).sum_eq
    _ = rows.length := by rw [List.sum_map_count_dedup_eq_length, List.length_map]

/-- What an index shows of the rows that went into it in order. -/
structure Contents (fqn : α → String) (index : ModelIndex α) (rows : List α) : Prop where
  get : ∀ name, index.get name = rows.filter fun row => fqn row = name
  increasing : Sorted.Increasing index.fqns
  mem_fqns : ∀ name, name ∈ index.fqns ↔ ∃ row ∈ rows, fqn row = name
  size : index.size = rows.length

theorem Lists.contents (h : Lists fqn index rows) : Contents fqn index rows :=
  ⟨h.get, h.filed.increasing, h.mem_fqns, h.size_eq⟩

end Lists
end ModelIndex

/-! ## Stores -/

namespace ModelStore

/-- A table that is added to a store, and where it comes from. -/
inductive Addition where
  | flows (origin text : String)
  | sinks (origin text : String)
deriving DecidableEq, Repr

/-- Adds a table; a wrong one leaves the store as it was. -/
def add (store : ModelStore) : Addition → ModelStore × Option ModelError
  | .flows origin text => store.loadText addFlows origin text
  | .sinks origin text => store.loadText addSinks origin text

/-- Adds tables in order. -/
def addAll (store : ModelStore) : List Addition → ModelStore
  | [] => store
  | addition :: additions => (store.add addition).1.addAll additions

namespace Addition

/-- Where the table comes from. -/
def origin : Addition → String
  | .flows origin _ => origin
  | .sinks origin _ => origin

/-- The first mistake of the table. -/
def FailsAt : Addition → Nat → ModelError → Prop
  | .flows _ text => FlowModel.format.FailsAt text
  | .sinks _ text => SinkModel.format.FailsAt text

/-- The rows of the table; a table with a mistake gives none. -/
inductive Gives : Addition → List FlowModel → List SinkModel → Prop where
  | flows {origin text : String} {rows : List FlowModel} : FlowModel.format.Holds text rows →
      Gives (.flows origin text) rows []
  | sinks {origin text : String} {rows : List SinkModel} : SinkModel.format.Holds text rows →
      Gives (.sinks origin text) [] rows
  | refused {addition : Addition} {number : Nat} {reason : ModelError} :
      addition.FailsAt number reason → Gives addition [] []

/-- The rows of several tables, one table after the other. -/
inductive GiveAll : List Addition → List FlowModel → List SinkModel → Prop where
  | nil : GiveAll [] [] []
  | cons {addition : Addition} {additions : List Addition} {flows moreFlows : List FlowModel}
      {sinks moreSinks : List SinkModel} : addition.Gives flows sinks →
      GiveAll additions moreFlows moreSinks →
      GiveAll (addition :: additions) (flows ++ moreFlows) (sinks ++ moreSinks)

theorem exists_gives (addition : Addition) : ∃ flows sinks, addition.Gives flows sinks := by
  cases addition with
  | flows origin text =>
    rcases FlowModel.format_decides.holds_or_failsAt text with ⟨rows, hrows⟩ | ⟨_, _, hfails⟩
    · exact ⟨rows, [], .flows hrows⟩
    · exact ⟨[], [], .refused hfails⟩
  | sinks origin text =>
    rcases SinkModel.format_decides.holds_or_failsAt text with ⟨rows, hrows⟩ | ⟨_, _, hfails⟩
    · exact ⟨[], rows, .sinks hrows⟩
    · exact ⟨[], [], .refused hfails⟩

theorem exists_giveAll (additions : List Addition) :
    ∃ flows sinks, GiveAll additions flows sinks := by
  induction additions with
  | nil => exact ⟨[], [], .nil⟩
  | cons addition additions ih =>
    obtain ⟨flows, sinks, hgives⟩ := addition.exists_gives
    obtain ⟨moreFlows, moreSinks, hrest⟩ := ih
    exact ⟨_, _, .cons hgives hrest⟩

end Addition

section Add

variable {store : ModelStore} {flows moreFlows : List FlowModel} {sinks moreSinks : List SinkModel}
  {addition : Addition} {additions : List Addition}

theorem add_flows_of_holds {origin text : String} {rows : List FlowModel}
    (h : FlowModel.format.Holds text rows) : store.add (.flows origin text) =
      ({ store with
        value := store.value.merge (flowIndex .value rows)
        taint := store.taint.merge (flowIndex .taint rows) }, none) := by
  rw [add, loadText, addFlows, FlowModel.format_decides.rows_of_holds h]
  rfl

theorem add_sinks_of_holds {origin text : String} {rows : List SinkModel}
    (h : SinkModel.format.Holds text rows) : store.add (.sinks origin text) =
      ({ store with sinks := store.sinks.merge (.ofList (·.method.fqn) rows) }, none) := by
  rw [add, loadText, addSinks, SinkModel.format_decides.rows_of_holds h]
  rfl

theorem add_of_failsAt {number : Nat} {reason : ModelError} (h : addition.FailsAt number reason) :
    store.add addition = (store, some (.row addition.origin number reason)) := by
  cases addition with
  | flows origin text =>
    rw [add, loadText, addFlows, FlowModel.format_decides.rows_of_failsAt h]
    rfl
  | sinks origin text =>
    rw [add, loadText, addSinks, SinkModel.format_decides.rows_of_failsAt h]
    rfl

/-- Adding a table fails exactly with its first mistake. -/
theorem add_error_iff {error : ModelError} : (store.add addition).2 = some error ↔
    ∃ number reason, addition.FailsAt number reason ∧
      error = .row addition.origin number reason := by
  constructor
  · intro h
    obtain ⟨flows, sinks, hgives⟩ := addition.exists_gives
    cases hgives with
    | flows hrows =>
      rw [add_flows_of_holds hrows] at h
      cases h
    | sinks hrows =>
      rw [add_sinks_of_holds hrows] at h
      cases h
    | refused hfails =>
      rw [add_of_failsAt hfails] at h
      cases h
      exact ⟨_, _, hfails, rfl⟩
  · rintro ⟨number, reason, hfails, rfl⟩
    rw [add_of_failsAt hfails]

/-- A store has the index of these flow models for each kind, and the index of these sinks. -/
structure Contains (store : ModelStore) (flows : List FlowModel) (sinks : List SinkModel) :
    Prop where
  flows : ∀ kind, (store.flows kind).Lists (·.method.fqn) (flows.filter fun row => row.kind = kind)
  sinks : store.sinks.Lists (·.method.fqn) sinks

theorem Contains.empty : empty.Contains [] [] where
  flows kind := by cases kind <;> exact .empty
  sinks := .empty

/-- Adding a table adds the rows that it gives. -/
theorem Contains.add (h : store.Contains flows sinks)
    (hgives : addition.Gives moreFlows moreSinks) :
    (store.add addition).1.Contains (flows ++ moreFlows) (sinks ++ moreSinks) := by
  cases hgives with
  | flows hrows =>
    rw [add_flows_of_holds hrows]
    refine ⟨fun kind => ?_, by rw [List.append_nil]; exact h.sinks⟩
    rw [List.filter_append]
    cases kind with
    | value => exact (h.flows .value).merge (.ofList _)
    | taint => exact (h.flows .taint).merge (.ofList _)
  | sinks hrows =>
    rw [add_sinks_of_holds hrows]
    refine ⟨fun kind => ?_, h.sinks.merge (.ofList _)⟩
    rw [List.append_nil]
    cases kind with
    | value => exact h.flows .value
    | taint => exact h.flows .taint
  | refused hfails =>
    rw [add_of_failsAt hfails, List.append_nil, List.append_nil]
    exact h

theorem Contains.addAll (h : store.Contains flows sinks)
    (hgive : Addition.GiveAll additions moreFlows moreSinks) :
    (store.addAll additions).Contains (flows ++ moreFlows) (sinks ++ moreSinks) := by
  induction hgive generalizing store flows sinks with
  | nil =>
    rw [List.append_nil, List.append_nil]
    exact h
  | cons hgives _ ih =>
    have hrest := ih (h.add hgives)
    rw [List.append_assoc, List.append_assoc] at hrest
    exact hrest

end Add

/-- A store to which tables were added holds the rows of these tables: none is lost, none is
    there twice, and they are in order. Every list of tables gives rows, tables with a mistake
    none. Below the name of a type the store has the rows of each flow kind and the sinks of
    this name in the order of the tables and of their lines; the names are those of the rows,
    and the sizes count the rows. Adding a table fails exactly if it has a malformed line after
    its first one; the error names the first such line, and the store is left as it was. -/
theorem contents_after_additions (additions : List Addition) :
    (∃ flows sinks, Addition.GiveAll additions flows sinks) ∧
    (∀ flows sinks, Addition.GiveAll additions flows sinks →
      (∀ kind, ((empty.addAll additions).flows kind).Contents (·.method.fqn)
        (flows.filter fun row => row.kind = kind)) ∧
      (empty.addAll additions).sinks.Contents (·.method.fqn) sinks) ∧
    ∀ (store : ModelStore) (addition : Addition),
      (∀ error, (store.add addition).2 = some error ↔
        ∃ number reason, addition.FailsAt number reason ∧
          error = .row addition.origin number reason) ∧
      ((store.add addition).2 ≠ none → (store.add addition).1 = store) := by
  refine ⟨Addition.exists_giveAll additions, ?_, ?_⟩
  · intro flows sinks hgive
    have hcontains : (empty.addAll additions).Contains flows sinks := Contains.empty.addAll hgive
    exact ⟨fun kind => (hcontains.flows kind).contents, hcontains.sinks.contents⟩
  · intro store addition
    refine ⟨fun error => add_error_iff, fun hfailed => ?_⟩
    obtain ⟨error, herror⟩ := Option.ne_none_iff_exists'.mp hfailed
    obtain ⟨number, reason, hfails, -⟩ := add_error_iff.mp herror
    rw [add_of_failsAt hfails]

/-- A row about `p.T` after a blank line. -/
def flowTable : String := "header\n\np,T,True,m,,,Argument[0],ReturnValue,taint,x\n"

/-- A row that is too short. -/
def shortTable : String := "header\n \r\np,T\n"

/-- A sink of a type without package, with a quoted comma. -/
def sinkTable : String := "header\n,S,false,run,\"(A,B)\",,Argument[0],sql,x"

/-- The three tables. -/
def threeTables : List Addition :=
  [.flows "a" flowTable, .flows "b" shortTable, .sinks "c" sinkTable]

/-- The row of the first table. -/
def flowRow : FlowModel :=
  ⟨⟨"p", "T", true, "m", "", "", "Argument[0]"⟩, "ReturnValue", .taint, "x"⟩

/-- The row of the last table. -/
def sinkRow : SinkModel := ⟨⟨"", "S", false, "run", "(A,B)", "", "Argument[0]"⟩, "sql", "x"⟩

/-- After the three tables were added, the rows of the first and the last one are in the store,
    and the second one was refused for its third line. -/
theorem contents_after_additions_threeTables :
    Addition.GiveAll threeTables [flowRow] [sinkRow] ∧
    ((empty.addAll threeTables).flows .taint).get "p.T" = [flowRow] ∧
    ((empty.addAll threeTables).flows .taint).size = 1 ∧
    ((empty.addAll threeTables).flows .value).size = 0 ∧
    (empty.addAll threeTables).sinks.get "S" = [sinkRow] ∧
    ∀ store : ModelStore, store.add (.flows "b" shortTable) =
      (store, some (.row "b" 3 (.columnCount 10 2))) := by
  obtain ⟨-, hcontents, hadd⟩ := contents_after_additions threeTables
  have hfirst : Csv.rows "a" FlowModel.ofFields flowTable = .ok [flowRow] :=
    toOption_eq_some_iff.mp (by decide +kernel)
  have hsecond : Csv.rows "b" FlowModel.ofFields shortTable =
      .error (.row "b" 3 (.columnCount 10 2)) := by decide +kernel
  have hthird : Csv.rows "c" SinkModel.ofFields sinkTable = .ok [sinkRow] :=
    toOption_eq_some_iff.mp (by decide +kernel)
  have hrefused : (Addition.flows "b" shortTable).FailsAt 3 (.columnCount 10 2) := by
    obtain ⟨_, _, hfails, heq⟩ := FlowModel.format_decides.rows_eq_error_iff.mp hsecond
    cases heq
    exact hfails
  have hgive : Addition.GiveAll threeTables [flowRow] [sinkRow] :=
    .cons (.flows (FlowModel.format_decides.rows_eq_ok_iff.mp hfirst)) <|
      .cons (.refused hrefused) <|
      .cons (.sinks (SinkModel.format_decides.rows_eq_ok_iff.mp hthird)) .nil
  obtain ⟨hflows, hsinks⟩ := hcontents _ _ hgive
  refine ⟨hgive, ?_, (hflows .taint).size, (hflows .value).size, ?_, fun store => ?_⟩
  · rw [(hflows .taint).get]
    decide +kernel
  · rw [hsinks.get]
    decide +kernel
  · obtain ⟨herror, hkept⟩ := hadd store (.flows "b" shortTable)
    have hfailed := (herror _).mpr ⟨3, _, hrefused, rfl⟩
    exact Prod.ext (hkept (by rw [hfailed]; simp)) hfailed

end ModelStore
end ValueFlow
