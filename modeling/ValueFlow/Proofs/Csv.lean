/-
  ValueFlow.Proofs.Csv

  What a table says.

  The reader goes over lines and fields with bounded loops. Here the form of a table is said
  without it: which lines a text has (`Text.IsLines`), which values stand on a line
  (`Csv.Splits`), where a line is torn because something other than a comma follows a closing
  quote (`Csv.Torn`), and, for a format of rows, which rows a text holds (`Format.Holds`) and
  what its first mistake is (`Format.FailsAt`). Each relation has exactly one answer, the one
  of the reader. The reader is shown to find every answer, and each text has one.
-/

import Mathlib.Data.List.Forall2
import Mathlib.Data.List.Induction
import Mathlib.Data.List.TakeWhile
import ValueFlow.Model.Csv

namespace ValueFlow

/-! ## Lines -/

namespace Text

/-- The lines of a text: what line ends close, and what stands behind the last line end unless
    it is nothing. -/
def IsLines (cs : List Char) (lines : List (List Char)) : Prop :=
  ∃ closed last, (∀ line ∈ closed, '\n' ∉ line) ∧ '\n' ∉ last ∧
    cs = closed.flatMap (· ++ ['\n']) ++ last ∧
    lines = if last = [] then closed else closed ++ [last]

theorem splitWhere_flatMap {closed : List (List Char)} {last : List Char}
    (hclosed : ∀ line ∈ closed, '\n' ∉ line) (hlast : '\n' ∉ last) :
    splitWhere (fun c => c == '\n') (closed.flatMap (· ++ ['\n']) ++ last) =
      closed ++ [last] := by
  induction closed with
  | nil => exact splitWhere_of_not_cut (not_cut_of_not_mem hlast)
  | cons line closed ih =>
    obtain ⟨hline, hrest⟩ := List.forall_mem_cons.mp hclosed
    rw [List.flatMap_cons, List.append_assoc, List.append_assoc, List.singleton_append,
      splitWhere_append_cons (not_cut_of_not_mem hline) (beq_self_eq_true _), ih hrest]
    rfl

theorem IsLines.eq_lines {cs : List Char} {lines : List (List Char)} (h : IsLines cs lines) :
    lines = Text.lines cs := by
  obtain ⟨closed, last, hclosed, hlast, rfl, rfl⟩ := h
  rw [Text.lines, splitWhere_flatMap hclosed hlast, List.getLast?_concat, List.dropLast_concat]
  simp only [Option.some_inj]

/-- Every text has lines. -/
theorem exists_isLines (cs : List Char) : ∃ lines, IsLines cs lines := by
  suffices h : ∃ (closed : List (List Char)) (last : List Char),
      (∀ line ∈ closed, '\n' ∉ line) ∧ '\n' ∉ last ∧
      cs = closed.flatMap (· ++ ['\n']) ++ last by
    obtain ⟨closed, last, hclosed, hlast, hcs⟩ := h
    exact ⟨_, closed, last, hclosed, hlast, hcs, rfl⟩
  induction hlength : cs.length using Nat.strong_induction_on generalizing cs with
  | _ length ih =>
    by_cases hend : '\n' ∈ cs
    · obtain ⟨line, rest, rfl, hline⟩ := List.eq_append_cons_of_mem hend
      have hlt : rest.length < length := by
        rw [← hlength, List.length_append, List.length_cons]
        omega
      obtain ⟨closed, last, hclosed, hlast, hrest⟩ := ih rest.length hlt rest rfl
      refine ⟨line :: closed, last, List.forall_mem_cons.mpr ⟨hline, hclosed⟩, hlast, ?_⟩
      rw [List.flatMap_cons, List.append_assoc, List.append_assoc, List.singleton_append, ← hrest]
    · exact ⟨[], cs, by simp, hend, rfl⟩

theorem isLines_iff {cs : List Char} {lines : List (List Char)} :
    IsLines cs lines ↔ lines = Text.lines cs := by
  refine ⟨IsLines.eq_lines, ?_⟩
  rintro rfl
  obtain ⟨lines, hlines⟩ := exists_isLines cs
  rwa [hlines.eq_lines] at hlines

/-- Nothing is left of a text without white space at its ends if all of it is white space. -/
theorem trim_eq_nil_iff {cs : List Char} : trim cs = [] ↔ ∀ c ∈ cs, isBlank c = true := by
  -- What is left after the first cut does not start with white space.
  have hends : (∀ c ∈ cs.dropWhile isBlank, isBlank c = true) ↔ ∀ c ∈ cs, isBlank c = true := by
    refine ⟨fun h => List.dropWhile_eq_nil_iff.mp ?_, fun h c hc => ?_⟩
    · by_contra hne
      have hfirst := List.head_dropWhile_not isBlank hne
      rw [h _ (List.head_mem hne)] at hfirst
      cases hfirst
    · exact h c ((List.dropWhile_sublist isBlank).mem hc)
  rw [trim, List.reverse_eq_nil_iff, List.dropWhile_eq_nil_iff, ← hends]
  simp only [List.mem_reverse]

end Text

namespace Csv

/-! ## Fields -/

section Fields

variable {line value rest tail : List Char} {values : List (List Char)}

/-- A line that starts with a quote which is closed. -/
def StartsQuoted (line : List Char) : Prop := ∃ cs, line = '"' :: cs ∧ '"' ∈ cs

/-- The first value of a line and what follows it. A value stands between quotes or reaches to
    the next comma or the end. -/
inductive Leads : List Char → List Char → List Char → Prop where
  | quoted {value rest : List Char} : '"' ∉ value →
      Leads ('"' :: (value ++ '"' :: rest)) value rest
  | plain {value rest : List Char} : ¬ StartsQuoted (value ++ rest) → ',' ∉ value →
      (rest = [] ∨ ∃ more, rest = ',' :: more) → Leads (value ++ rest) value rest

/-- The values of a line, with commas between them. -/
inductive Splits : List Char → List (List Char) → Prop where
  | last {line value : List Char} : Leads line value [] → Splits line [value]
  | comma {line value rest : List Char} {values : List (List Char)} :
      Leads line value (',' :: rest) → Splits rest values → Splits line (value :: values)

/-- Something other than a comma follows a value: the line from there on. -/
inductive Torn : List Char → List Char → Prop where
  | here {line value rest : List Char} {c : Char} : Leads line value (c :: rest) → c ≠ ',' →
      Torn line (c :: rest)
  | comma {line value rest tail : List Char} : Leads line value (',' :: rest) → Torn rest tail →
      Torn line tail

theorem field_of_not_quoted (h : ¬ StartsQuoted line) :
    field line = (line.takeWhile (· != ','), line.dropWhile (· != ',')) := by
  unfold field
  split
  · next cs =>
    have hopen : '"' ∉ cs := fun hmem => h ⟨cs, rfl, hmem⟩
    rw [if_neg (by simpa using hopen)]
  · rfl

theorem ne_of_not_mem {stop : Char} {cs : List Char} (h : stop ∉ cs) :
    ∀ c ∈ cs, (c != stop) = true := by
  intro c hc
  rw [bne, Text.not_cut_of_not_mem h c hc, Bool.not_false]

theorem Leads.field_eq (h : Leads line value rest) : field line = (value, rest) := by
  cases h with
  | @quoted value rest hvalue =>
    have hfree := ne_of_not_mem hvalue
    rw [field, if_pos (by simp), List.takeWhile_append_of_pos hfree,
      List.dropWhile_append_of_pos hfree]
    simp
  | @plain value rest hquote hvalue hrest =>
    have hfree := ne_of_not_mem hvalue
    rw [field_of_not_quoted hquote, List.takeWhile_append_of_pos hfree,
      List.dropWhile_append_of_pos hfree]
    rcases hrest with rfl | ⟨more, rfl⟩
    · simp
    · simp

/-- A line without a comma that starts with no closed quote is one value. -/
theorem leads_self (hquote : ¬ StartsQuoted line) (hcomma : ',' ∉ line) : Leads line line [] := by
  have hplain : Leads (line ++ []) line [] :=
    .plain (by rwa [List.append_nil]) hcomma (Or.inl rfl)
  rwa [List.append_nil] at hplain

/-- Every line has a first value. -/
theorem exists_leads (line : List Char) : ∃ value rest, Leads line value rest := by
  by_cases hquote : StartsQuoted line
  · obtain ⟨cs, rfl, hclose⟩ := hquote
    obtain ⟨value, rest, rfl, hvalue⟩ := List.eq_append_cons_of_mem hclose
    exact ⟨value, rest, .quoted hvalue⟩
  · -- Without a closed quote the value reaches to the first comma or to the end.
    by_cases hcomma : ',' ∈ line
    · obtain ⟨value, more, rfl, hvalue⟩ := List.eq_append_cons_of_mem hcomma
      exact ⟨value, ',' :: more, .plain hquote hvalue (Or.inr ⟨more, rfl⟩)⟩
    · exact ⟨line, [], leads_self hquote hcomma⟩

theorem Leads.length_le (h : Leads line value rest) : rest.length ≤ line.length := by
  cases h with
  | quoted => simp; omega
  | plain => simp

/-- The loop over fields finds the values, given as many rounds as the line has characters. -/
theorem Splits.fieldsUpTo_eq (h : Splits line values) {bound : Nat}
    (hbound : line.length ≤ bound) : fieldsUpTo bound line = .ok values := by
  induction h generalizing bound with
  | last hleads =>
    unfold fieldsUpTo
    rw [hleads.field_eq]
  | @comma line value rest values hleads _ ih =>
    -- The comma is a character of the line, so a round is left for what follows it.
    have hshorter : rest.length + 1 ≤ line.length := hleads.length_le
    obtain ⟨bound, rfl⟩ := Nat.exists_eq_add_one_of_ne_zero (n := bound) (by omega)
    unfold fieldsUpTo
    rw [hleads.field_eq]
    simp only [if_true, ih (Nat.le_of_succ_le_succ (Nat.le_trans hshorter hbound))]
    rfl

theorem Torn.fieldsUpTo_eq (h : Torn line tail) {bound : Nat} (hbound : line.length ≤ bound) :
    fieldsUpTo bound line = .error (.afterQuote (String.ofList tail)) := by
  induction h generalizing bound with
  | here hleads hne =>
    unfold fieldsUpTo
    rw [hleads.field_eq]
    cases bound with
    | zero => rfl
    | succ bound => simp only [if_neg hne]
  | @comma line value rest tail hleads _ ih =>
    have hshorter : rest.length + 1 ≤ line.length := hleads.length_le
    obtain ⟨bound, rfl⟩ := Nat.exists_eq_add_one_of_ne_zero (n := bound) (by omega)
    unfold fieldsUpTo
    rw [hleads.field_eq]
    simp only [if_true, ih (Nat.le_of_succ_le_succ (Nat.le_trans hshorter hbound))]
    rfl

/-- Every line has values or is torn. -/
theorem splits_or_torn (line : List Char) :
    (∃ values, Splits line values) ∨ ∃ tail, Torn line tail := by
  induction hlength : line.length using Nat.strong_induction_on generalizing line with
  | _ length ih =>
    obtain ⟨value, rest, hleads⟩ := exists_leads line
    cases rest with
    | nil => exact Or.inl ⟨[value], .last hleads⟩
    | cons c rest =>
      by_cases hcomma : c = ','
      · subst hcomma
        have hshorter : rest.length + 1 ≤ line.length := hleads.length_le
        rcases ih rest.length (by omega) rest rfl with ⟨values, hvalues⟩ | ⟨tail, htail⟩
        · exact Or.inl ⟨value :: values, .comma hleads hvalues⟩
        · exact Or.inr ⟨tail, .comma hleads htail⟩
      · exact Or.inr ⟨c :: rest, .here hleads hcomma⟩

theorem Splits.ne_nil (h : Splits line values) : values ≠ [] := by
  cases h <;> simp

end Fields

/-! ## Fields of a line -/

section Lines

variable {line body : List Char} {texts : List String}

/-- A line of white space. -/
def Blank (line : List Char) : Prop := ∀ c ∈ line, Text.isBlank c = true

instance decidableBlank (line : List Char) : Decidable (Blank line) :=
  inferInstanceAs (Decidable (∀ c ∈ line, Text.isBlank c = true))

/-- What stands on a line before carriage returns at its end. -/
def Content (line body : List Char) : Prop :=
  (∃ returns, line = body ++ List.replicate returns '\r') ∧ body.getLast? ≠ some '\r'

/-- The texts that a line consists of. -/
def Consists (line : List Char) (texts : List String) : Prop :=
  ∃ body values, Content line body ∧ Splits body values ∧ texts = values.map String.ofList

/-- The text of a line where it is torn. -/
def TornAt (line : List Char) (rest : String) : Prop :=
  ∃ body tail, Content line body ∧ Torn body tail ∧ rest = String.ofList tail

theorem Content.eq_dropReturns (h : Content line body) : body = dropReturns line := by
  obtain ⟨⟨returns, rfl⟩, hlast⟩ := h
  have hreturns : ∀ c ∈ List.replicate returns '\r', (c == '\r') = true := by
    intro c hc
    rw [List.eq_of_mem_replicate hc]
    rfl
  have hbody : body.reverse.dropWhile (· == '\r') = body.reverse := by
    rw [List.dropWhile_eq_self_iff]
    intro hpos hfirst
    rw [beq_iff_eq] at hfirst
    rw [← List.head?_reverse, List.head?_eq_getElem?, List.getElem?_eq_getElem hpos,
      hfirst] at hlast
    exact hlast rfl
  rw [dropReturns, List.reverse_append, List.reverse_replicate,
    List.dropWhile_append_of_pos hreturns, hbody, List.reverse_reverse]

theorem exists_content (line : List Char) : ∃ body, Content line body := by
  induction line using List.reverseRecOn with
  | nil => exact ⟨[], ⟨0, rfl⟩, by simp⟩
  | append_singleton cs c ih =>
    by_cases hreturn : c = '\r'
    · obtain ⟨body, ⟨returns, rfl⟩, hlast⟩ := ih
      refine ⟨body, ⟨returns + 1, ?_⟩, hlast⟩
      rw [hreturn, List.replicate_succ', List.append_assoc]
    · exact ⟨cs ++ [c], ⟨0, by simp⟩, by simpa using hreturn⟩

theorem Content.blank_iff (h : Content line body) : Blank body ↔ Blank line := by
  obtain ⟨⟨returns, rfl⟩, -⟩ := h
  refine ⟨fun hbody c hc => ?_, fun hline c hc => hline c (List.mem_append_left _ hc)⟩
  rcases List.mem_append.mp hc with hc | hc
  · exact hbody c hc
  · rw [List.eq_of_mem_replicate hc]
    rfl

theorem fields_of_blank (h : Blank line) : fields line = .ok [] := by
  obtain ⟨body, hcontent⟩ := exists_content line
  have hempty : Text.trim (dropReturns line) = [] := by
    rw [← hcontent.eq_dropReturns]
    exact Text.trim_eq_nil_iff.mpr (hcontent.blank_iff.mpr h)
  rw [fields, hempty]
  rfl

theorem Content.fields_eq (h : Content line body) (hblank : ¬ Blank line) :
    fields line = (fieldsUpTo body.length body).map fun values => values.map String.ofList := by
  have hne : Text.trim body ≠ [] :=
    fun hempty => hblank (h.blank_iff.mp (Text.trim_eq_nil_iff.mp hempty))
  rw [fields, ← h.eq_dropReturns, if_neg (by simpa using hne)]

theorem Consists.fields_eq (h : Consists line texts) (hblank : ¬ Blank line) :
    fields line = .ok texts := by
  obtain ⟨body, values, hcontent, hsplits, rfl⟩ := h
  rw [hcontent.fields_eq hblank, hsplits.fieldsUpTo_eq (Nat.le_refl _)]
  rfl

theorem TornAt.fields_eq {rest : String} (h : TornAt line rest) (hblank : ¬ Blank line) :
    fields line = .error (.afterQuote rest) := by
  obtain ⟨body, tail, hcontent, htorn, rfl⟩ := h
  rw [hcontent.fields_eq hblank, htorn.fieldsUpTo_eq (Nat.le_refl _)]
  rfl

theorem Consists.ne_nil (h : Consists line texts) : texts ≠ [] := by
  obtain ⟨body, values, -, hsplits, rfl⟩ := h
  rw [Ne, List.map_eq_nil_iff]
  exact hsplits.ne_nil

theorem consists_or_torn (line : List Char) :
    (∃ texts, Consists line texts) ∨ ∃ rest, TornAt line rest := by
  obtain ⟨body, hcontent⟩ := exists_content line
  rcases splits_or_torn body with ⟨values, hvalues⟩ | ⟨tail, htail⟩
  · exact Or.inl ⟨_, body, values, hcontent, hvalues, rfl⟩
  · exact Or.inr ⟨_, body, tail, hcontent, htail, rfl⟩

end Lines

/-! ## Rows of a table -/

/-- A format of rows: which row the texts of a line state, and what is wrong with them. -/
structure Format (α : Type) where
  States : List String → α → Prop
  Wrong : List String → ModelError → Prop

namespace Format

variable {α : Type} (format : Format α)

/-- A line that is not blank states a row. -/
def Reads (line : List Char) (row : α) : Prop :=
  ¬ Blank line ∧ ∃ texts, Consists line texts ∧ format.States texts row

/-- A line that is not blank is torn, or its texts are wrong. -/
def Malformed (line : List Char) (reason : ModelError) : Prop :=
  ¬ Blank line ∧ ((∃ rest, TornAt line rest ∧ reason = .afterQuote rest) ∨
    ∃ texts, Consists line texts ∧ format.Wrong texts reason)

/-- The rows that a text holds: those of its lines but the first one that are not blank. -/
def Holds (text : String) (rows : List α) : Prop :=
  ∃ lines, Text.IsLines text.toList lines ∧
    List.Forall₂ format.Reads (lines.tail.filter fun line => ¬ Blank line) rows

/-- The first malformed line of a text, counted from one and not the first line, and what is
    wrong with it. -/
def FailsAt (text : String) (number : Nat) (reason : ModelError) : Prop :=
  ∃ lines before line after, Text.IsLines text.toList lines ∧
    lines.tail = before ++ line :: after ∧
    (∀ other ∈ before, ∀ mistake, ¬ format.Malformed other mistake) ∧
    format.Malformed line reason ∧ number = before.length + 2

/-- A reader of rows decides a format. -/
structure Decides (read : List String → Except ModelError α) : Prop where
  ok_iff : ∀ texts row, read texts = .ok row ↔ format.States texts row
  error_iff : ∀ texts reason, read texts = .error reason ↔ format.Wrong texts reason

section Decides

variable {format} {read : List String → Except ModelError α} {origin : String} {number : Nat}
  {line : List Char} {lines : List (List Char)}

theorem rowsFrom_blank (h : Blank line) :
    rowsFrom origin read number (line :: lines) = rowsFrom origin read (number + 1) lines := by
  rw [rowsFrom, fields_of_blank h]

theorem Decides.rowsFrom_reads (hd : format.Decides read) {row : α} (h : format.Reads line row) :
    rowsFrom origin read number (line :: lines) =
      (rowsFrom origin read (number + 1) lines).map fun rows => row :: rows := by
  obtain ⟨hblank, texts, htexts, hstates⟩ := h
  obtain ⟨first, others, rfl⟩ := List.exists_cons_of_ne_nil htexts.ne_nil
  rw [rowsFrom, htexts.fields_eq hblank]
  simp only [(hd.ok_iff _ _).mpr hstates]

theorem Decides.rowsFrom_malformed (hd : format.Decides read) {reason : ModelError}
    (h : format.Malformed line reason) :
    rowsFrom origin read number (line :: lines) = .error (.row origin number reason) := by
  obtain ⟨hblank, ⟨rest, htorn, rfl⟩ | ⟨texts, htexts, hwrong⟩⟩ := h
  · rw [rowsFrom, htorn.fields_eq hblank]
  · obtain ⟨first, others, rfl⟩ := List.exists_cons_of_ne_nil htexts.ne_nil
    rw [rowsFrom, htexts.fields_eq hblank]
    simp only [(hd.error_iff _ _).mpr hwrong]

theorem Decides.not_malformed (hd : format.Decides read) {row : α}
    (h : format.Reads line row) (reason : ModelError) : ¬ format.Malformed line reason := by
  intro hmalformed
  have hok : rowsFrom "" read 0 [line] = .ok [row] := hd.rowsFrom_reads h
  rw [hd.rowsFrom_malformed hmalformed] at hok
  cases hok

/-- A line is blank, states a row or is malformed. -/
theorem Decides.line_cases (hd : format.Decides read) (line : List Char) :
    Blank line ∨ (∃ row, format.Reads line row) ∨ ∃ reason, format.Malformed line reason := by
  by_cases hblank : Blank line
  · exact Or.inl hblank
  · rcases consists_or_torn line with ⟨texts, htexts⟩ | ⟨rest, htorn⟩
    · cases hread : read texts with
      | ok row =>
        exact Or.inr (Or.inl ⟨row, hblank, texts, htexts, (hd.ok_iff _ _).mp hread⟩)
      | error reason =>
        exact Or.inr (Or.inr ⟨reason, hblank, Or.inr ⟨texts, htexts, (hd.error_iff _ _).mp hread⟩⟩)
    · exact Or.inr (Or.inr ⟨_, hblank, Or.inl ⟨rest, htorn, rfl⟩⟩)

/-- Lines without a mistake are read to the rows that they state. -/
theorem Decides.rowsFrom_of_forall₂ (hd : format.Decides read) {rows : List α}
    (h : List.Forall₂ format.Reads (lines.filter fun line => ¬ Blank line) rows) :
    rowsFrom origin read number lines = .ok rows := by
  induction lines generalizing number rows with
  | nil =>
    cases h
    rfl
  | cons line lines ih =>
    by_cases hblank : Blank line
    · rw [List.filter_cons_of_neg (by simpa using hblank)] at h
      rw [rowsFrom_blank hblank, ih h]
    · rw [List.filter_cons_of_pos (by simpa using hblank)] at h
      obtain ⟨row, rows, hrow, hrows, rfl⟩ := List.forall₂_cons_left_iff.mp h
      rw [hd.rowsFrom_reads hrow, ih hrows]
      rfl

/-- The first mistake is the one that is reported. -/
theorem Decides.rowsFrom_of_first (hd : format.Decides read) {before after : List (List Char)}
    {reason : ModelError} (hbefore : ∀ other ∈ before, ∀ mistake, ¬ format.Malformed other mistake)
    (h : format.Malformed line reason) :
    rowsFrom origin read number (before ++ line :: after) =
      .error (.row origin (number + before.length) reason) := by
  induction before generalizing number with
  | nil => exact hd.rowsFrom_malformed h
  | cons other before ih =>
    obtain ⟨hother, hbefore⟩ := List.forall_mem_cons.mp hbefore
    have hrest : rowsFrom origin read (number + 1) (before ++ line :: after) =
        .error (.row origin (number + 1 + before.length) reason) := ih hbefore
    rw [List.cons_append, List.length_cons, ← Nat.add_assoc, Nat.add_right_comm]
    -- A line before is blank or read to a row; both leave the error of the rest.
    rcases hd.line_cases other with hblank | ⟨row, hrow⟩ | ⟨mistake, hmistake⟩
    · rw [rowsFrom_blank hblank, hrest]
    · rw [hd.rowsFrom_reads hrow, hrest]
      rfl
    · exact absurd hmistake (hother mistake)

/-- Lines state rows, or there is a first mistake. -/
theorem Decides.forall₂_or_first (hd : format.Decides read) (lines : List (List Char)) :
    (∃ rows, List.Forall₂ format.Reads (lines.filter fun line => ¬ Blank line) rows) ∨
    ∃ before line after reason, lines = before ++ line :: after ∧
      (∀ other ∈ before, ∀ mistake, ¬ format.Malformed other mistake) ∧
      format.Malformed line reason := by
  induction lines with
  | nil => exact Or.inl ⟨[], .nil⟩
  | cons line lines ih =>
    rcases hd.line_cases line with hblank | ⟨row, hrow⟩ | ⟨reason, hreason⟩
    · have hfine : ∀ mistake, ¬ format.Malformed line mistake := fun _ h => h.1 hblank
      rcases ih with ⟨rows, hrows⟩ | ⟨before, bad, after, reason, rfl, hbefore, hbad⟩
      · refine Or.inl ⟨rows, ?_⟩
        rwa [List.filter_cons_of_neg (by simpa using hblank)]
      · exact Or.inr ⟨line :: before, bad, after, reason, rfl,
          List.forall_mem_cons.mpr ⟨hfine, hbefore⟩, hbad⟩
    · rcases ih with ⟨rows, hrows⟩ | ⟨before, bad, after, reason, rfl, hbefore, hbad⟩
      · refine Or.inl ⟨row :: rows, ?_⟩
        rw [List.filter_cons_of_pos (by simpa using hrow.1)]
        exact .cons hrow hrows
      · exact Or.inr ⟨line :: before, bad, after, reason, rfl,
          List.forall_mem_cons.mpr ⟨hd.not_malformed hrow, hbefore⟩, hbad⟩
    · exact Or.inr ⟨[], line, lines, reason, rfl, by simp, hreason⟩

variable {text : String}

theorem Decides.rows_of_holds (hd : format.Decides read) {rows : List α}
    (h : format.Holds text rows) :
    Csv.rows origin read text = .ok rows := by
  obtain ⟨lines, hlines, hrows⟩ := h
  rw [Csv.rows, ← Text.isLines_iff.mp hlines, List.drop_one]
  exact hd.rowsFrom_of_forall₂ hrows

theorem Decides.rows_of_failsAt (hd : format.Decides read) {reason : ModelError}
    (h : format.FailsAt text number reason) :
    Csv.rows origin read text = .error (.row origin number reason) := by
  obtain ⟨lines, before, line, after, hlines, htail, hbefore, hline, rfl⟩ := h
  rw [Csv.rows, ← Text.isLines_iff.mp hlines, List.drop_one, htail, Nat.add_comm before.length]
  exact hd.rowsFrom_of_first hbefore hline

/-- A text holds rows or has a first mistake. -/
theorem Decides.holds_or_failsAt (hd : format.Decides read) (text : String) :
    (∃ rows, format.Holds text rows) ∨ ∃ number reason, format.FailsAt text number reason := by
  obtain ⟨lines, hlines⟩ := Text.exists_isLines text.toList
  rcases hd.forall₂_or_first lines.tail with ⟨rows, hrows⟩ |
    ⟨before, line, after, reason, htail, hbefore, hline⟩
  · exact Or.inl ⟨rows, lines, hlines, hrows⟩
  · exact Or.inr ⟨_, reason, lines, before, line, after, hlines, htail, hbefore, hline, rfl⟩

/-- Reading a table gives the rows that it holds. -/
theorem Decides.rows_eq_ok_iff (hd : format.Decides read) {rows : List α} :
    Csv.rows origin read text = .ok rows ↔ format.Holds text rows := by
  refine ⟨fun h => ?_, hd.rows_of_holds⟩
  rcases hd.holds_or_failsAt text with ⟨others, hothers⟩ | ⟨number, reason, hfails⟩
  · rw [hd.rows_of_holds hothers] at h
    cases h
    exact hothers
  · rw [hd.rows_of_failsAt hfails] at h
    cases h

/-- Reading a table fails with its first mistake. -/
theorem Decides.rows_eq_error_iff (hd : format.Decides read) {error : ModelError} :
    Csv.rows origin read text = .error error ↔
      ∃ number reason, format.FailsAt text number reason ∧ error = .row origin number reason := by
  constructor
  · intro h
    rcases hd.holds_or_failsAt text with ⟨rows, hrows⟩ | ⟨number, reason, hfails⟩
    · rw [hd.rows_of_holds hrows] at h
      cases h
    · rw [hd.rows_of_failsAt hfails] at h
      cases h
      exact ⟨number, reason, hfails, rfl⟩
  · rintro ⟨number, reason, hfails, rfl⟩
    exact hd.rows_of_failsAt hfails

end Decides
end Format
end Csv
end ValueFlow
