/-
  ValueFlow.Proofs.CsvCells

  Lines that are written and lines that are refused.

  A cell is a value in one of its two written forms. Cells that are joined with commas are read
  back. A line is refused exactly if cells with their commas lead to a quote that is closed and
  then followed by something other than a comma: a quote that is never closed cannot stand in
  front of such a place, since the closing quote there would close it. A quote that is never
  closed is an ordinary character, and the line is cut at the commas from there on.
-/

import ValueFlow.Proofs.Csv

namespace ValueFlow
namespace Csv

/-! ## Cells -/

/-- A value as it is written: between quotes, or as it is. -/
inductive Cell where
  | quoted (value : List Char) (free : '"' ∉ value)
  | plain (value : List Char) (free : ',' ∉ value) (unquoted : value.head? ≠ some '"')

namespace Cell

/-- What a cell says. -/
def value : Cell → List Char
  | quoted value _ => value
  | plain value _ _ => value

/-- The text of a cell. -/
def text (cell : Cell) : String := String.ofList cell.value

/-- How a cell is written. -/
def chars : Cell → List Char
  | quoted value _ => '"' :: (value ++ ['"'])
  | plain value _ _ => value

end Cell

/-- Cells with commas between them. -/
def joined (cells : List Cell) : List Char := [','].intercalate (cells.map Cell.chars)

/-- Cells with a comma after each of them. -/
def leading (cells : List Cell) : List Char := cells.flatMap fun cell => cell.chars ++ [',']

section Cells

variable {line value rest tail : List Char} {values : List (List Char)} {cells : List Cell}

theorem leading_cons (cell : Cell) (cells : List Cell) (rest : List Char) :
    leading (cell :: cells) ++ rest = cell.chars ++ ',' :: (leading cells ++ rest) := by
  simp [leading]

theorem joined_concat (cells : List Cell) (last : Cell) :
    joined (cells ++ [last]) = leading cells ++ last.chars := by
  induction cells with
  | nil => simp [joined, leading, List.intercalate]
  | cons cell cells ih =>
    obtain ⟨next, others, hnext⟩ := List.exists_cons_of_ne_nil (l := cells ++ [last]) (by simp)
    rw [leading_cons, ← ih, List.cons_append, hnext]
    simp [joined, List.intercalate]

/-- A cell is the first value of a line if a comma or nothing follows it. -/
theorem Cell.leads (cell : Cell) (hrest : rest = [] ∨ ∃ more, rest = ',' :: more) :
    Leads (cell.chars ++ rest) cell.value rest := by
  cases cell with
  | quoted value free =>
    have hleads : Leads ('"' :: (value ++ '"' :: rest)) value rest := .quoted free
    simpa [chars, Cell.value] using hleads
  | plain value free unquoted =>
    refine .plain ?_ free hrest
    rintro ⟨cs, hcs, -⟩
    cases value with
    | cons c value =>
      cases hcs
      exact unquoted rfl
    | nil =>
      rcases hrest with rfl | ⟨more, rfl⟩
      · cases hcs
      · cases hcs

/-- The first value of a line is a cell if a quote stands behind it: it would close one at the
    start of a plain value. -/
theorem Leads.exists_cell (h : Leads line value rest) (hquote : '"' ∈ rest) :
    ∃ cell : Cell, line = cell.chars ++ rest ∧ value = cell.value := by
  cases h with
  | quoted free => exact ⟨.quoted value free, by simp [Cell.chars], rfl⟩
  | plain hopen free _ =>
    refine ⟨.plain value free fun hhead => hopen ?_, rfl, rfl⟩
    obtain ⟨cs, rfl⟩ := List.head?_eq_some_iff.mp hhead
    exact ⟨cs ++ rest, rfl, List.mem_append_right cs hquote⟩

theorem Splits.leading (h : Splits line values) (cells : List Cell) :
    Splits (leading cells ++ line) (cells.map Cell.value ++ values) := by
  induction cells with
  | nil => exact h
  | cons cell cells ih =>
    rw [leading_cons]
    exact .comma (cell.leads (Or.inr ⟨_, rfl⟩)) ih

theorem Torn.leading (h : Torn line tail) (cells : List Cell) :
    Torn (leading cells ++ line) tail := by
  induction cells with
  | nil => exact h
  | cons cell cells ih =>
    rw [leading_cons]
    exact .comma (cell.leads (Or.inr ⟨_, rfl⟩)) ih

theorem splits_joined (hne : cells ≠ []) : Splits (joined cells) (cells.map Cell.value) := by
  obtain ⟨others, last, rfl⟩ := (List.eq_nil_or_concat cells).resolve_left hne
  have hleads : Leads (last.chars ++ []) last.value [] := last.leads (Or.inl rfl)
  rw [List.append_nil] at hleads
  rw [List.concat_eq_append, joined_concat, List.map_append]
  exact (Splits.last hleads).leading others

/-! ## Torn lines -/

/-- A line is torn where cells and their commas lead to a quote that is closed without a comma
    after it. -/
theorem torn_iff : Torn line tail ↔ ∃ cells value c rest, '"' ∉ value ∧ c ≠ ',' ∧
    line = leading cells ++ '"' :: (value ++ '"' :: c :: rest) ∧ tail = c :: rest := by
  constructor
  · intro h
    induction h with
    | @here line value rest c hleads hne =>
      cases hleads with
      | quoted free => exact ⟨[], value, c, rest, free, hne, rfl, rfl⟩
      | plain _ _ hrest =>
        rcases hrest with hnil | ⟨more, hcomma⟩
        · cases hnil
        · cases hcomma
          exact absurd rfl hne
    | @comma line first rest tail hleads _ ih =>
      obtain ⟨cells, value, c, others, free, hne, rfl, rfl⟩ := ih
      obtain ⟨cell, rfl, rfl⟩ := hleads.exists_cell (by simp)
      exact ⟨cell :: cells, value, c, others, free, hne, (leading_cons ..).symm, rfl⟩
  · rintro ⟨cells, value, c, rest, free, hne, rfl, rfl⟩
    exact (Torn.here (.quoted free) hne).leading cells

/-! ## Open quotes -/

/-- From a quote on that is never closed, a line is cut at its commas. -/
theorem splits_of_open (h : '"' ∉ line.tail) :
    Splits line (Text.splitWhere (fun c => c == ',') line) := by
  induction hlength : line.length using Nat.strong_induction_on generalizing line with
  | _ length ih =>
    have hopen : ¬ StartsQuoted line := by
      rintro ⟨cs, rfl, hclose⟩
      exact h hclose
    by_cases hcomma : ',' ∈ line
    · obtain ⟨value, rest, rfl, hvalue⟩ := List.eq_append_cons_of_mem hcomma
      have hrest : '"' ∉ rest := by
        intro hquote
        refine h ?_
        cases value with
        | nil => exact hquote
        | cons c value => exact List.mem_append_right value (List.mem_cons_of_mem _ hquote)
      rw [Text.splitWhere_append_cons (Text.not_cut_of_not_mem hvalue) (beq_self_eq_true _)]
      refine .comma (.plain hopen hvalue (Or.inr ⟨rest, rfl⟩)) (ih rest.length ?_ ?_ rfl)
      · rw [← hlength, List.length_append, List.length_cons]
        omega
      · exact fun hquote => hrest (List.mem_of_mem_tail hquote)
    · rw [Text.splitWhere_of_not_cut (Text.not_cut_of_not_mem hcomma)]
      exact .last (leads_self hopen hcomma)

theorem not_blank_of_quote (h : '"' ∈ line) : ¬ Blank line := by
  intro hblank
  cases hblank '"' h

end Cells

/-! ## Reading lines -/

section Lines

variable {line body : List Char} {reason : ModelError}

/-- Reading a line fails exactly if it is torn. -/
theorem fields_eq_error_iff (hbody : Content line body) :
    fields line = .error reason ↔
      ∃ tail, Torn body tail ∧ reason = .afterQuote (String.ofList tail) := by
  have hquote : ∀ tail, Torn body tail → ¬ Blank line := by
    intro tail htorn
    obtain ⟨cells, value, c, rest, -, -, rfl, -⟩ := torn_iff.mp htorn
    exact fun hblank => not_blank_of_quote (by simp) (hbody.blank_iff.mpr hblank)
  constructor
  · intro h
    by_cases hblank : Blank line
    · cases (fields_of_blank hblank).symm.trans h
    · rcases splits_or_torn body with ⟨values, hsplits⟩ | ⟨tail, htorn⟩
      · have htexts : Consists line (values.map String.ofList) := ⟨body, values, hbody, hsplits, rfl⟩
        cases (htexts.fields_eq hblank).symm.trans h
      · have htorn' : TornAt line (String.ofList tail) := ⟨body, tail, hbody, htorn, rfl⟩
        cases (htorn'.fields_eq hblank).symm.trans h
        exact ⟨tail, htorn, rfl⟩
  · rintro ⟨tail, htorn, rfl⟩
    have htorn' : TornAt line (String.ofList tail) := ⟨body, tail, hbody, htorn, rfl⟩
    exact htorn'.fields_eq (hquote tail htorn)

/-- Cells that are joined with commas are read back. A line fails exactly if cells lead to a
    quote that is closed without a comma after it, with what follows that quote. Cells that lead
    to a quote which is never closed are read, and what follows is cut at its commas. -/
theorem fields_exact :
    (∀ cells, cells ≠ [] → ¬ Blank (joined cells) → (joined cells).getLast? ≠ some '\r' →
      fields (joined cells) = .ok (cells.map Cell.text)) ∧
    ∀ line body, Content line body →
      (∀ reason, fields line = .error reason ↔ ∃ cells value c rest, '"' ∉ value ∧ c ≠ ',' ∧
        body = leading cells ++ '"' :: (value ++ '"' :: c :: rest) ∧
        reason = .afterQuote (String.ofList (c :: rest))) ∧
      ∀ cells tail, '"' ∉ tail → body = leading cells ++ '"' :: tail →
        fields line = .ok (cells.map Cell.text ++
          (Text.splitWhere (fun c => c == ',') ('"' :: tail)).map String.ofList) := by
  refine ⟨fun cells hne hblank hlast => ?_, fun line body hbody =>
    ⟨fun reason => ?_, fun cells tail hopen heq => ?_⟩⟩
  · have hcontent : Content (joined cells) (joined cells) := ⟨⟨0, by simp⟩, hlast⟩
    have htexts : Consists (joined cells) (cells.map Cell.text) :=
      ⟨_, _, hcontent, splits_joined hne, by rw [List.map_map]; rfl⟩
    exact htexts.fields_eq hblank
  · rw [fields_eq_error_iff hbody]
    simp only [torn_iff]
    constructor
    · rintro ⟨tail, ⟨cells, value, c, rest, free, hne, hline, rfl⟩, rfl⟩
      exact ⟨cells, value, c, rest, free, hne, hline, rfl⟩
    · rintro ⟨cells, value, c, rest, free, hne, hline, rfl⟩
      exact ⟨c :: rest, ⟨cells, value, c, rest, free, hne, hline, rfl⟩, rfl⟩
  · subst heq
    have hcut : Splits ('"' :: tail) (Text.splitWhere (fun c => c == ',') ('"' :: tail)) :=
      splits_of_open hopen
    have htexts : Consists line (cells.map Cell.text ++
        (Text.splitWhere (fun c => c == ',') ('"' :: tail)).map String.ofList) :=
      ⟨_, _, hbody, hcut.leading cells, by rw [List.map_append, List.map_map]; rfl⟩
    refine htexts.fields_eq fun hblank => ?_
    exact not_blank_of_quote (by simp) (hbody.blank_iff.mpr hblank)

/-- Four cells, of which one is quoted for its comma and one is empty. -/
def fourCells : List Cell :=
  [.plain "java.io".toList (by decide) (by decide), .quoted "(String,String)".toList (by decide),
    .plain [] (by decide) (by decide), .plain "a\"b".toList (by decide) (by decide)]

/-- The four cells are read back; text after a closing quote is refused; an open quote is an
    ordinary character. -/
theorem fields_exact_fourCells :
    (joined fourCells = "java.io,\"(String,String)\",,a\"b".toList ∧
      fields (joined fourCells) = .ok ["java.io", "(String,String)", "", "a\"b"]) ∧
    fields "x,\"a\"b,c\r".toList = .error (.afterQuote "b,c") ∧
    fields "x,\"a,b".toList = .ok ["x", "\"a", "b"] := by
  have htorn : Content "x,\"a\"b,c\r".toList "x,\"a\"b,c".toList :=
    ⟨⟨1, by decide⟩, by decide⟩
  have hopen : Content "x,\"a,b".toList "x,\"a,b".toList := ⟨⟨0, by decide⟩, by decide⟩
  refine ⟨⟨by decide, ?_⟩, ?_, ?_⟩
  · exact fields_exact.1 fourCells (by decide) (not_blank_of_quote (by decide)) (by decide)
  · exact ((fields_exact.2 _ _ htorn).1 _).mpr
      ⟨[.plain ['x'] (by decide) (by decide)], ['a'], 'b', [',', 'c'],
        by decide, by decide, by decide, by decide⟩
  · exact (fields_exact.2 _ _ hopen).2 [.plain ['x'] (by decide) (by decide)] ['a', ',', 'b']
      (by decide) (by decide)

end Lines
end Csv
end ValueFlow
