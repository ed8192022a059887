/-
  ValueFlow.Proofs.ArgumentRanges

  Which texts are ranges of argument positions.

  A spelling is a text of the form that a range has, cut into its parts so that the first
  number takes all the digits that it can. Every text that is read has a spelling, and a
  spelling is read to the values of its numbers exactly if they fit. The text that a range is
  shown as is one of its spellings, so that ranges are read back.
-/

import ValueFlow.Model.ArgumentRange
import ValueFlow.Proofs.Decimal
import Mathlib.Data.List.TakeWhile

namespace ValueFlow
namespace ArgumentRange

/-! ## Spellings -/

/-- What a text of the form `Argument[i..j]` is made of: an optional sign and digits, up to two
    points, and further digits or none. No digit follows the first ones. -/
structure Spelling where
  negative : Bool
  digits : List Char
  points : Nat
  lastDigits : List Char
  digits_ne_nil : digits ≠ []
  isDigit_digits : ∀ c ∈ digits, Text.isDigit c = true
  points_le : points ≤ 2
  isDigit_lastDigits : ∀ c ∈ lastDigits, Text.isDigit c = true
  longest : ∀ c ∈ (List.replicate points '.' ++ (lastDigits ++ [']'])).head?, Text.isDigit c = false

namespace Spelling

/-- What follows the first number. -/
def rest (spelling : Spelling) : List Char :=
  List.replicate spelling.points '.' ++ (spelling.lastDigits ++ [']'])

/-- The text of a spelling. -/
def chars (spelling : Spelling) : List Char :=
  opening.toList ++ if spelling.negative then '-' :: (spelling.digits ++ spelling.rest)
    else spelling.digits ++ spelling.rest

/-- The value of the first number. -/
def first (spelling : Spelling) : Int :=
  signed spelling.negative (Text.digitsValue spelling.digits)

/-- The value of the second number, or else of the first one. -/
def last (spelling : Spelling) : Int :=
  if spelling.lastDigits = [] then spelling.first else Text.digitsValue spelling.lastDigits

end Spelling

/-! ## Parts of a text -/

theorem ne_of_isDigit {c other : Char} (hc : Text.isDigit c = true)
    (hother : Text.isDigit other = false) : c ≠ other := by
  rintro rfl
  cases hc.symm.trans hother

/-- Points are dropped up to what starts with none. -/
theorem dropPoints_replicate {points count : Nat} (hle : points ≤ count) {cs : List Char}
    (hcs : cs.head? ≠ some '.') : dropPoints count (List.replicate points '.' ++ cs) = cs := by
  induction points generalizing count with
  | zero =>
    rw [List.replicate_zero, List.nil_append]
    unfold dropPoints
    split
    · exact absurd rfl hcs
    · rfl
  | succ points ih =>
    obtain ⟨count, rfl⟩ := Nat.exists_eq_add_one_of_ne_zero (n := count) (by omega)
    rw [List.replicate_succ, List.cons_append, dropPoints]
    exact ih (Nat.le_of_succ_le_succ hle)

theorem exists_points (count : Nat) (cs : List Char) :
    ∃ points ≤ count, cs = List.replicate points '.' ++ dropPoints count cs := by
  fun_induction dropPoints count cs with
  | case1 count cs ih =>
    obtain ⟨points, hle, heq⟩ := ih
    refine ⟨points + 1, Nat.succ_le_succ hle, ?_⟩
    rw [List.replicate_succ, List.cons_append, ← heq]
  | case2 count cs => exact ⟨0, Nat.zero_le _, rfl⟩

/-- The second number, digits in front of a closing bracket, is their value if there are any. -/
theorem last?_digits {first : Int} {digits : List Char}
    (hdigits : ∀ c ∈ digits, Text.isDigit c = true) :
    last? first (digits ++ [']']) =
      if digits = [] then some first else int32? (Text.digitsValue digits) := by
  have hclose : ∀ c ∈ [']'].head?, Text.isDigit c = false := by
    intro c hc
    cases hc
    rfl
  obtain ⟨htake, hdrop⟩ := Text.takeWhile_digits hdigits hclose
  simp only [last?, htake, hdrop, List.isEmpty_iff, if_true]

theorem exists_of_last? {first : Int} {cs : List Char} (h : last? first cs ≠ none) :
    ∃ digits, (∀ c ∈ digits, Text.isDigit c = true) ∧ cs = digits ++ [']'] := by
  by_cases hclose : cs.dropWhile Text.isDigit = [']']
  · refine ⟨cs.takeWhile Text.isDigit, fun c => List.mem_takeWhile_imp, ?_⟩
    rw [← hclose, List.takeWhile_append_dropWhile]
  · exact absurd (if_neg hclose) h

section Parse

variable {text : String} {cs : List Char} {negative : Bool}

theorem parse?_of_opening (h : text.toList = opening.toList ++ cs) :
    parse? text = numbers? (cs.head? == some '-')
      (if cs.head? == some '-' then cs.drop 1 else cs) := by
  have hopening : opening.toList.isPrefixOf text.toList = true := by
    rw [h, List.isPrefixOf_iff_prefix]
    exact List.prefix_append _ _
  rw [parse?, if_pos hopening, h, List.drop_left]

theorem parse?_of_sign (h : text.toList = opening.toList ++ '-' :: cs) :
    parse? text = numbers? true cs :=
  parse?_of_opening h

theorem parse?_of_no_sign (h : text.toList = opening.toList ++ cs)
    (hsign : cs.head? ≠ some '-') : parse? text = numbers? false cs := by
  rw [parse?_of_opening h, beq_eq_false_iff_ne.mpr hsign]
  rfl

theorem exists_of_parse? (h : parse? text ≠ none) : ∃ cs, text.toList = opening.toList ++ cs := by
  by_cases hopening : opening.toList.isPrefixOf text.toList = true
  · obtain ⟨cs, hcs⟩ := List.isPrefixOf_iff_prefix.mp hopening
    exact ⟨cs, hcs.symm⟩
  · rw [parse?, if_neg hopening] at h
    exact absurd rfl h

theorem Spelling.dropPoints_rest (spelling : Spelling) :
    dropPoints 2 spelling.rest = spelling.lastDigits ++ [']'] := by
  refine dropPoints_replicate spelling.points_le ?_
  cases hdigits : spelling.lastDigits with
  | nil => decide
  | cons c digits =>
    have hc := spelling.isDigit_lastDigits c (hdigits ▸ List.mem_cons_self)
    exact fun heq => ne_of_isDigit hc (by decide) (Option.some.inj heq)

theorem Spelling.last?_eq (spelling : Spelling) (hfirst : Fits spelling.first) :
    last? spelling.first (spelling.lastDigits ++ [']']) = int32? spelling.last := by
  rw [last?_digits spelling.isDigit_lastDigits, Spelling.last]
  split
  · rw [int32?, if_pos hfirst]
  · rfl

/-- A spelling is read to the values of its numbers if they fit. -/
theorem numbers?_eq (spelling : Spelling) :
    numbers? spelling.negative (spelling.digits ++ spelling.rest) =
      if Fits spelling.first ∧ Fits spelling.last then some ⟨spelling.first, spelling.last⟩
      else none := by
  obtain ⟨htake, hdrop⟩ := Text.takeWhile_digits spelling.isDigit_digits spelling.longest
  have hne : ¬ spelling.digits.isEmpty = true := by simpa using spelling.digits_ne_nil
  have hnumbers : numbers? spelling.negative (spelling.digits ++ spelling.rest) =
      (int32? spelling.first).bind fun first =>
        (last? first (dropPoints 2 spelling.rest)).bind fun last => some ⟨first, last⟩ := by
    rw [numbers?, Spelling.rest, htake, hdrop, if_neg hne]
    rfl
  rw [hnumbers, spelling.dropPoints_rest, int32?]
  by_cases hfirst : Fits spelling.first
  · rw [if_pos hfirst, Option.bind_some, spelling.last?_eq hfirst, int32?]
    by_cases hlast : Fits spelling.last
    · rw [if_pos hlast, if_pos ⟨hfirst, hlast⟩, Option.bind_some]
    · rw [if_neg hlast, if_neg fun hboth => hlast hboth.2, Option.bind_none]
  · rw [if_neg hfirst, if_neg fun hboth => hfirst hboth.1, Option.bind_none]

/-- What is read has a spelling. -/
theorem exists_of_numbers? (h : numbers? negative cs ≠ none) :
    ∃ spelling : Spelling, spelling.negative = negative ∧
      cs = spelling.digits ++ spelling.rest := by
  rw [numbers?] at h
  split at h
  · exact absurd rfl h
  · next hne =>
    obtain ⟨range, hrange⟩ := Option.ne_none_iff_exists'.mp h
    obtain ⟨first, -, hrange⟩ := Option.bind_eq_some_iff.mp hrange
    obtain ⟨last, hlast, -⟩ := Option.bind_eq_some_iff.mp hrange
    obtain ⟨lastDigits, hlastDigits, hclose⟩ :=
      exists_of_last? (hlast ▸ Option.some_ne_none last)
    obtain ⟨points, hpoints, hrest⟩ := exists_points 2 (cs.dropWhile Text.isDigit)
    rw [hclose] at hrest
    refine ⟨⟨negative, cs.takeWhile Text.isDigit, points, lastDigits, by simpa using hne,
      fun c => List.mem_takeWhile_imp, hpoints, hlastDigits, ?_⟩, rfl, ?_⟩
    · intro c hc
      have hnot := List.head?_dropWhile_not Text.isDigit cs
      rwa [hrest, hc] at hnot
    · show cs = cs.takeWhile Text.isDigit ++ (List.replicate points '.' ++ (lastDigits ++ [']']))
      rw [← hrest, List.takeWhile_append_dropWhile]

theorem Spelling.head?_digits (spelling : Spelling) (rest : List Char) :
    (spelling.digits ++ rest).head? ≠ some '-' := by
  obtain ⟨c, digits, hdigits⟩ := List.exists_cons_of_ne_nil spelling.digits_ne_nil
  have hc := spelling.isDigit_digits c (hdigits ▸ List.mem_cons_self)
  rw [hdigits]
  exact fun heq => ne_of_isDigit hc (by decide) (Option.some.inj heq)

theorem Spelling.parse?_eq (spelling : Spelling) (h : text.toList = spelling.chars) :
    parse? text = if Fits spelling.first ∧ Fits spelling.last
      then some ⟨spelling.first, spelling.last⟩ else none := by
  rw [← numbers?_eq]
  cases hnegative : spelling.negative with
  | true =>
    rw [Spelling.chars, if_pos hnegative] at h
    rw [parse?_of_sign h]
  | false =>
    rw [Spelling.chars, if_neg (by simp [hnegative])] at h
    rw [parse?_of_no_sign h (spelling.head?_digits _)]

theorem exists_spelling (h : parse? text ≠ none) :
    ∃ spelling : Spelling, text.toList = spelling.chars := by
  obtain ⟨cs, hcs⟩ := exists_of_parse? h
  by_cases hsign : cs.head? = some '-'
  · obtain ⟨cs, rfl⟩ := List.head?_eq_some_iff.mp hsign
    rw [parse?_of_sign hcs] at h
    obtain ⟨spelling, hnegative, rfl⟩ := exists_of_numbers? h
    refine ⟨spelling, ?_⟩
    rw [hcs, Spelling.chars, if_pos hnegative]
  · rw [parse?_of_no_sign hcs hsign] at h
    obtain ⟨spelling, hnegative, rfl⟩ := exists_of_numbers? h
    refine ⟨spelling, ?_⟩
    rw [hcs, Spelling.chars, if_neg (by simp [hnegative])]

/-- A text is read to a range exactly if it spells its two ends and they fit. -/
theorem parse?_eq_some_iff {range : ArgumentRange} :
    parse? text = some range ↔ ∃ spelling : Spelling, text.toList = spelling.chars ∧
      Fits spelling.first ∧ Fits spelling.last ∧ range = ⟨spelling.first, spelling.last⟩ := by
  constructor
  · intro h
    obtain ⟨spelling, htext⟩ := exists_spelling (h ▸ Option.some_ne_none range)
    rw [spelling.parse?_eq htext] at h
    split at h
    · next hfits => exact ⟨spelling, htext, hfits.1, hfits.2, (Option.some.inj h).symm⟩
    · cases h
  · rintro ⟨spelling, htext, hfirst, hlast, rfl⟩
    rw [spelling.parse?_eq htext, if_pos ⟨hfirst, hlast⟩]

end Parse

/-! ## Ranges as they are shown -/

/-- The spelling of an integer, or of two with points between them. -/
def Spelling.ofInt (first : Int) (last : Option Nat) : Spelling where
  negative := first < 0
  digits := Nat.toDigits 10 first.natAbs
  points := if last.isSome then 2 else 0
  lastDigits := last.elim [] (Nat.toDigits 10)
  digits_ne_nil := Nat.toDigits_ne_nil
  isDigit_digits _ := Text.isDigit_of_mem_toDigits
  points_le := by split <;> decide
  isDigit_lastDigits := by
    cases last with
    | none => simp
    | some last => exact fun _ => Text.isDigit_of_mem_toDigits
  longest := by
    intro c hc
    cases last with
    | none =>
      cases hc
      rfl
    | some last =>
      cases hc
      rfl

section OfInt

variable (first : Int) (last : Option Nat)

theorem Spelling.negative_ofInt : (ofInt first last).negative = decide (first < 0) := rfl

theorem Spelling.digits_ofInt : (ofInt first last).digits = Nat.toDigits 10 first.natAbs := rfl

theorem Spelling.lastDigits_ofInt :
    (ofInt first last).lastDigits = last.elim [] (Nat.toDigits 10) := rfl

theorem Spelling.first_ofInt : (ofInt first last).first = first := by
  rw [Spelling.first, digits_ofInt, Text.digitsValue_toDigits, signed, negative_ofInt]
  by_cases hneg : first < 0
  · rw [if_pos (decide_eq_true hneg)]
    omega
  · rw [if_neg (by simpa using hneg)]
    omega

theorem Spelling.last_ofInt :
    (ofInt first last).last = last.elim first fun n => (n : Int) := by
  rw [Spelling.last, lastDigits_ofInt, first_ofInt]
  cases last with
  | none => rfl
  | some last =>
    rw [Option.elim_some, Option.elim_some, if_neg Nat.toDigits_ne_nil, Text.digitsValue_toDigits]

theorem Spelling.chars_ofInt :
    (ofInt first last).chars =
      opening.toList ++ ((toString first).toList ++ (ofInt first last).rest) := by
  rw [Spelling.chars, negative_ofInt, digits_ofInt, Text.toList_toString]
  by_cases hneg : first < 0
  · rw [if_pos (decide_eq_true hneg), if_neg (by omega), List.cons_append]
  · rw [if_neg (by simpa using hneg), if_pos (by omega)]

end OfInt

/-- A range is shown as one of its spellings: the second number is left out if it is the
    first. -/
theorem toList_text {range : ArgumentRange} (h : range.last = range.first ∨ 0 ≤ range.last) :
    ∃ spelling : Spelling, range.text.toList = spelling.chars ∧
      spelling.first = range.first ∧ spelling.last = range.last := by
  rw [text]
  split
  · next hsame =>
    refine ⟨.ofInt range.first none, ?_, Spelling.first_ofInt _ _, ?_⟩
    · rw [Spelling.chars_ofInt, String.toList_append, String.toList_append, List.append_assoc]
      rfl
    · rw [Spelling.last_ofInt, Option.elim_none, hsame]
  · next hother =>
    have hnonneg : 0 ≤ range.last := h.resolve_left fun heq => hother heq.symm
    refine ⟨.ofInt range.first (some range.last.natAbs), ?_, Spelling.first_ofInt _ _, ?_⟩
    · have hlast : (toString range.last).toList = Nat.toDigits 10 range.last.natAbs := by
        rw [Text.toList_toString, if_pos hnonneg]
      simp only [String.toList_append, hlast, Spelling.chars_ofInt, List.append_assoc]
      rfl
    · rw [Spelling.last_ofInt, Option.elim_some]
      omega

/-- A second number has no sign. -/
theorem Spelling.last_eq_or_nonneg (spelling : Spelling) :
    spelling.last = spelling.first ∨ 0 ≤ spelling.last := by
  rw [Spelling.last]
  split
  · exact Or.inl rfl
  · exact Or.inr (Int.natCast_nonneg _)

theorem parse?_text {range : ArgumentRange} (hfirst : Fits range.first) (hlast : Fits range.last)
    (h : range.last = range.first ∨ 0 ≤ range.last) : parse? range.text = some range := by
  obtain ⟨spelling, htext, hsameFirst, hsameLast⟩ := toList_text h
  refine parse?_eq_some_iff.mpr ⟨spelling, htext, ?_⟩
  rw [hsameFirst, hsameLast]
  exact ⟨hfirst, hlast, rfl⟩

theorem exists_parse?_iff {range : ArgumentRange} :
    (∃ text, parse? text = some range) ↔ Fits range.first ∧ Fits range.last ∧
      (range.last = range.first ∨ 0 ≤ range.last) := by
  constructor
  · rintro ⟨text, htext⟩
    obtain ⟨spelling, -, hfirst, hlast, rfl⟩ := parse?_eq_some_iff.mp htext
    exact ⟨hfirst, hlast, spelling.last_eq_or_nonneg⟩
  · rintro ⟨hfirst, hlast, h⟩
    exact ⟨range.text, parse?_text hfirst hlast h⟩

/-- A text is read to a range exactly if it spells two numbers that fit and are its ends. The
    ranges that are read are those whose ends fit and whose last position is the first one or
    not negative, and they are read back from what they are shown as. -/
theorem parse?_exact (range : ArgumentRange) :
    (∀ text, parse? text = some range ↔ ∃ spelling : Spelling, text.toList = spelling.chars ∧
      Fits spelling.first ∧ Fits spelling.last ∧ range = ⟨spelling.first, spelling.last⟩) ∧
    ((∃ text, parse? text = some range) ↔ Fits range.first ∧ Fits range.last ∧
      (range.last = range.first ∨ 0 ≤ range.last)) ∧
    ((∃ text, parse? text = some range) → parse? range.text = some range) := by
  refine ⟨fun text => parse?_eq_some_iff, exists_parse?_iff, fun h => ?_⟩
  obtain ⟨hfirst, hlast, hform⟩ := exists_parse?_iff.mp h
  exact parse?_text hfirst hlast hform

/-- One point and leading zeros are read, and shown in the usual form. -/
theorem parse?_exact_oddSpelling :
    parse? "Argument[-01.7]" = some ⟨-1, 7⟩ ∧ text ⟨-1, 7⟩ = "Argument[-1..7]" ∧
      parse? (text ⟨-1, 7⟩) = some ⟨-1, 7⟩ := by
  have hread : parse? "Argument[-01.7]" = some ⟨-1, 7⟩ := by decide +kernel
  exact ⟨hread, by decide +kernel, (parse?_exact ⟨-1, 7⟩).2.2 ⟨_, hread⟩⟩

end ArgumentRange
end ValueFlow
