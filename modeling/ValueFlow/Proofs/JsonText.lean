/-
  ValueFlow.Proofs.JsonText

  JSON text is read back as it was written.

  Each part of the writer has its counterpart in the parser: the characters of a string,
  the digits of a number, the items and fields between their blanks. A value is read back
  from its text if its numbers are integers of 64 bits, if it is not nested too deeply, and
  if the shape that is read has all its fields.
-/

import ValueFlow.Json.Parser
import ValueFlow.Proofs.Decimal
import Mathlib.Data.List.DropRight
import Mathlib.Tactic.IntervalCases

namespace ValueFlow
namespace Json

/-- A property of all values that passes from the items and fields of a value to the
    value. -/
theorem induction {P : Json → Prop} (null : P .null) (bool : ∀ value, P (.bool value))
    (int : ∀ value, P (.int value)) (real : ∀ value, P (.real value))
    (str : ∀ value, P (.str value))
    (arr : ∀ items, (∀ item ∈ items, P item) → P (.arr items))
    (obj : ∀ fields, (∀ field ∈ fields, P field.2) → P (.obj fields)) (value : Json) : P value :=
  @Json.rec P (fun items => ∀ item ∈ items, P item) (fun fields => ∀ field ∈ fields, P field.2)
    (fun field => P field.2) null bool int real str arr obj (by simp)
    (fun _ _ hitem hitems => List.forall_mem_cons.mpr ⟨hitem, hitems⟩) (by simp)
    (fun _ _ hfield hfields => List.forall_mem_cons.mpr ⟨hfield, hfields⟩)
    (fun _ _ hvalue => hvalue) value

/-! ## What a value has to be like -/

mutual

/-- How many arrays and objects stand inside one another. -/
def nesting : Json → Nat
  | .arr items => nestingItems items + 1
  | .obj fields => nestingFields fields + 1
  | _ => 0

/-- The deepest nesting of the items of an array. -/
def nestingItems : List Json → Nat
  | [] => 0
  | item :: rest => max item.nesting (nestingItems rest)

/-- The deepest nesting of the fields of an object. -/
def nestingFields : List (String × Json) → Nat
  | [] => 0
  | (_, value) :: rest => max value.nesting (nestingFields rest)

end

mutual

/-- Whether all numbers are integers of 64 bits. -/
def isIntegral : Json → Bool
  | .int value => Parser.fits64 value
  | .real _ => false
  | .arr items => areIntegral items
  | .obj fields => haveIntegral fields
  | _ => true

/-- Whether all numbers among the items of an array are integers of 64 bits. -/
def areIntegral : List Json → Bool
  | [] => true
  | item :: rest => item.isIntegral && areIntegral rest

/-- Whether all numbers among the fields of an object are integers of 64 bits. -/
def haveIntegral : List (String × Json) → Bool
  | [] => true
  | (_, value) :: rest => value.isIntegral && haveIntegral rest

end

mutual

/-- Whether a shape passes over no field of a value. -/
def Shape.covers (shape : Shape) : Json → Bool
  | .arr members => shape.coversItems 0 members
  | .obj members => shape.coversFields members
  | _ => true

/-- Whether a shape passes over no field of the items from a place on. -/
def Shape.coversItems (shape : Shape) (place : Nat) : List Json → Bool
  | [] => true
  | item :: rest => (shape.item place).covers item && shape.coversItems (place + 1) rest

/-- Whether a shape passes over none of the fields. -/
def Shape.coversFields (shape : Shape) : List (String × Json) → Bool
  | [] => true
  | (name, value) :: rest =>
    (match shape.field? name with
      | some inner => inner.covers value
      | none => false) && shape.coversFields rest

end

/-- Everything is read of what is read whole. -/
theorem Shape.covers_whole (value : Json) : Shape.whole.covers value = true := by
  induction value using Json.induction with
  | arr members ih =>
    rw [covers]
    generalize 0 = place
    induction members generalizing place with
    | nil => rfl
    | cons member members ihMembers =>
      obtain ⟨hmember, hmembers⟩ := List.forall_mem_cons.mp ih
      rw [coversItems, ihMembers hmembers, Bool.and_true]
      exact hmember
  | obj members ih =>
    rw [covers]
    induction members with
    | nil => rfl
    | cons member members ihMembers =>
      obtain ⟨hmember, hmembers⟩ := List.forall_mem_cons.mp ih
      rw [coversFields, ihMembers hmembers, Bool.and_true]
      exact hmember
  | _ => rfl

theorem Shape.coversItems_items {inner : Shape} {values : List Json}
    (h : ∀ value ∈ values, inner.covers value = true) (place : Nat) :
    (Shape.items inner).coversItems place values = true := by
  induction values generalizing place with
  | nil => rfl
  | cons value values ih =>
    obtain ⟨hvalue, hvalues⟩ := List.forall_mem_cons.mp h
    rw [coversItems, ih hvalues, Bool.and_true]
    exact hvalue

namespace Parser

/-! ## Blanks -/

theorem skipBlanks_cons {c : Char} (h : isBlank c = false) (cs : List Char) :
    skipBlanks (c :: cs) = c :: cs :=
  List.dropWhile_cons_of_neg (Bool.eq_false_iff.mp h)

theorem skipBlanks_skipBlanks (cs : List Char) :
    skipBlanks (skipBlanks cs) = skipBlanks cs :=
  List.dropWhile_idempotent _ _

theorem toList_newline (level : Nat) :
    (newline level).toList = '\n' :: List.replicate (2 * level) ' ' := by
  simp [newline]

theorem isBlank_of_mem_newline {level : Nat} {c : Char} (h : c ∈ (newline level).toList) :
    isBlank c = true := by
  rw [toList_newline, List.mem_cons, List.mem_replicate] at h
  rcases h with rfl | ⟨-, rfl⟩ <;> rfl

theorem skipBlanks_append {blanks : List Char} (h : ∀ c ∈ blanks, isBlank c = true)
    (cs : List Char) : skipBlanks (blanks ++ cs) = skipBlanks cs :=
  List.dropWhile_append_of_pos h

theorem skipBlanks_newline (level : Nat) (cs : List Char) :
    skipBlanks ((newline level).toList ++ cs) = skipBlanks cs :=
  skipBlanks_append (fun _ => isBlank_of_mem_newline) cs

/-! ## Numbers -/

/-- A number ends where this text starts. -/
def Ends (rest : List Char) : Prop :=
  ∀ c ∈ rest.head?, Text.isDigit c = false ∧ c ≠ '.' ∧ c ≠ 'e' ∧ c ≠ 'E'

theorem ends_nil : Ends [] := by simp [Ends]

theorem ends_cons {c : Char} (h : Text.isDigit c = false ∧ c ≠ '.' ∧ c ≠ 'e' ∧ c ≠ 'E')
    (cs : List Char) : Ends (c :: cs) := by
  simpa [Ends] using h

theorem ends_newline (level : Nat) (cs : List Char) :
    Ends ((newline level).toList ++ cs) := by
  rw [toList_newline]
  exact ends_cons (by decide) _

/-- Only zero is written with a leading zero. -/
theorem head?_toDigits {n : Nat} (h : 0 < n) : (Nat.toDigits 10 n).head? ≠ some '0' := by
  have hdigit : ∀ d < 10, 0 < d → [Nat.digitChar d].head? ≠ some '0' := by decide
  induction n using Nat.strongRecOn with
  | _ n ih =>
    rw [Nat.toDigits_eq_if (by decide)]
    split
    · next hlt => exact hdigit n hlt h
    · next hle =>
      -- A longer number starts like its tenth does.
      have hlead := ih (n / 10) (by omega) (by omega)
      cases hdigits : Nat.toDigits 10 (n / 10) with
      | nil => exact absurd hdigits Nat.toDigits_ne_nil
      | cons d ds =>
        rw [hdigits] at hlead
        exact hlead

theorem takeWhile_toDigits (n : Nat) {rest : List Char} (h : Ends rest) :
    (Nat.toDigits 10 n ++ rest).takeWhile Text.isDigit = Nat.toDigits 10 n ∧
      (Nat.toDigits 10 n ++ rest).dropWhile Text.isDigit = rest :=
  Text.takeWhile_digits (fun _ => Text.isDigit_of_mem_toDigits) fun c hc => (h c hc).1

theorem fraction?_of_ends {rest : List Char} (h : Ends rest) :
    fraction? rest = some ([], rest) := by
  rw [fraction?.eq_def]
  split
  · exact absurd rfl (h '.' rfl).2.1
  · rfl

theorem exponent?_of_ends {rest : List Char} (h : Ends rest) :
    exponent? rest = some (none, rest) := by
  cases rest with
  | nil => rfl
  | cons c cs =>
    obtain ⟨-, -, he, hE⟩ := h c rfl
    simp [exponent?, he, hE]

theorem hasNoLeadingZero_toDigits (n : Nat) :
    ((Nat.toDigits 10 n).length > 1 && (Nat.toDigits 10 n).head? == some '0') = false := by
  rcases Nat.eq_zero_or_pos n with rfl | hpos
  · rfl
  · rw [Bool.and_eq_false_iff, beq_eq_false_iff_ne]
    exact Or.inr (head?_toDigits hpos)

theorem toDigits_append_ne_sign (n : Nat) (rest cs : List Char) :
    Nat.toDigits 10 n ++ rest ≠ '-' :: cs := by
  intro heq
  cases hdigits : Nat.toDigits 10 n with
  | nil => exact absurd hdigits Nat.toDigits_ne_nil
  | cons d ds =>
    rw [hdigits, List.cons_append, List.cons.injEq] at heq
    have hdigit : Text.isDigit d = true :=
      Text.isDigit_of_mem_toDigits (hdigits ▸ List.mem_cons_self)
    rw [heq.1] at hdigit
    exact absurd hdigit (by decide)

/-- Digits are read back, with or without a sign before them. -/
theorem numeral?_toDigits (n : Nat) {rest : List Char} (h : Ends rest) :
    numeral? (Nat.toDigits 10 n ++ rest) = some (⟨false, Nat.toDigits 10 n, [], none⟩, rest) ∧
    numeral? ('-' :: (Nat.toDigits 10 n ++ rest)) =
      some (⟨true, Nat.toDigits 10 n, [], none⟩, rest) := by
  obtain ⟨htake, hdrop⟩ := takeWhile_toDigits n h
  have hne : (Nat.toDigits 10 n).isEmpty = false := by simp [Nat.toDigits_ne_nil]
  refine ⟨?_, ?_⟩
  · rw [numeral?]
    · simp only [htake, hdrop, hne, hasNoLeadingZero_toDigits, fraction?_of_ends h,
        exponent?_of_ends h, Bool.false_eq_true, ↓reduceIte, Option.bind_eq_bind, Option.bind_some]
    · exact fun cs heq => toDigits_append_ne_sign n rest cs heq
  · simp only [numeral?, htake, hdrop, hne, hasNoLeadingZero_toDigits, fraction?_of_ends h,
      exponent?_of_ends h, Bool.false_eq_true, ↓reduceIte, Option.bind_eq_bind, Option.bind_some]

/-- The value of a number without fraction and exponent. -/
theorem Numeral.value?_toDigits {negative : Bool} {n : Nat}
    (hfits : fits64 (if negative then -(n : Int) else n) = true)
    (hzero : negative = true → n ≠ 0) :
    (⟨negative, Nat.toDigits 10 n, [], none⟩ : Numeral).value? =
      some (.int (if negative then -(n : Int) else n)) := by
  have hsigned : (negative && (n : Int) == 0) = false := by
    cases negative with
    | false => rfl
    | true => simpa using hzero rfl
  simp only [value?, Text.digitsValue_toDigits, hfits, hsigned, List.isEmpty_nil, Option.isNone_none,
    Bool.and_self, Bool.not_false, ↓reduceIte]

theorem number?_eq_some {cs rest : List Char} {numeral : Numeral} {value : Json}
    (hnumeral : numeral? cs = some (numeral, rest)) (hvalue : numeral.value? = some value) :
    number? cs = some (value, rest) := by
  simp only [number?, hnumeral, Option.bind_eq_bind, Option.bind_some, hvalue, Option.map_some]

/-- An integer is read back. -/
theorem number?_toString {value : Int} (hfits : fits64 value = true) {rest : List Char}
    (h : Ends rest) : number? ((toString value).toList ++ rest) = some (.int value, rest) := by
  rw [Text.toList_toString]
  split
  · next hnonneg =>
    have habs : (value.natAbs : Int) = value := Int.natAbs_of_nonneg hnonneg
    have hvalue := @Numeral.value?_toDigits false value.natAbs
    simp only [Bool.false_eq_true, ↓reduceIte, habs, hfits, false_implies, forall_const] at hvalue
    exact number?_eq_some (numeral?_toDigits _ h).1 hvalue
  · next hneg =>
    have habs : -(value.natAbs : Int) = value := by omega
    -- Zero has no sign: with one it would be read as a real number.
    have hzero : value.natAbs ≠ 0 := by omega
    have hvalue := @Numeral.value?_toDigits true value.natAbs
    simp only [↓reduceIte, habs, hfits, hzero, ne_eq, not_false_eq_true, forall_const] at hvalue
    exact number?_eq_some (numeral?_toDigits _ h).2 hvalue

/-! ## Strings -/

/-- A control character is read back from its number. -/
theorem unicodeEscape?_hexDigits {c : Char} (h : c.toNat < 0x20) (cs : List Char) :
    unicodeEscape? (List.replicate (4 - (Text.hexDigits c.toNat).length) '0' ++
      (Text.hexDigits c.toNat ++ cs)) = some (c, cs) := by
  have hall : ∀ n < 0x20, unicodeEscape?
      (List.replicate (4 - (Text.hexDigits n).length) '0' ++ (Text.hexDigits n ++ cs)) =
        some (Char.ofNat n, cs) := by
    intro n hn
    interval_cases n <;> rfl
  rw [hall _ h, Char.ofNat_toNat]

/-- A character is read back from its escape. -/
theorem stringRest?_textChar (fuel : Nat) (acc : List Char) (c : Char) (cs : List Char) :
    stringRest? (fuel + 1) acc (textChar c ++ cs) = stringRest? fuel (c :: acc) cs := by
  rw [textChar]
  -- The escapes of one letter come first, in the order in which they are tried.
  split
  · next h => subst h; rfl
  split
  · next h => subst h; rfl
  split
  · next h => subst h; rfl
  split
  · next h => subst h; rfl
  split
  · next h => subst h; rfl
  split
  · next h => subst h; rfl
  split
  · next h => subst h; rfl
  split
  · next hcontrol =>
    have hescape : escape? ('u' :: (List.replicate (4 - (Text.hexDigits c.toNat).length) '0' ++
        (Text.hexDigits c.toNat ++ cs))) = some (c, cs) := unicodeEscape?_hexDigits hcontrol cs
    simp only [String.reduceToList, List.cons_append, List.nil_append, List.append_assoc,
      stringRest?, hescape, Char.reduceEq, ↓reduceIte]
  · next hquote hbackslash _ _ _ _ _ hprintable =>
    rw [List.singleton_append, stringRest?, if_neg hquote, if_neg hbackslash, if_neg hprintable]

theorem stringRest?_flatMap (text : List Char) (fuel : Nat) (acc rest : List Char)
    (hfuel : text.length < fuel) :
    stringRest? fuel acc (text.flatMap textChar ++ '"' :: rest) =
      some (String.ofList (acc.reverse ++ text), rest) := by
  induction text generalizing fuel acc with
  | nil =>
    obtain ⟨fuel, rfl⟩ := Nat.exists_eq_add_of_lt hfuel
    simp [stringRest?]
  | cons c text ih =>
    obtain ⟨fuel, rfl⟩ := Nat.exists_eq_add_of_lt hfuel
    rw [List.flatMap_cons, List.append_assoc, stringRest?_textChar, ih _ _ (by grind)]
    simp

theorem length_textChar_pos (c : Char) : 0 < (textChar c).length := by
  rw [textChar]
  split_ifs <;> simp

theorem length_le_flatMap_textChar (text : List Char) :
    text.length ≤ (text.flatMap textChar).length := by
  induction text with
  | nil => simp
  | cons c text ih =>
    have hc := length_textChar_pos c
    rw [List.flatMap_cons, List.length_append, List.length_cons]
    omega

theorem toList_textString (s : String) :
    (textString s).toList = '"' :: (s.toList.flatMap textChar ++ ['"']) := by
  rw [textString, String.toList_ofList, List.cons_append]

/-- A string is read back. -/
theorem string?_textString (s : String) (rest : List Char) :
    string? ((textString s).toList ++ rest) = some (s, rest) := by
  have hlength := length_le_flatMap_textChar s.toList
  rw [toList_textString, List.cons_append, List.append_assoc, string?, List.singleton_append,
    stringRest?_flatMap _ _ _ _ (by grind)]
  simp

/-! ## Values -/

/-- Blanks before a value do not count. -/
theorem value?_skipBlanks (fuel depth : Nat) (shape : Shape) (cs : List Char) :
    value? fuel depth shape (skipBlanks cs) = value? fuel depth shape cs := by
  cases fuel with
  | zero => simp only [value?]
  | succ fuel => simp only [value?, skipBlanks_skipBlanks]

theorem items?_skipBlanks (fuel depth : Nat) (shape : Shape) (place : Nat) (cs : List Char) :
    items? fuel depth shape place (skipBlanks cs) = items? fuel depth shape place cs := by
  cases fuel with
  | zero => simp only [items?]
  | succ fuel => simp only [items?, value?_skipBlanks]

theorem fields?_skipBlanks (fuel depth : Nat) (shape : Shape) (cs : List Char) :
    fields? fuel depth shape (skipBlanks cs) = fields? fuel depth shape cs := by
  cases fuel with
  | zero => simp only [fields?]
  | succ fuel => simp only [fields?, skipBlanks_skipBlanks]

theorem ne_of_startsNumber {c other : Char} (hc : c = '-' ∨ Text.isDigit c = true)
    (hsign : other ≠ '-') (hdigit : Text.isDigit other = false) : c ≠ other := by
  rintro rfl
  rcases hc with hc | hc
  · exact hsign hc
  · rw [hdigit] at hc
    cases hc

theorem isBlank_of_startsNumber {c : Char} (hc : c = '-' ∨ Text.isDigit c = true) :
    isBlank c = false := by
  simp only [isBlank, Bool.or_eq_false_iff, beq_eq_false_iff_ne]
  refine ⟨⟨⟨?_, ?_⟩, ?_⟩, ?_⟩ <;> exact ne_of_startsNumber hc (by decide) (by decide)

/-- What starts like a number is read as one. -/
theorem value?_eq_number? {c : Char} (hc : c = '-' ∨ Text.isDigit c = true) (fuel depth : Nat)
    (shape : Shape) (cs : List Char) :
    value? (fuel + 1) depth shape (c :: cs) = number? (c :: cs) := by
  rw [value?, skipBlanks_cons (isBlank_of_startsNumber hc)]
  -- All other values start with a character that starts no number.
  split
  all_goals try rfl
  all_goals
    next heq =>
      rw [List.cons.injEq] at heq
      exact absurd heq.1 (ne_of_startsNumber hc (by decide) (by decide))

/-- The text of an integer starts like a number. -/
theorem startsNumber_toString (value : Int) :
    ∃ c, (toString value).toList.head? = some c ∧ (c = '-' ∨ Text.isDigit c = true) := by
  rw [Text.toList_toString]
  split
  · cases hdigits : Nat.toDigits 10 value.natAbs with
    | nil => exact absurd hdigits Nat.toDigits_ne_nil
    | cons d ds =>
      exact ⟨d, rfl, Or.inr (Text.isDigit_of_mem_toDigits (hdigits ▸ List.mem_cons_self))⟩
  · exact ⟨'-', rfl, Or.inl rfl⟩

/-- The text of a value starts with no blank and closes no array. -/
theorem starts_prettyAt (level : Nat) {value : Json} (h : value.isIntegral = true) :
    ∃ c, (prettyAt level value).toList.head? = some c ∧ isBlank c = false ∧ c ≠ ']' := by
  cases value with
  | null => exact ⟨'n', by simp [prettyAt], by decide, by decide⟩
  | bool value =>
    cases value with
    | false => exact ⟨'f', by simp [prettyAt], by decide, by decide⟩
    | true => exact ⟨'t', by simp [prettyAt], by decide, by decide⟩
  | int value =>
    obtain ⟨c, hhead, hc⟩ := startsNumber_toString value
    exact ⟨c, by rwa [prettyAt], isBlank_of_startsNumber hc,
      ne_of_startsNumber hc (by decide) (by decide)⟩
  | real value => cases h
  | str value => exact ⟨'"', by rw [prettyAt, toList_textString]; rfl, by decide, by decide⟩
  | arr items =>
    cases items with
    | nil => exact ⟨'[', by simp [prettyAt], by decide, by decide⟩
    | cons item items => exact ⟨'[', by simp [prettyAt], by decide, by decide⟩
  | obj fields =>
    cases fields with
    | nil => exact ⟨'\x7b', by simp [prettyAt], by decide, by decide⟩
    | cons field fields => exact ⟨'\x7b', by simp [prettyAt], by decide, by decide⟩

/-- A value is read back wherever its text stands. The parser takes at most three calls for
    each character. -/
def ReadsBack (value : Json) : Prop :=
  ∀ {level depth fuel : Nat} {shape : Shape} {rest : List Char},
    value.nesting < depth → value.isIntegral = true → shape.covers value = true →
    3 * (prettyAt level value).toList.length ≤ fuel + 1 → Ends rest →
    value? (fuel + 1) depth shape ((prettyAt level value).toList ++ rest) = some (value, rest)

theorem readsBack_null : ReadsBack .null := by
  intro level depth fuel shape rest _ _ _ _ _
  simp [prettyAt, value?, skipBlanks, isBlank, expect?]

theorem readsBack_bool (value : Bool) : ReadsBack (.bool value) := by
  intro level depth fuel shape rest _ _ _ _ _
  cases value <;> simp [prettyAt, value?, skipBlanks, isBlank, expect?]

theorem readsBack_int (value : Int) : ReadsBack (.int value) := by
  intro level depth fuel shape rest _ hintegral _ hfuel hends
  have hread := number?_toString hintegral hends
  obtain ⟨c, hhead, hc⟩ := startsNumber_toString value
  obtain ⟨cs, htext⟩ := List.head?_eq_some_iff.mp hhead
  rw [htext, List.cons_append] at hread
  rw [prettyAt, htext, List.cons_append, value?_eq_number? hc, hread]

theorem readsBack_str (value : String) : ReadsBack (.str value) := by
  intro level depth fuel shape rest _ _ _ _ _
  have hread := string?_textString value rest
  rw [toList_textString, List.cons_append] at hread
  rw [prettyAt, toList_textString, List.cons_append, value?, skipBlanks_cons (by decide)]
  simp only [hread, Option.bind_eq_bind, Option.bind_some]

/-- A value is read back after blanks too. -/
theorem ReadsBack.after_blanks {value : Json} (h : ReadsBack value) {blanks : List Char}
    (hblanks : ∀ c ∈ blanks, isBlank c = true) {level depth fuel : Nat} {shape : Shape}
    {rest : List Char} (hnesting : value.nesting < depth) (hintegral : value.isIntegral = true)
    (hcovers : shape.covers value = true)
    (hfuel : 3 * (prettyAt level value).toList.length ≤ fuel) (hends : Ends rest) :
    value? fuel depth shape (blanks ++ ((prettyAt level value).toList ++ rest)) =
      some (value, rest) := by
  obtain ⟨c, hhead, -⟩ := starts_prettyAt level hintegral
  obtain ⟨cs, htext⟩ := List.head?_eq_some_iff.mp hhead
  obtain ⟨fuel, rfl⟩ : ∃ n, fuel = n + 1 := ⟨fuel - 1, by simp [htext] at hfuel; omega⟩
  rw [← value?_skipBlanks, skipBlanks_append hblanks, value?_skipBlanks,
    h hnesting hintegral hcovers hfuel hends]

section Steps

variable {fuel depth place outer : Nat} {shape : Shape} {name : String} {value : Json}
  {cs after rest : List Char}

theorem items?_last (hvalue : value? fuel depth (shape.item place) cs =
    some (value, (newline outer).toList ++ ']' :: rest)) :
    items? (fuel + 1) depth shape place cs = some ([value], rest) := by
  simp only [items?, hvalue, Option.bind_eq_bind, Option.bind_some, skipBlanks_newline]
  rw [skipBlanks_cons (by decide)]
  rfl

theorem items?_next {items : List Json}
    (hvalue : value? fuel depth (shape.item place) cs = some (value, ',' :: after))
    (hitems : items? fuel depth shape (place + 1) after = some (items, rest)) :
    items? (fuel + 1) depth shape place cs = some (value :: items, rest) := by
  simp only [items?, hvalue, Option.bind_eq_bind, Option.bind_some]
  rw [skipBlanks_cons (by decide)]
  simp only [hitems, Option.bind_some]

/-- A field is read if the shape has it. -/
theorem field?_eq_some {inner : Shape} (hshape : shape.field? name = some inner)
    (hvalue : value? fuel depth inner cs = some (value, rest)) :
    field? (fuel + 1) depth shape name cs = some ([(name, value)], rest) := by
  simp only [field?, hshape, hvalue, Option.bind_eq_bind, Option.bind_some]

/-- The name of a field is read back. -/
theorem name?_textString (name : String) (cs : List Char) :
    string? (skipBlanks ((textString name).toList ++ ':' :: cs)) = some (name, ':' :: cs) := by
  rw [← string?_textString name (':' :: cs), toList_textString, List.cons_append,
    skipBlanks_cons (by decide)]

theorem expect?_colon (cs : List Char) : expect? [':'] (skipBlanks (':' :: cs)) = some cs := by
  rw [skipBlanks_cons (by decide)]
  simp [expect?]

theorem fields?_last
    (hfield : field? fuel depth shape name cs =
      some ([(name, value)], (newline outer).toList ++ '\x7d' :: rest)) :
    fields? (fuel + 1) depth shape ((textString name).toList ++ ':' :: cs) =
      some ([(name, value)], rest) := by
  simp only [fields?, name?_textString, expect?_colon, hfield, Option.bind_eq_bind,
    Option.bind_some, skipBlanks_newline]
  rw [skipBlanks_cons (by decide)]
  rfl

theorem fields?_next {fields : List (String × Json)}
    (hfield : field? fuel depth shape name cs = some ([(name, value)], ',' :: after))
    (hfields : fields? fuel depth shape after = some (fields, rest)) :
    fields? (fuel + 1) depth shape ((textString name).toList ++ ':' :: cs) =
      some ((name, value) :: fields, rest) := by
  simp only [fields?, name?_textString, expect?_colon, hfield, Option.bind_eq_bind,
    Option.bind_some]
  rw [skipBlanks_cons (by decide)]
  simp only [hfields, Option.bind_some, List.singleton_append]

theorem value?_arr {items : List Json} (hdepth : 1 < depth)
    (hopen : ∀ after, skipBlanks cs ≠ ']' :: after)
    (hitems : items? fuel (depth - 1) shape 0 cs = some (items, rest)) :
    value? (fuel + 1) depth shape ('[' :: cs) = some (.arr items, rest) := by
  rw [value?, skipBlanks_cons (by decide)]
  simp only [Nat.not_le.mpr hdepth, ↓reduceIte, items?_skipBlanks, hitems, Option.bind_eq_bind,
    Option.bind_some]

theorem value?_obj {fields : List (String × Json)} (hdepth : 1 < depth)
    (hopen : ∀ after, skipBlanks cs ≠ '\x7d' :: after)
    (hfields : fields? fuel (depth - 1) shape cs = some (fields, rest)) :
    value? (fuel + 1) depth shape ('\x7b' :: cs) = some (.obj fields, rest) := by
  rw [value?, skipBlanks_cons (by decide)]
  simp only [Nat.not_le.mpr hdepth, ↓reduceIte, fields?_skipBlanks, hfields, Option.bind_eq_bind,
    Option.bind_some]

theorem value?_empty (hdepth : 1 < depth) :
    value? (fuel + 1) depth shape ('[' :: ']' :: rest) = some (.arr [], rest) ∧
      value? (fuel + 1) depth shape ('\x7b' :: '\x7d' :: rest) = some (.obj [], rest) := by
  simp [value?, skipBlanks, isBlank, Nat.not_le.mpr hdepth]

end Steps

/-- The items of an array are read back, with the end of the array. -/
theorem items?_prettyItems {items : List Json} (hback : ∀ item ∈ items, ReadsBack item)
    (hne : items ≠ []) {level outer depth fuel place : Nat} {shape : Shape} {rest : List Char}
    (hnesting : nestingItems items < depth) (hintegral : areIntegral items = true)
    (hcovers : shape.coversItems place items = true)
    (hfuel : 3 * (prettyItems level items).toList.length ≤ fuel) :
    items? fuel depth shape place ((prettyItems level items).toList ++
      ((newline outer).toList ++ ']' :: rest)) = some (items, rest) := by
  induction items generalizing fuel place with
  | nil => exact absurd rfl hne
  | cons item items ih =>
    obtain ⟨hitem, hitems⟩ := List.forall_mem_cons.mp hback
    simp only [nestingItems, sup_lt_iff] at hnesting
    simp only [areIntegral, Bool.and_eq_true] at hintegral
    simp only [Shape.coversItems, Bool.and_eq_true] at hcovers
    have hblank : ∀ c ∈ (newline level).toList, isBlank c = true :=
      fun _ => isBlank_of_mem_newline
    -- The line end before an item pays for the call that reads the item.
    have hline : 0 < (newline level).toList.length := by simp [toList_newline]
    cases items with
    | nil =>
      simp only [prettyItems, String.toList_append, List.length_append] at hfuel
      obtain ⟨fuel, rfl⟩ : ∃ n, fuel = n + 1 := ⟨fuel - 1, by omega⟩
      rw [prettyItems, String.toList_append, List.append_assoc]
      exact items?_last (hitem.after_blanks hblank hnesting.1 hintegral.1 hcovers.1 (by omega)
        (ends_newline _ _))
    | cons second items =>
      simp only [prettyItems, String.toList_append, List.length_append] at hfuel
      obtain ⟨fuel, rfl⟩ : ∃ n, fuel = n + 1 := ⟨fuel - 1, by omega⟩
      simp only [prettyItems, String.toList_append, List.append_assoc]
      exact items?_next (hitem.after_blanks hblank hnesting.1 hintegral.1 hcovers.1 (by omega)
        (ends_cons (by decide) _)) (ih hitems (by simp) hnesting.2 hintegral.2 hcovers.2 (by omega))

/-- The fields of an object are read back, with the end of the object. -/
theorem fields?_prettyFields {fields : List (String × Json)}
    (hback : ∀ field ∈ fields, ReadsBack field.2) (hne : fields ≠ [])
    {level outer depth fuel : Nat} {shape : Shape} {rest : List Char}
    (hnesting : nestingFields fields < depth) (hintegral : haveIntegral fields = true)
    (hcovers : shape.coversFields fields = true)
    (hfuel : 3 * (prettyFields level fields).toList.length ≤ fuel) :
    fields? fuel depth shape ((prettyFields level fields).toList ++
      ((newline outer).toList ++ '\x7d' :: rest)) = some (fields, rest) := by
  induction fields generalizing fuel with
  | nil => exact absurd rfl hne
  | cons field fields ih =>
    obtain ⟨name, value⟩ := field
    have hvalue : ReadsBack value := hback _ List.mem_cons_self
    have hfields := (List.forall_mem_cons.mp hback).2
    simp only [nestingFields, sup_lt_iff] at hnesting
    simp only [haveIntegral, Bool.and_eq_true] at hintegral
    simp only [Shape.coversFields, Bool.and_eq_true] at hcovers
    obtain ⟨inner, hshape, hinner⟩ : ∃ inner, shape.field? name = some inner ∧
        inner.covers value = true := by
      cases hshape : shape.field? name with
      | none => simp [hshape] at hcovers
      | some inner => exact ⟨inner, rfl, by simpa [hshape] using hcovers.1⟩
    -- The line end before a field pays for the two calls that read the field.
    have hline : 0 < (newline level).toList.length := by simp [toList_newline]
    have hblank : ∀ c ∈ [' '], isBlank c = true := by simp [isBlank]
    cases fields with
    | nil =>
      simp only [prettyFields, String.toList_append, List.length_append] at hfuel
      obtain ⟨fuel, rfl⟩ : ∃ n, fuel = n + 2 := ⟨fuel - 2, by omega⟩
      rw [← fields?_skipBlanks]
      simp only [prettyFields, String.toList_append, List.append_assoc, skipBlanks_newline,
        fields?_skipBlanks]
      exact fields?_last (field?_eq_some hshape (hvalue.after_blanks hblank hnesting.1 hintegral.1
        hinner (by omega) (ends_newline _ _)))
    | cons second fields =>
      simp only [prettyFields, String.toList_append, List.length_append] at hfuel
      obtain ⟨fuel, rfl⟩ : ∃ n, fuel = n + 2 := ⟨fuel - 2, by omega⟩
      rw [← fields?_skipBlanks]
      simp only [prettyFields, String.toList_append, List.append_assoc, skipBlanks_newline,
        fields?_skipBlanks]
      exact fields?_next (field?_eq_some hshape (hvalue.after_blanks hblank hnesting.1 hintegral.1
        hinner (by omega) (ends_cons (by decide) _)))
        (ih hfields (by simp) hnesting.2 hintegral.2 hcovers.2 (by omega))

/-- The text of items starts with that of the first one, on a new line. -/
theorem prettyItems_cons (level : Nat) (item : Json) (items : List Json) :
    ∃ tail, (prettyItems level (item :: items)).toList =
      (newline level).toList ++ ((prettyAt level item).toList ++ tail) := by
  cases items with
  | nil => exact ⟨[], by simp [prettyItems]⟩
  | cons second items =>
    exact ⟨',' :: (prettyItems level (second :: items)).toList, by simp [prettyItems]⟩

/-- The text of fields starts with the name of the first one, on a new line. -/
theorem prettyFields_cons (level : Nat) (name : String) (value : Json)
    (fields : List (String × Json)) :
    ∃ tail, (prettyFields level ((name, value) :: fields)).toList =
      (newline level).toList ++ ((textString name).toList ++ tail) := by
  cases fields with
  | nil => exact ⟨':' :: ' ' :: (prettyAt level value).toList, by simp [prettyFields]⟩
  | cons second fields =>
    exact ⟨':' :: ' ' :: ((prettyAt level value).toList ++
      ',' :: (prettyFields level (second :: fields)).toList), by simp [prettyFields]⟩

theorem readsBack_arr {items : List Json} (h : ∀ item ∈ items, ReadsBack item) :
    ReadsBack (.arr items) := by
  intro level depth fuel shape rest hnesting hintegral hcovers hfuel _
  rw [nesting] at hnesting
  cases items with
  | nil =>
    have hdepth : 1 < depth := by omega
    simpa [prettyAt] using (value?_empty hdepth).1
  | cons item items =>
    have htext : (prettyAt level (.arr (item :: items))).toList =
        '[' :: ((prettyItems (level + 1) (item :: items)).toList ++
          ((newline level).toList ++ [']'])) := by simp [prettyAt]
    simp only [htext, List.length_cons, List.length_append] at hfuel
    rw [htext, List.cons_append, List.append_assoc, List.append_assoc]
    refine value?_arr (by omega) ?_
      (items?_prettyItems h (by simp) (by omega) hintegral hcovers (by omega))
    -- The first item does not look like the end of the array, which is tried first.
    rw [isIntegral, areIntegral, Bool.and_eq_true] at hintegral
    obtain ⟨c, hhead, hblank, hne⟩ := starts_prettyAt (level + 1) hintegral.1
    obtain ⟨cs, hitem⟩ := List.head?_eq_some_iff.mp hhead
    obtain ⟨tail, hitems⟩ := prettyItems_cons (level + 1) item items
    rw [hitems, hitem, List.append_assoc, skipBlanks_newline, List.cons_append, List.cons_append,
      skipBlanks_cons hblank]
    exact fun after heq => hne (List.cons.inj heq).1

theorem readsBack_obj {fields : List (String × Json)}
    (h : ∀ field ∈ fields, ReadsBack field.2) : ReadsBack (.obj fields) := by
  intro level depth fuel shape rest hnesting hintegral hcovers hfuel _
  rw [nesting] at hnesting
  cases fields with
  | nil =>
    have hdepth : 1 < depth := by omega
    simpa [prettyAt] using (value?_empty hdepth).2
  | cons field fields =>
    have htext : (prettyAt level (.obj (field :: fields))).toList =
        '\x7b' :: ((prettyFields (level + 1) (field :: fields)).toList ++
          ((newline level).toList ++ ['\x7d'])) := by simp [prettyAt]
    simp only [htext, List.length_cons, List.length_append] at hfuel
    rw [htext, List.cons_append, List.append_assoc, List.append_assoc]
    refine value?_obj (by omega) ?_
      (fields?_prettyFields h (by simp) (by omega) hintegral hcovers (by omega))
    -- Nor does the first name look like the end of the object.
    obtain ⟨tail, hfields⟩ := prettyFields_cons (level + 1) field.1 field.2 fields
    rw [hfields, toList_textString, List.append_assoc, skipBlanks_newline, List.cons_append,
      List.cons_append, skipBlanks_cons (by decide)]
    exact fun after heq => absurd (List.cons.inj heq).1 (by decide)

/-- Every value with integers of 64 bits only is read back. -/
theorem readsBack (value : Json) : ReadsBack value := by
  induction value using Json.induction with
  | null => exact readsBack_null
  | bool value => exact readsBack_bool value
  | int value => exact readsBack_int value
  | real value => exact fun _ hintegral => nomatch hintegral
  | str value => exact readsBack_str value
  | arr items ih => exact readsBack_arr ih
  | obj fields ih => exact readsBack_obj ih

end Parser

/-- The text of a value is read as this value, if a shape has all its fields. -/
theorem parseAs?_pretty {shape : Shape} {value : Json} (hnesting : value.nesting < nestingLimit)
    (hintegral : value.isIntegral = true) (hcovers : shape.covers value = true) :
    parseAs? shape value.pretty = some value := by
  have hread := Parser.readsBack value hnesting hintegral hcovers
    (by omega : 3 * (prettyAt 0 value).toList.length ≤ 3 * (prettyAt 0 value).toList.length + 2 + 1)
    Parser.ends_nil
  rw [List.append_nil] at hread
  rw [parseAs?, pretty, hread]
  rfl

end Json
end ValueFlow
