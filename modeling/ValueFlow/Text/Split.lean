/-
  ValueFlow.Text.Split

  Cutting text into pieces: at a separator, into lines, into words.
-/

namespace ValueFlow
namespace Text

/-- The pieces between the characters that `isCut` accepts; a text without any
    is its own single piece. -/
def splitWhere (isCut : Char → Bool) : List Char → List (List Char)
  | [] => [[]]
  | c :: cs =>
    if isCut c then [] :: splitWhere isCut cs
    else
      match splitWhere isCut cs with
      | [] => [[c]]
      | piece :: pieces => (c :: piece) :: pieces

/-- The lines of a text; a final line end opens no further line. -/
def lines (cs : List Char) : List (List Char) :=
  let pieces := splitWhere (fun c => c == '\n') cs
  if pieces.getLast? = some [] then pieces.dropLast else pieces

/-- White space: the characters with the `White_Space` property. -/
def isBlank (c : Char) : Bool :=
  let n := c.toNat
  (9 ≤ n && n ≤ 13) || n == 0x20 || n == 0x85 || n == 0xA0 || n == 0x1680
    || (0x2000 ≤ n && n ≤ 0x200A) || n == 0x2028 || n == 0x2029 || n == 0x202F
    || n == 0x205F || n == 0x3000

/-- Drops white space at both ends. -/
def trim (cs : List Char) : List Char :=
  ((cs.dropWhile isBlank).reverse.dropWhile isBlank).reverse

/-- The words of a text: its longest runs without white space. -/
def words (cs : List Char) : List (List Char) :=
  (splitWhere isBlank cs).filter (fun word => !word.isEmpty)

/-- The words of a text with one space between them. -/
def oneLine (s : String) : String :=
  " ".intercalate ((words s.toList).map String.ofList)

/-- The part after the last point of a dotted name. -/
def afterLastPoint (name : String) : String :=
  String.ofList (((splitWhere (fun c => c == '.') name.toList).getLast?).getD [])

/-! ## Pieces -/

variable {isCut : Char → Bool}

/-- A text without a cut is one piece. -/
theorem splitWhere_of_not_cut {piece : List Char} (h : ∀ c ∈ piece, isCut c = false) :
    splitWhere isCut piece = [piece] := by
  induction piece with
  | nil => rfl
  | cons c piece ih =>
    obtain ⟨hc, hpiece⟩ := List.forall_mem_cons.mp h
    rw [splitWhere, hc, ih hpiece]
    rfl

/-- The first cut ends the first piece. -/
theorem splitWhere_append_cons {piece rest : List Char} {cut : Char}
    (h : ∀ c ∈ piece, isCut c = false) (hcut : isCut cut = true) :
    splitWhere isCut (piece ++ cut :: rest) = piece :: splitWhere isCut rest := by
  induction piece with
  | nil => rw [List.nil_append, splitWhere, if_pos hcut]
  | cons c piece ih =>
    obtain ⟨hc, hpiece⟩ := List.forall_mem_cons.mp h
    rw [List.cons_append, splitWhere, hc, ih hpiece]
    rfl

theorem not_cut_of_not_mem {sep : Char} {piece : List Char} (h : sep ∉ piece) :
    ∀ c ∈ piece, (c == sep) = false := by
  intro c hc
  rw [beq_eq_false_iff_ne]
  rintro rfl
  exact h hc

end Text
end ValueFlow
