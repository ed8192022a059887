/-
  ValueFlow.Pattern.Basic

  Regular patterns and the search for them in a text.

  A pattern that starts at some places in the text can end at several places; `ends`
  lists each of them once. A text contains a pattern if it can end at all when it may
  start anywhere.
-/

import ValueFlow.Search

namespace ValueFlow

/-- A set of characters: some ranges, or all but them. -/
structure CharSet where
  ranges : List (Char × Char)
  negated : Bool
deriving DecidableEq, Repr

namespace CharSet

/-- A single character. -/
def single (c : Char) : CharSet := ⟨[(c, c)], false⟩

/-- Every character but the line end. -/
def anyInLine : CharSet := ⟨[('\n', '\n')], true⟩

/-- Whether a character is in the set. -/
def contains (set : CharSet) (c : Char) : Bool :=
  set.negated != set.ranges.any fun range => range.1 ≤ c && c ≤ range.2

end CharSet

/-- A regular pattern. -/
inductive Pattern where
  | empty
  | char (set : CharSet)
  /-- The start of the text. -/
  | start
  /-- The end of the text. -/
  | finish
  | seq (first second : Pattern)
  | either (first second : Pattern)
  /-- Any number of times. -/
  | star (inner : Pattern)
deriving DecidableEq, Repr

namespace Pattern

/-- At least once. -/
def plus (inner : Pattern) : Pattern := .seq inner (.star inner)

/-- At most once. -/
def maybe (inner : Pattern) : Pattern := .either inner .empty

/-- The places where the pattern can end if it starts at one of some places. -/
def ends (text : List Char) : Pattern → List Nat → List Nat
  | .empty, places => places
  | .char set, places =>
    (places.filter fun place => (text[place]?).any set.contains).map (· + 1)
  | .start, places => places.filter (· == 0)
  | .finish, places => places.filter (· == text.length)
  | .seq first second, places => ends text second (ends text first places)
  | .either first second, places => (ends text first places ++ ends text second places).eraseDups
  | .star inner, places =>
    Search.closure (fun place => ends text inner [place]) (text.length + 1) places

/-- Whether a text contains the pattern. -/
def isFoundIn (pattern : Pattern) (text : String) : Bool :=
  let cs := text.toList
  !(pattern.ends cs (List.range (cs.length + 1))).isEmpty

end Pattern
end ValueFlow
