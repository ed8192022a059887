/-
  ValueFlow.Pattern.Parser

  Reading regular patterns.

  The text is cut into symbols first. Then one pass over the symbols keeps a stack of
  open groups, each with its finished alternatives and the items of the one that is
  being read. A repetition needs an item before it, every group has to be closed, and
  symbols are nested to a limited depth.
-/

import ValueFlow.Pattern.Basic

namespace ValueFlow
namespace Pattern

/-! ## Symbols -/

/-- How often an item is repeated. -/
inductive Repetition where
  | star
  | plus
  | maybe
deriving DecidableEq, Repr

/-- A repetition of something that is repeated already. -/
def Repetition.over : Repetition → Repetition → Repetition
  | .plus, .plus => .plus
  | .maybe, .maybe => .maybe
  | _, _ => .star

/-- A symbol of a pattern. -/
inductive Symbol where
  /-- A pattern whose own symbols are nested to a depth. -/
  | item (pattern : Pattern) (depth : Nat)
  | repeated (how : Repetition)
  | bar
  | opening
  | closing
deriving DecidableEq, Repr

/-- A character after a backslash: punctuation stands for itself, and a few letters for
    control characters. -/
def escaped? (c : Char) : Option Char :=
  match c with
  | 'n' => some '\n'
  | 't' => some '\t'
  | 'r' => some '\r'
  | c =>
    if c.isAlphanum || c == '<' || c == '>' || c == ' ' || 128 ≤ c.toNat || c.toNat < 32 then none
    else some c

/-- A character of a set, with an escape resolved, and the rest. -/
def setChar? : List Char → Option (Char × List Char)
  | '\\' :: c :: rest => (escaped? c).map fun c => (c, rest)
  | '\\' :: [] => none
  | '[' :: _ => none
  | c :: rest => some (c, rest)
  | [] => none

/-- The ranges of a set up to its closing bracket, and what follows; at most `bound`
    of them. -/
def setRanges : Nat → List Char → Option (List (Char × Char) × List Char)
  | 0, _ => none
  | bound + 1, cs =>
    match cs with
    | ']' :: rest => some ([], rest)
    | cs => do
      let (low, rest) ← setChar? cs
      match rest with
      | '-' :: ']' :: rest => some ([(low, low), ('-', '-')], rest)
      | '-' :: rest => do
        let (high, rest) ← setChar? rest
        let (ranges, rest) ← setRanges bound rest
        if low ≤ high then some ((low, high) :: ranges, rest) else none
      | rest => do
        let (ranges, rest) ← setRanges bound rest
        some ((low, low) :: ranges, rest)

/-- A set after its opening bracket, and what follows; a closing bracket that comes first
    is a member. -/
def set? (cs : List Char) : Option (CharSet × List Char) := do
  let negated := cs.head? == some '^'
  let cs := if negated then cs.drop 1 else cs
  let (first, cs) := if cs.head? == some ']' then ([(']', ']')], cs.drop 1) else ([], cs)
  let (ranges, rest) ← setRanges (cs.length + 1) cs
  some (⟨first ++ ranges, negated⟩, rest)

/-- Drops the mark of a reluctant repetition, which changes nothing in a search. -/
def dropReluctant : List Char → List Char
  | '?' :: rest => rest
  | cs => cs

/-- The first symbol of a text and what follows it. -/
def symbol? : List Char → Option (Symbol × List Char)
  | [] => none
  | c :: rest =>
    match c with
    | '.' => some (.item (.char .anyInLine) 0, rest)
    | '^' => some (.item .start 0, rest)
    | '$' => some (.item .finish 0, rest)
    | '|' => some (.bar, rest)
    | '*' => some (.repeated .star, dropReluctant rest)
    | '+' => some (.repeated .plus, dropReluctant rest)
    | '?' => some (.repeated .maybe, dropReluctant rest)
    | '(' =>
      match rest with
      | '?' :: ':' :: rest => some (.opening, rest)
      | '?' :: _ => none
      | rest => some (.opening, rest)
    | ')' => some (.closing, rest)
    | '[' =>
      -- A set of several ranges is one level deeper than a single range.
      (set? rest).map fun (set, rest) =>
        (.item (.char set) (if set.ranges.length ≤ 1 then 1 else 2), rest)
    | '\x7b' => none
    | '\\' =>
      match rest with
      | c :: rest => (escaped? c).map fun c => (.item (.char (.single c)) 0, rest)
      | [] => none
    | c => some (.item (.char (.single c)) 0, rest)

/-- The symbols of a text, at most `bound` of them. -/
def symbolsUpTo : Nat → List Char → Option (List Symbol)
  | _, [] => some []
  | 0, _ => none
  | bound + 1, cs => do
    let (symbol, rest) ← symbol? cs
    (symbolsUpTo bound rest).map (symbol :: ·)

/-! ## Groups -/

/-- A pattern and how deep its symbols are nested. -/
structure Nested where
  pattern : Pattern
  depth : Nat
deriving DecidableEq, Repr

/-- How deep symbols are nested that stand side by side: several make a level of their
    own. -/
def sideBySide (depths : List Nat) : Nat :=
  let deepest := depths.foldl max 0
  if depths.length ≤ 1 then deepest else deepest + 1

/-- An item with all its repetitions, which come to a single one. -/
structure Item where
  base : Pattern
  how : Option Repetition
  /-- How deep its symbols are nested; each repetition is a level. -/
  depth : Nat
deriving DecidableEq, Repr

namespace Item

/-- The pattern of an item. -/
def pattern (item : Item) : Pattern :=
  match item.how with
  | none => item.base
  | some .star => .star item.base
  | some .plus => .plus item.base
  | some .maybe => .maybe item.base

/-- Repeats an item. -/
def repeated (item : Item) (how : Repetition) : Item where
  base := item.base
  how := some ((item.how.map how.over).getD how)
  depth := item.depth + 1

end Item

/-- An open group. -/
structure Group where
  /-- Finished alternatives, the latest first. -/
  finished : List Nested
  /-- Items of the current alternative, the latest first. -/
  items : List Item
deriving DecidableEq, Repr

namespace Group

/-- A group in which nothing has been read. -/
def new : Group := ⟨[], []⟩

/-- The current alternative. -/
def current (group : Group) : Nested where
  pattern := group.items.foldl (fun after item => .seq item.pattern after) .empty
  depth := sideBySide (group.items.map (·.depth))

/-- What is inside a closed group. -/
def content (group : Group) : Nested where
  pattern := group.finished.foldl (fun after earlier => .either earlier.pattern after)
    group.current.pattern
  depth := sideBySide ((group.current :: group.finished).map (·.depth))

/-- Starts the next alternative. -/
def next (group : Group) : Group := ⟨group.current :: group.finished, []⟩

/-- Adds an item. -/
def add (group : Group) (item : Nested) : Group :=
  { group with items := ⟨item.pattern, none, item.depth⟩ :: group.items }

/-- Repeats the latest item. -/
def repeat? (group : Group) (how : Repetition) : Option Group :=
  match group.items with
  | [] => none
  | item :: rest => some { group with items := item.repeated how :: rest }

/-- A closed group as an item of the group around it. -/
def asItem (group : Group) : Nested := ⟨group.content.pattern, group.content.depth + 1⟩

end Group

/-- Reads a symbol inside the innermost group; the others follow from the inside out. -/
def step? : Group × List Group → Symbol → Option (Group × List Group)
  | (group, outer), .item pattern depth => some (group.add ⟨pattern, depth⟩, outer)
  | (group, outer), .repeated how => (group.repeat? how).map fun group => (group, outer)
  | (group, outer), .bar => some (group.next, outer)
  | (group, outer), .opening => some (.new, group :: outer)
  | (group, outer), .closing =>
    match outer with
    | [] => none
    | next :: outer => some (next.add group.asItem, outer)

/-- Symbols are nested to this depth at most. -/
def depthLimit : Nat := 250

/-- Reads a pattern. -/
def parse? (text : String) : Option Pattern := do
  let cs := text.toList
  let symbols ← symbolsUpTo cs.length cs
  match ← symbols.foldlM step? (Group.new, []) with
  | (group, []) => if group.content.depth ≤ depthLimit then some group.content.pattern else none
  | _ => none

end Pattern
end ValueFlow
