/-
  ValueFlow.Search

  Everything that can be reached from a start by following a successor function.

  `closure` keeps the members found so far and a list of members still to be
  looked at, and `meets` ends such a search early. One unit of `bound` pays for one
  new member, so a bound above the number of members that can be reached never runs
  out.
-/

namespace ValueFlow
namespace Search

variable {α : Type} [DecidableEq α]

/-- Expands pending members until none is new; `bound` limits the number of
    expansions. -/
def expand (next : α → List α) : Nat → List α → List α → List α
  | 0, found, _ => found
  | bound + 1, found, pending =>
    match pending.dropWhile (fun a => decide (a ∈ found)) with
    | [] => found
    | a :: rest => expand next bound (a :: found) (next a ++ rest)

/-- The starts and all that is reached from them, the latest found first. -/
def closure (next : α → List α) (bound : Nat) (starts : List α) : List α :=
  expand next bound [] starts

/-- Whether a search comes to a new member that passes a test, at which it is over. -/
def meets (next : α → List α) (test : α → Bool) : Nat → List α → List α → Bool
  | 0, _, _ => false
  | bound + 1, found, pending =>
    match pending.dropWhile (fun a => decide (a ∈ found)) with
    | [] => false
    | a :: rest => test a || meets next test bound (a :: found) (next a ++ rest)

end Search
end ValueFlow
