/-
  ValueFlow.Sorted

  Sets and maps as lists in increasing order.

  Every set that an answer shows (participants, supertypes, signatures in use,
  model rows of one shape) is listed in increasing order without repetition, so
  the order belongs to the data: `insert` and `ofList` build such lists, and a
  map is a list of key and value pairs with increasing keys (`put`, `find?`,
  `erase`). Equality decides membership, the order only decides the place.
-/

namespace ValueFlow
namespace Sorted

variable {α β : Type} [DecidableEq α]

/-! ## Sets -/

/-- Adds a member at its place; a member that is already there is kept once. -/
def insert [Ord α] (a : α) : List α → List α
  | [] => [a]
  | b :: bs =>
    if a = b then b :: bs
    else if compare a b = .lt then a :: b :: bs
    else b :: insert a bs

/-- Adds every member of a list. -/
def insertAll [Ord α] (set members : List α) : List α :=
  members.foldl (fun acc a => insert a acc) set

/-- The members of a list in increasing order, each once. -/
def ofList [Ord α] (members : List α) : List α :=
  insertAll [] members

/-- Inserting adds exactly the new member. -/
@[simp] theorem mem_insert [Ord α] {a x : α} {set : List α} :
    x ∈ insert a set ↔ x = a ∨ x ∈ set := by
  induction set with
  | nil => simp [insert]
  | cons b bs ih =>
    unfold insert
    split
    · next h => subst h; simp
    · split
      · simp
      · simp only [List.mem_cons, ih]
        constructor
        · rintro (h | h | h) <;> simp [h]
        · rintro (h | h | h) <;> simp [h]

/-- Inserting a list adds exactly its members. -/
@[simp] theorem mem_insertAll [Ord α] {x : α} {set members : List α} :
    x ∈ insertAll set members ↔ x ∈ set ∨ x ∈ members := by
  unfold insertAll
  induction members generalizing set with
  | nil => simp
  | cons a as ih =>
    simp only [List.foldl_cons, ih, mem_insert, List.mem_cons]
    constructor
    · rintro ((h | h) | h) <;> simp [h]
    · rintro (h | h | h) <;> simp [h]

/-- Sorting a list keeps exactly its members. -/
@[simp] theorem mem_ofList [Ord α] {x : α} {members : List α} :
    x ∈ ofList members ↔ x ∈ members := by
  simp [ofList]

/-! ## Maps -/

/-- The value under a key. -/
def find? (key : α) : List (α × β) → Option β
  | [] => none
  | (k, b) :: rest => if key = k then some b else find? key rest

/-- Sets the value under a key, in its place. -/
def put [Ord α] (key : α) (value : β) : List (α × β) → List (α × β)
  | [] => [(key, value)]
  | (k, b) :: rest =>
    if key = k then (k, value) :: rest
    else if compare key k = .lt then (key, value) :: (k, b) :: rest
    else (k, b) :: put key value rest

/-- Removes a key. -/
def erase (key : α) : List (α × β) → List (α × β)
  | [] => []
  | (k, b) :: rest => if key = k then rest else (k, b) :: erase key rest

/-- The value just put is found, and no other key changes. -/
theorem find?_put [Ord α] (key other : α) (value : β) (entries : List (α × β)) :
    find? other (put key value entries) =
      if other = key then some value else find? other entries := by
  induction entries with
  | nil => by_cases h : other = key <;> simp [put, find?, h]
  | cons entry rest ih =>
    obtain ⟨k, b⟩ := entry
    unfold put
    split
    · next h => subst h; by_cases h' : other = key <;> simp [find?, h']
    · split
      · by_cases h' : other = key <;> simp [find?, h']
      · next h _ =>
        by_cases h' : other = k
        · have hne : ¬ k = key := fun e => h e.symm
          simp [find?, h', hne]
        · simp [find?, h', ih]

end Sorted
end ValueFlow
