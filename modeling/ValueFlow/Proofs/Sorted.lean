/-
  ValueFlow.Proofs.Sorted

  Lists in increasing order are determined by their members.

  `insert`, `ofList` and `put` keep the order, for any lawful comparison.
  Identities of elements and nodes have one.
-/

import ValueFlow.Flow.Node
import ValueFlow.Sorted
import Mathlib.Data.List.Nodup

namespace ValueFlow

/-! ## Comparisons -/

theorem ElementId.compare_eq :
    (compare : ElementId → ElementId → Ordering) = compareOn ElementId.place := by
  funext a b
  exact Ordering.then_eq

instance : Std.TransOrd ElementId := by
  rw [Std.TransOrd, ElementId.compare_eq]
  infer_instance

instance : Std.LawfulEqOrd ElementId where
  eq_of_compare {a b} h := by
    rw [ElementId.compare_eq] at h
    exact congrArg ElementId.mk (Nat.compare_eq_eq.mp h)

/-- The kind of a node decides before its element does. -/
theorem Node.compare_eq : (compare : Node → Node → Ordering) =
    compareLex (compareOn fun node => if node.isParameter then 1 else 0)
      (compareOn Node.id) := by
  funext a b
  cases a <;> cases b
  · exact Ordering.then_eq
  · rfl
  · rfl
  · exact Ordering.then_eq

instance : Std.TransOrd Node := by
  rw [Std.TransOrd, Node.compare_eq]
  infer_instance

instance : Std.LawfulEqOrd Node where
  eq_of_compare {a b} h := by
    rw [Node.compare_eq, compareLex, Ordering.then_eq_eq] at h
    have hid : a.id = b.id := Std.LawfulEqOrd.eq_of_compare h.2
    cases a <;> cases b <;> simp_all [Node.id, Node.isParameter, compareOn]

namespace Sorted

variable {α β : Type} [Ord α]

/-! ## Increasing lists -/

/-- Every member comes before all that follow it. -/
def Increasing (members : List α) : Prop := members.Pairwise fun a b => compare a b = .lt

theorem ne_of_lt [Std.TransOrd α] {a b : α} (h : compare a b = .lt) : a ≠ b := by
  intro heq
  rw [heq, Std.ReflOrd.compare_self] at h
  cases h

theorem Increasing.nodup [Std.TransOrd α] {members : List α} (h : Increasing members) :
    members.Nodup :=
  h.imp ne_of_lt

/-- Two increasing lists with the same members are the same list. -/
theorem Increasing.eq_of_mem_iff [Std.TransOrd α] {as bs : List α} (ha : Increasing as)
    (hb : Increasing bs) (h : ∀ x, x ∈ as ↔ x ∈ bs) : as = bs := by
  have hperm : as.Perm bs := (List.perm_ext_iff_of_nodup ha.nodup hb.nodup).mpr h
  refine hperm.eq_of_pairwise ?_ ha hb
  intro a b _ _ hab hba
  have hgt := Std.OrientedCmp.gt_of_lt hba
  rw [hab] at hgt
  cases hgt

theorem Increasing.filter {members : List α} (h : Increasing members) (p : α → Bool) :
    Increasing (members.filter p) :=
  List.Pairwise.filter p h

/-- What is neither equal nor smaller is greater. -/
theorem lt_of_not_lt [Std.TransOrd α] [Std.LawfulEqOrd α] {a b : α} (hne : a ≠ b)
    (hlt : compare a b ≠ .lt) : compare b a = .lt := by
  cases h : compare a b with
  | lt => exact absurd h hlt
  | eq => exact absurd (Std.LawfulEqOrd.eq_of_compare h) hne
  | gt => exact Std.OrientedCmp.lt_of_gt h

variable [DecidableEq α]

theorem increasing_insert [Std.TransOrd α] [Std.LawfulEqOrd α] {a : α} {set : List α}
    (h : Increasing set) : Increasing (insert a set) := by
  induction set with
  | nil => simp [insert, Increasing]
  | cons b bs ih =>
    obtain ⟨hb, hbs⟩ := List.pairwise_cons.mp h
    unfold insert
    split
    · exact h
    · next hne =>
      split
      · next hlt =>
        refine List.pairwise_cons.mpr ⟨?_, h⟩
        intro c hc
        rcases List.mem_cons.mp hc with rfl | hc
        · exact hlt
        · exact Std.TransCmp.lt_trans hlt (hb c hc)
      · next hlt =>
        refine List.pairwise_cons.mpr ⟨?_, ih hbs⟩
        intro c hc
        rcases mem_insert.mp hc with rfl | hc
        · exact lt_of_not_lt hne hlt
        · exact hb c hc

theorem increasing_insertAll [Std.TransOrd α] [Std.LawfulEqOrd α] {set members : List α}
    (h : Increasing set) : Increasing (insertAll set members) := by
  unfold insertAll
  induction members generalizing set with
  | nil => exact h
  | cons a as ih => exact ih (increasing_insert h)

theorem increasing_ofList [Std.TransOrd α] [Std.LawfulEqOrd α] (members : List α) :
    Increasing (ofList members) :=
  increasing_insertAll List.Pairwise.nil

/-- Sorting forgets order and repetitions. -/
theorem ofList_congr [Std.TransOrd α] [Std.LawfulEqOrd α] {members others : List α}
    (h : ∀ a, a ∈ members ↔ a ∈ others) : ofList members = ofList others := by
  refine (increasing_ofList members).eq_of_mem_iff (increasing_ofList others) ?_
  intro a
  rw [mem_ofList, mem_ofList, h]

/-! ## Maps with increasing keys -/

/-- The entries of a map after a value was put under a key. -/
theorem mem_put [Std.TransOrd α] [Std.LawfulEqOrd α] {key : α} {value : β}
    {entries : List (α × β)} (h : Increasing (entries.map (·.1))) {x : α × β} :
    x ∈ put key value entries ↔ x = (key, value) ∨ (x.1 ≠ key ∧ x ∈ entries) := by
  induction entries with
  | nil => simp [put]
  | cons entry rest ih =>
    obtain ⟨k, b⟩ := entry
    obtain ⟨hk, hrest⟩ := List.pairwise_cons.mp h
    -- No later key can be the one that is put, once a smaller or equal key was met.
    have hlater : ∀ y ∈ rest, compare k y.1 = .lt := fun y hy =>
      hk y.1 (List.mem_map_of_mem hy)
    unfold put
    split
    · next heq =>
      subst heq
      have hne : ∀ y ∈ rest, y.1 ≠ key := fun y hy => (ne_of_lt (hlater y hy)).symm
      simp only [List.mem_cons]
      constructor
      · rintro (rfl | hx)
        · exact Or.inl rfl
        · exact Or.inr ⟨hne x hx, Or.inr hx⟩
      · rintro (rfl | ⟨hx, rfl | hmem⟩)
        · exact Or.inl rfl
        · exact absurd rfl hx
        · exact Or.inr hmem
    · next hne =>
      split
      · next hlt =>
        have hfresh : ∀ y ∈ (k, b) :: rest, y.1 ≠ key := by
          intro y hy heq
          rcases List.mem_cons.mp hy with rfl | hy
          · exact hne heq.symm
          · exact ne_of_lt (Std.TransCmp.lt_trans hlt (hlater y hy)) heq.symm
        rw [List.mem_cons]
        constructor
        · rintro (rfl | hx)
          · exact Or.inl rfl
          · exact Or.inr ⟨hfresh x hx, hx⟩
        · rintro (rfl | ⟨-, hx⟩)
          · exact Or.inl rfl
          · exact Or.inr hx
      · rw [List.mem_cons, List.mem_cons, ih hrest]
        constructor
        · rintro (rfl | rfl | ⟨hx, hmem⟩)
          · exact Or.inr ⟨fun heq => hne heq.symm, Or.inl rfl⟩
          · exact Or.inl rfl
          · exact Or.inr ⟨hx, Or.inr hmem⟩
        · rintro (rfl | ⟨hx, rfl | hmem⟩)
          · exact Or.inr (Or.inl rfl)
          · exact Or.inl rfl
          · exact Or.inr (Or.inr ⟨hx, hmem⟩)

/-- The value under a key is that of its entry. -/
theorem find?_eq_some_iff [Std.TransOrd α] {key : α} {value : β}
    {entries : List (α × β)} (h : Increasing (entries.map (·.1))) :
    find? key entries = some value ↔ (key, value) ∈ entries := by
  induction entries with
  | nil => simp [find?]
  | cons entry rest ih =>
    obtain ⟨k, b⟩ := entry
    obtain ⟨hk, hrest⟩ := List.pairwise_cons.mp h
    rw [find?, List.mem_cons, Prod.mk.injEq]
    split
    · next heq =>
      subst heq
      have hnot : (key, value) ∉ rest := fun hmem =>
        ne_of_lt (hk key (List.mem_map_of_mem hmem)) rfl
      simp [hnot, eq_comm]
    · next hne => rw [ih hrest, or_iff_right fun heq => hne heq.1]

/-- Putting the value that a key has changes nothing. -/
theorem put_of_find? [Std.TransOrd α] {key : α} {value : β} {entries : List (α × β)}
    (h : Increasing (entries.map (·.1))) (hfind : find? key entries = some value) :
    put key value entries = entries := by
  induction entries with
  | nil => cases hfind
  | cons entry rest ih =>
    obtain ⟨k, b⟩ := entry
    obtain ⟨hk, hrest⟩ := List.pairwise_cons.mp h
    rw [find?] at hfind
    rw [put]
    by_cases hkey : key = k
    · rw [if_pos hkey] at hfind ⊢
      rw [Option.some.inj hfind]
    · rw [if_neg hkey] at hfind ⊢
      -- The key stands further behind, so it is greater than this one.
      have hmem := (find?_eq_some_iff hrest).mp hfind
      have hgt := Std.OrientedCmp.gt_of_lt (hk key (List.mem_map_of_mem hmem))
      rw [if_neg (by rw [hgt]; decide), ih hrest hfind]

/-- The keys after a value was put are those of before and the new one. -/
theorem map_fst_put (key : α) (value : β) (entries : List (α × β)) :
    (put key value entries).map (·.1) = insert key (entries.map (·.1)) := by
  induction entries with
  | nil => rfl
  | cons entry rest ih =>
    obtain ⟨k, b⟩ := entry
    simp only [put, List.map_cons, insert]
    split
    · rfl
    · split
      · rfl
      · simp only [List.map_cons, ih]

/-- Removing a key that was new when it was put gives back the entries. -/
theorem erase_put {key : α} {value : β} {entries : List (α × β)} (h : find? key entries = none) :
    erase key (put key value entries) = entries := by
  induction entries with
  | nil => simp [put, erase]
  | cons entry rest ih =>
    obtain ⟨k, b⟩ := entry
    by_cases hkey : key = k
    · simp [find?, hkey] at h
    · have hrest : find? key rest = none := by simpa [find?, hkey] using h
      rw [put, if_neg hkey]
      split
      · rw [erase, if_pos rfl]
      · rw [erase, if_neg hkey, ih hrest]

/-- With increasing keys, removing a key removes all that is under it. -/
theorem erase_eq_filter [Std.TransOrd α] {key : α} {entries : List (α × β)}
    (h : Increasing (entries.map (·.1))) :
    erase key entries = entries.filter fun entry => entry.1 != key := by
  induction entries with
  | nil => rfl
  | cons entry rest ih =>
    obtain ⟨k, b⟩ := entry
    obtain ⟨hk, hrest⟩ := List.pairwise_cons.mp h
    rw [erase]
    by_cases hkey : key = k
    · -- All later keys are greater than the one that is removed.
      subst hkey
      have hlater : ∀ later ∈ rest, (later.1 != key) = true := fun later hlater =>
        bne_iff_ne.mpr (ne_of_lt (hk later.1 (List.mem_map_of_mem hlater))).symm
      rw [if_pos rfl, List.filter_cons_of_neg (by simp), List.filter_eq_self.mpr hlater]
    · rw [if_neg hkey, List.filter_cons_of_pos (by simpa using Ne.symm hkey), ih hrest]

end Sorted
end ValueFlow
