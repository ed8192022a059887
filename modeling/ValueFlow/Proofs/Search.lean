/-
  ValueFlow.Proofs.Search

  A search finds exactly what can be reached.

  The bound of a search is enough as soon as it is not below the size of a list that
  contains the starts and is closed under the successor function: every expansion uses
  up one member of that list.
-/

import ValueFlow.Search
import Mathlib.Data.List.Chain
import Mathlib.Data.List.Perm.Subperm
import Mathlib.Logic.Relation

namespace ValueFlow
namespace Search

variable {α : Type} [DecidableEq α]

/-- One step along a successor function. -/
def Step (next : α → List α) (a b : α) : Prop := b ∈ next a

/-- `b` is reached from `a` in any number of steps. -/
abbrev Reach (next : α → List α) : α → α → Prop := Relation.ReflTransGen (Step next)

/-! ## Pending members -/

/-- Everything pending is found already, or the first new member splits the list. -/
theorem dropWhile_found (found pending : List α) :
    (pending.dropWhile (fun a => decide (a ∈ found)) = [] ∧ ∀ a ∈ pending, a ∈ found) ∨
    ∃ a rest, pending.dropWhile (fun a => decide (a ∈ found)) = a :: rest ∧
      a ∉ found ∧ a ∈ pending ∧ (∀ b ∈ rest, b ∈ pending) ∧
      ∀ b ∈ pending, b ∈ found ∨ b = a ∨ b ∈ rest := by
  induction pending with
  | nil => left; simp
  | cons b pending ih =>
    by_cases hb : b ∈ found
    · have hdrop : (b :: pending).dropWhile (fun a => decide (a ∈ found)) =
          pending.dropWhile (fun a => decide (a ∈ found)) := by simp [hb]
      rw [hdrop]
      rcases ih with ⟨hnil, hall⟩ | ⟨a, rest, hcons, ha, hmem, hrest, hall⟩
      · left
        exact ⟨hnil, by simpa [hb] using hall⟩
      · right
        refine ⟨a, rest, hcons, ha, by simp [hmem], ?_, ?_⟩
        · intro c hc
          exact List.mem_cons_of_mem _ (hrest c hc)
        · intro c hc
          rcases List.mem_cons.mp hc with rfl | hc
          · exact Or.inl hb
          · exact hall c hc
    · right
      refine ⟨b, pending, by simp [hb], hb, by simp, ?_, ?_⟩
      · intro c hc
        exact List.mem_cons_of_mem _ hc
      · intro c hc
        rcases List.mem_cons.mp hc with rfl | hc
        · exact Or.inr (Or.inl rfl)
        · exact Or.inr (Or.inr hc)

omit [DecidableEq α] in
/-- A list without repetition that is as long as a list around it has all its
    members. -/
theorem subset_of_length_le {found space : List α} (hnodup : found.Nodup)
    (hsub : ∀ a ∈ found, a ∈ space) (hlen : space.length ≤ found.length) :
    ∀ a ∈ space, a ∈ found := by
  have hperm : found.Perm space :=
    (List.subperm_of_subset hnodup hsub).perm_of_length_le hlen
  intro a ha
  exact hperm.mem_iff.mpr ha

/-! ## What a search finds -/

/-- A search loses nothing that was found before. -/
theorem subset_expand (next : α → List α) (bound : Nat) (found pending : List α) :
    ∀ a ∈ found, a ∈ expand next bound found pending := by
  induction bound generalizing found pending with
  | zero => intro a ha; exact ha
  | succ bound ih =>
    intro a ha
    rw [expand]
    split
    · exact ha
    · exact ih _ _ a (List.mem_cons_of_mem _ ha)

/-- What a search finds can be reached from a pending member. -/
theorem expand_sound (next : α → List α) (bound : Nat) (found pending : List α) :
    ∀ a ∈ expand next bound found pending,
      a ∈ found ∨ ∃ start ∈ pending, Reach next start a := by
  induction bound generalizing found pending with
  | zero => intro a ha; exact Or.inl ha
  | succ bound ih =>
    intro a ha
    rw [expand] at ha
    rcases dropWhile_found found pending with
      ⟨hnil, -⟩ | ⟨b, rest, hcons, -, hmem, hrest, -⟩
    · rw [hnil] at ha
      exact Or.inl ha
    · rw [hcons] at ha
      rcases ih _ _ a ha with hfound | ⟨start, hstart, hreach⟩
      · rcases List.mem_cons.mp hfound with rfl | hfound
        · exact Or.inr ⟨_, hmem, .refl⟩
        · exact Or.inl hfound
      · right
        rcases List.mem_append.mp hstart with hnext | hstart
        · exact ⟨b, hmem, .head hnext hreach⟩
        · exact ⟨start, hrest start hstart, hreach⟩

/-- Members that are found or pending, with all successors of those found. -/
structure Frontier (next : α → List α) (space found pending : List α) : Prop where
  nodup : found.Nodup
  found_mem : ∀ a ∈ found, a ∈ space
  pending_mem : ∀ a ∈ pending, a ∈ space
  space_closed : ∀ a ∈ space, ∀ b ∈ next a, b ∈ space
  found_closed : ∀ a ∈ found, ∀ b ∈ next a, b ∈ found ∨ b ∈ pending

omit [DecidableEq α] in
/-- Expanding the first new member keeps a frontier. -/
theorem Frontier.advance {next : α → List α} {space found pending rest : List α} {a : α}
    (h : Frontier next space found pending) (ha : a ∉ found) (hmem : a ∈ pending)
    (hrest : ∀ b ∈ rest, b ∈ pending)
    (hall : ∀ b ∈ pending, b ∈ found ∨ b = a ∨ b ∈ rest) :
    Frontier next space (a :: found) (next a ++ rest) where
  nodup := List.nodup_cons.mpr ⟨ha, h.nodup⟩
  found_mem := by
    intro b hb
    rcases List.mem_cons.mp hb with rfl | hb
    · exact h.pending_mem _ hmem
    · exact h.found_mem b hb
  pending_mem := by
    intro b hb
    rcases List.mem_append.mp hb with hb | hb
    · exact h.space_closed a (h.pending_mem a hmem) b hb
    · exact h.pending_mem b (hrest b hb)
  space_closed := h.space_closed
  found_closed := by
    intro b hb c hc
    rcases List.mem_cons.mp hb with rfl | hb
    · exact Or.inr (List.mem_append_left _ hc)
    · rcases h.found_closed b hb c hc with hfound | hpending
      · exact Or.inl (List.mem_cons_of_mem _ hfound)
      · rcases hall c hpending with hfound | rfl | hrest
        · exact Or.inl (List.mem_cons_of_mem _ hfound)
        · exact Or.inl (by simp)
        · exact Or.inr (List.mem_append_right _ hrest)

/-- A search with enough bound finds all that is pending, and stops only when nothing
    found leads further. -/
theorem expand_complete {next : α → List α} {space : List α} (bound : Nat)
    (found pending : List α) (h : Frontier next space found pending)
    (hbound : space.length ≤ bound + found.length) :
    (∀ a ∈ pending, a ∈ expand next bound found pending) ∧
    ∀ a ∈ expand next bound found pending, ∀ b ∈ next a,
      b ∈ expand next bound found pending := by
  induction bound generalizing found pending with
  | zero =>
    -- The bound is used up, so everything there is has been found.
    have hfull : ∀ a ∈ space, a ∈ found :=
      subset_of_length_le h.nodup h.found_mem (by omega)
    refine ⟨fun a ha => hfull a (h.pending_mem a ha), ?_⟩
    intro a ha b hb
    exact hfull b (h.space_closed a (h.found_mem a ha) b hb)
  | succ bound ih =>
    rw [expand]
    rcases dropWhile_found found pending with
      ⟨hnil, hall⟩ | ⟨a, rest, hcons, ha, hmem, hrest, hall⟩
    · rw [hnil]
      refine ⟨hall, ?_⟩
      intro a ha b hb
      rcases h.found_closed a ha b hb with hb | hb
      · exact hb
      · exact hall b hb
    · rw [hcons]
      have hnext := h.advance ha hmem hrest hall
      obtain ⟨hpending, hclosed⟩ :=
        ih (a :: found) (next a ++ rest) hnext (by simp only [List.length_cons]; omega)
      refine ⟨?_, hclosed⟩
      intro b hb
      rcases hall b hb with hb | rfl | hb
      · exact subset_expand _ _ _ _ b (List.mem_cons_of_mem _ hb)
      · exact subset_expand _ _ _ _ b (by simp)
      · exact hpending b (List.mem_append_right _ hb)

omit [DecidableEq α] in
/-- A set that is closed under a successor function keeps all that is reached from
    it. -/
theorem Reach.mem_of_closed {next : α → List α} {P : α → Prop}
    (hclosed : ∀ a, P a → ∀ b ∈ next a, P b) {a b : α} (h : Reach next a b) (ha : P a) :
    P b := by
  induction h with
  | refl => exact ha
  | tail _ hstep ih => exact hclosed _ ih _ hstep

/-- From a closed set of members, a search adds exactly what is reached from the pending
    ones. -/
theorem mem_expand_iff {next : α → List α} {space : List α} {bound : Nat}
    {found pending : List α} (h : Frontier next space found pending)
    (hbound : space.length ≤ bound + found.length) {a : α} :
    a ∈ expand next bound found pending ↔
      a ∈ found ∨ ∃ start ∈ pending, Reach next start a := by
  obtain ⟨hpending, hclosed⟩ := expand_complete bound found pending h hbound
  constructor
  · exact expand_sound next bound found pending a
  · rintro (ha | ⟨start, hstart, hreach⟩)
    · exact subset_expand _ _ _ _ a ha
    · exact hreach.mem_of_closed (P := (· ∈ expand next bound found pending)) hclosed
        (hpending start hstart)

/-- The closure of some starts is what can be reached from them. -/
theorem mem_closure_iff {next : α → List α} {space : List α} {bound : Nat}
    {starts : List α} (hstarts : ∀ a ∈ starts, a ∈ space)
    (hclosed : ∀ a ∈ space, ∀ b ∈ next a, b ∈ space) (hbound : space.length ≤ bound)
    {a : α} :
    a ∈ closure next bound starts ↔ ∃ start ∈ starts, Reach next start a := by
  have hfrontier : Frontier next space [] starts :=
    ⟨List.nodup_nil, by simp, hstarts, hclosed, by simp⟩
  rw [closure, mem_expand_iff hfrontier (by simpa using hbound)]
  simp

omit [DecidableEq α] in
/-- A frontier depends on the pending members only, not on their order. -/
theorem Frontier.of_mem_iff {next : α → List α} {space found pending other : List α}
    (h : Frontier next space found pending) (hmem : ∀ a, a ∈ other ↔ a ∈ pending) :
    Frontier next space found other where
  nodup := h.nodup
  found_mem := h.found_mem
  pending_mem a ha := h.pending_mem a ((hmem a).mp ha)
  space_closed := h.space_closed
  found_closed a ha b hb := (h.found_closed a ha b hb).imp_right (hmem b).mpr

omit [DecidableEq α] in
/-- What is reached and not found yet lies behind a pending member that is new. -/
theorem Frontier.exists_pending {next : α → List α} {space found pending : List α}
    (h : Frontier next space found pending) {a b : α} (ha : a ∈ found ∨ a ∈ pending)
    (hreach : Reach next a b) (hb : b ∉ found) :
    ∃ start ∈ pending, start ∉ found ∧ Reach next start b := by
  induction hreach using Relation.ReflTransGen.head_induction_on with
  | refl => exact ⟨b, ha.resolve_left hb, hb, .refl⟩
  | @head a c hstep hrest ih =>
    by_cases hfound : a ∈ found
    · exact ih (h.found_closed a hfound c hstep)
    · exact ⟨a, ha.resolve_left hfound, hfound, .head hstep hrest⟩

/-- What is still to be found: it is reached from a pending member. -/
def Ahead (next : α → List α) (found pending : List α) (a : α) : Prop :=
  a ∉ found ∧ ∃ start ∈ pending, Reach next start a

omit [DecidableEq α] in
/-- Expanding a member finds this one, and the rest is still to be found. -/
theorem Frontier.ahead_iff {next : α → List α} {space found pending rest : List α} {a : α}
    (h : Frontier next space found pending) (ha : a ∉ found) (hmem : a ∈ pending)
    (hrest : ∀ b ∈ rest, b ∈ pending)
    (hall : ∀ b ∈ pending, b ∈ found ∨ b = a ∨ b ∈ rest) {b : α} :
    Ahead next found pending b ↔ b = a ∨ Ahead next (a :: found) (next a ++ rest) b := by
  constructor
  · rintro ⟨hb, start, hstart, hreach⟩
    by_cases heq : b = a
    · exact Or.inl heq
    · right
      have hlater : b ∉ a :: found := by simp [heq, hb]
      have hcovered : start ∈ a :: found ∨ start ∈ next a ++ rest := by
        rcases hall start hstart with hold | rfl | hlate
        · exact Or.inl (List.mem_cons_of_mem _ hold)
        · exact Or.inl List.mem_cons_self
        · exact Or.inr (List.mem_append_right _ hlate)
      obtain ⟨other, hother, -, hbehind⟩ :=
        (h.advance ha hmem hrest hall).exists_pending hcovered hreach hlater
      exact ⟨hlater, other, hother, hbehind⟩
  · rintro (rfl | ⟨hb, start, hstart, hreach⟩)
    · exact ⟨ha, b, hmem, .refl⟩
    · refine ⟨fun hold => hb (List.mem_cons_of_mem _ hold), ?_⟩
      rcases List.mem_append.mp hstart with hnext | hlate
      · exact ⟨a, hmem, .head hnext hreach⟩
      · exact ⟨start, hrest start hlate, hreach⟩

omit [DecidableEq α] in
/-- When all pending members are found, nothing is ahead. -/
theorem Frontier.not_ahead {next : α → List α} {space found pending : List α}
    (h : Frontier next space found pending) (hall : ∀ a ∈ pending, a ∈ found) {b : α} :
    ¬ Ahead next found pending b := by
  rintro ⟨hb, start, hstart, hreach⟩
  obtain ⟨other, hother, hnew, -⟩ := h.exists_pending (Or.inr hstart) hreach hb
  exact hnew (hall other hother)

/-- A search that is over at the first member to pass a test finds one exactly if the
    whole search does. -/
theorem meets_iff_exists_mem_expand {next : α → List α} {test : α → Bool} (bound : Nat)
    {found pending : List α} (hfound : ∀ a ∈ found, test a = false) :
    meets next test bound found pending = true ↔
      ∃ a ∈ expand next bound found pending, test a = true := by
  induction bound generalizing found pending with
  | zero => simpa [meets, expand] using hfound
  | succ bound ih =>
    rw [meets, expand]
    cases pending.dropWhile (fun a => decide (a ∈ found)) with
    | nil => simpa using hfound
    | cons a rest =>
      show (test a || meets next test bound (a :: found) (next a ++ rest)) = true ↔
        ∃ b ∈ expand next bound (a :: found) (next a ++ rest), test b = true
      cases ha : test a with
      | true => exact iff_of_true rfl ⟨a, subset_expand _ _ _ _ a List.mem_cons_self, ha⟩
      | false =>
        rw [Bool.false_or]
        refine ih fun b hb => ?_
        rcases List.mem_cons.mp hb with rfl | hb
        · exact ha
        · exact hfound b hb

/-- From some starts a search meets what passes the test if such a member can be
    reached. -/
theorem meets_iff {next : α → List α} {test : α → Bool} {space : List α} {bound : Nat}
    {starts : List α} (hstarts : ∀ a ∈ starts, a ∈ space)
    (hclosed : ∀ a ∈ space, ∀ b ∈ next a, b ∈ space) (hbound : space.length ≤ bound) :
    meets next test bound [] starts = true ↔
      ∃ start ∈ starts, ∃ a, Reach next start a ∧ test a = true := by
  have hmem : ∀ a, a ∈ expand next bound [] starts ↔ ∃ start ∈ starts, Reach next start a :=
    fun a => mem_closure_iff hstarts hclosed hbound
  rw [meets_iff_exists_mem_expand bound (by simp)]
  simp only [hmem]
  constructor
  · rintro ⟨a, ⟨start, hstart, hreach⟩, hpasses⟩
    exact ⟨start, hstart, a, hreach, hpasses⟩
  · rintro ⟨start, hstart, a, hreach, hpasses⟩
    exact ⟨a, ⟨start, hstart, hreach⟩, hpasses⟩

/-! ## Searches without a bound -/

section Ends

variable {next : α → List α} {space found pending result : List α}

/-- The loop of a search, to its end: a pending member that is found already is passed over,
    and any other one is found and its successors are put in front. -/
inductive Ends (next : α → List α) : List α → List α → List α → Prop where
  | done {found : List α} : Ends next found [] found
  | again {a : α} {found rest result : List α} : a ∈ found → Ends next found rest result →
      Ends next found (a :: rest) result
  | visit {a : α} {found rest result : List α} : a ∉ found →
      Ends next (a :: found) (next a ++ rest) result → Ends next found (a :: rest) result

theorem Ends.of_dropWhile
    (h : Ends next found (pending.dropWhile fun a => decide (a ∈ found)) result) :
    Ends next found pending result := by
  induction pending with
  | nil => exact h
  | cons a pending ih =>
    by_cases ha : a ∈ found
    · rw [List.dropWhile_cons_of_pos (by simpa using ha)] at h
      exact .again ha (ih h)
    · rwa [List.dropWhile_cons_of_neg (by simpa using ha)] at h

/-- A search whose members are all in one list ends, with what the bounded search finds. -/
theorem Frontier.ends_expand (h : Frontier next space found pending) {bound : Nat}
    (hbound : space.length ≤ bound + found.length) :
    Ends next found pending (expand next bound found pending) := by
  induction bound generalizing found pending with
  | zero =>
    -- Everything there is has been found, so nothing pending is new.
    have hfull : ∀ a ∈ space, a ∈ found := subset_of_length_le h.nodup h.found_mem (by omega)
    refine .of_dropWhile ?_
    rcases dropWhile_found found pending with ⟨hnil, -⟩ | ⟨a, -, -, ha, hmem, -⟩
    · rw [hnil]
      exact .done
    · exact absurd (hfull a (h.pending_mem a hmem)) ha
  | succ bound ih =>
    rw [expand]
    refine .of_dropWhile ?_
    rcases dropWhile_found found pending with
      ⟨hnil, -⟩ | ⟨a, rest, hcons, ha, hmem, hrest, hall⟩
    · rw [hnil]
      exact .done
    · rw [hcons]
      refine .visit ha (ih (h.advance ha hmem hrest hall) ?_)
      rw [List.length_cons]
      omega

theorem ends_closure {bound : Nat} {starts : List α} (hstarts : ∀ a ∈ starts, a ∈ space)
    (hclosed : ∀ a ∈ space, ∀ b ∈ next a, b ∈ space) (hbound : space.length ≤ bound) :
    Ends next [] starts (closure next bound starts) :=
  Frontier.ends_expand ⟨List.nodup_nil, by simp, hstarts, hclosed, by simp⟩ hbound

end Ends

/-! ## Paths -/

section Paths

omit [DecidableEq α]

variable {step : α → α → Prop}

/-- The members of a path lie between its ends. -/
theorem reach_of_isChain {first last : α} {rest : List α}
    (hchain : (first :: rest).IsChain step) (hlast : (first :: rest).getLast? = some last) :
    ∀ a ∈ first :: rest,
      Relation.ReflTransGen step first a ∧ Relation.ReflTransGen step a last := by
  induction rest generalizing first with
  | nil =>
    intro a ha
    obtain rfl := List.mem_singleton.mp ha
    obtain rfl : a = last := by simpa using hlast
    exact ⟨.refl, .refl⟩
  | cons next rest ih =>
    obtain ⟨hstep, hrest⟩ := List.isChain_cons_cons.mp hchain
    have hbetween := ih hrest (by rwa [List.getLast?_cons_cons] at hlast)
    intro a ha
    rcases List.mem_cons.mp ha with rfl | ha
    · exact ⟨.refl, .head hstep (hbetween next List.mem_cons_self).2⟩
    · obtain ⟨hforward, hbackward⟩ := hbetween a ha
      exact ⟨.head hstep hforward, hbackward⟩

/-- A path through a member that lies between two others. -/
theorem exists_path {first a last : α} (hforward : Relation.ReflTransGen step first a)
    (hbackward : Relation.ReflTransGen step a last) :
    ∃ rest, (first :: rest).IsChain step ∧ (first :: rest).getLast? = some last ∧
      a ∈ first :: rest := by
  induction hforward using Relation.ReflTransGen.head_induction_on with
  | refl =>
    obtain ⟨rest, hchain, hlast⟩ := List.exists_isChain_cons_of_relationReflTransGen hbackward
    exact ⟨rest, hchain, by rw [List.getLast?_eq_some_getLast (List.cons_ne_nil _ _), hlast],
      List.mem_cons_self⟩
  | head hstep _ ih =>
    obtain ⟨rest, hchain, hlast, hmem⟩ := ih
    exact ⟨_ :: rest, .cons_cons hstep hchain, by rwa [List.getLast?_cons_cons],
      List.mem_cons_of_mem _ hmem⟩

end Paths

/-! ## Trails -/

/-- A way from `start` along a relation that comes to no member twice, the latest member
    first. -/
inductive Trail (step : α → α → Prop) (start : α) : List α → Prop where
  | start : Trail step start [start]
  | step {last next : α} {rest : List α} : Trail step start (last :: rest) → step last next →
      next ∉ last :: rest → Trail step start (next :: last :: rest)

namespace Trail

variable {step : α → α → Prop} {start : α}

omit [DecidableEq α]

theorem start_suffix {trail : List α} (h : Trail step start trail) : [start] <:+ trail := by
  induction h with
  | start => exact List.suffix_refl _
  | step _ _ _ ih => exact ih.trans (List.suffix_cons _ _)

theorem start_mem {trail : List α} (h : Trail step start trail) : start ∈ trail :=
  h.start_suffix.subset List.mem_cons_self

theorem nodup {trail : List α} (h : Trail step start trail) : trail.Nodup := by
  induction h with
  | start => simp
  | step _ _ hnew ih => exact List.nodup_cons.mpr ⟨hnew, ih⟩

theorem reach {last : α} {rest : List α} (h : Trail step start (last :: rest)) :
    Relation.ReflTransGen step start last := by
  generalize htrail : last :: rest = trail at h
  induction h generalizing last rest with
  | start =>
    cases htrail
    exact .refl
  | step _ hstep _ ih =>
    cases htrail
    exact .tail (ih rfl) hstep

/-- What a trail comes to lies between its ends. -/
theorem between {last : α} {rest : List α} (h : Trail step start (last :: rest)) {a : α}
    (ha : a ∈ last :: rest) :
    Relation.ReflTransGen step start a ∧ Relation.ReflTransGen step a last := by
  generalize htrail : last :: rest = trail at h ha
  induction h generalizing last rest with
  | start =>
    cases htrail
    obtain rfl := List.mem_singleton.mp ha
    exact ⟨.refl, .refl⟩
  | step hold hstep hnew ih =>
    cases htrail
    rcases List.mem_cons.mp ha with rfl | ha
    · exact ⟨(Trail.step hold hstep hnew).reach, .refl⟩
    · obtain ⟨hforward, hbackward⟩ := ih rfl ha
      exact ⟨hforward, hbackward.tail hstep⟩

/-- What a trail comes to after its start, it comes to by a step. -/
theorem exists_step {trail : List α} (h : Trail step start trail) {a : α} (ha : a ∈ trail) :
    a = start ∨ ∃ before, step before a := by
  induction h with
  | start => exact Or.inl (List.mem_singleton.mp ha)
  | step _ hstep _ ih =>
    rcases List.mem_cons.mp ha with rfl | ha
    · exact Or.inr ⟨_, hstep⟩
    · exact ih ha

/-- A trail up to one of its members is a trail. -/
theorem of_suffix {trail rest : List α} {last : α} (h : Trail step start trail)
    (hsuffix : last :: rest <:+ trail) : Trail step start (last :: rest) := by
  induction h with
  | start =>
    rcases List.suffix_cons_iff.mp hsuffix with heq | hnil
    · exact heq ▸ .start
    · cases List.suffix_nil.mp hnil
  | step hold hstep hnew ih =>
    rcases List.suffix_cons_iff.mp hsuffix with heq | hshorter
    · exact heq ▸ .step hold hstep hnew
    · exact ih hshorter

/-- Relations that agree on what is reached have the same trails. -/
theorem imp {other : α → α → Prop}
    (hstep : ∀ a b, Relation.ReflTransGen step start a → step a b → other a b)
    {trail : List α} (h : Trail step start trail) : Trail other start trail := by
  induction h with
  | start => exact .start
  | step hold hlast hnew ih => exact .step ih (hstep _ _ hold.reach hlast) hnew

/-- What is reached is reached by a trail. -/
theorem exists_of_reach {last : α} (h : Relation.ReflTransGen step start last) :
    ∃ rest, Trail step start (last :: rest) := by
  induction h with
  | refl => exact ⟨[], .start⟩
  | @tail middle next _ hstep ih =>
    obtain ⟨rest, htrail⟩ := ih
    by_cases hmem : next ∈ middle :: rest
    · -- The way came here before: what followed is cut off.
      obtain ⟨later, earlier, heq⟩ := List.append_of_mem hmem
      exact ⟨earlier, htrail.of_suffix (heq ▸ List.suffix_append later _)⟩
    · exact ⟨middle :: rest, .step htrail hstep hmem⟩

/-- Trails are the chains that come to no member twice. -/
theorem iff_isChain {trail : List α} :
    Trail step start trail ↔ trail.getLast? = some start ∧
      trail.IsChain (fun next last => step last next) ∧ trail.Nodup := by
  refine ⟨fun h => ⟨?_, ?_, h.nodup⟩, ?_⟩
  · obtain ⟨later, rfl⟩ := h.start_suffix
    rw [List.getLast?_append]
    rfl
  · induction h with
    | start => exact .singleton _
    | step _ hstep _ ih => exact .cons_cons hstep ih
  · rintro ⟨hlast, hchain, hnodup⟩
    induction hchain with
    | nil => cases hlast
    | singleton a =>
      cases hlast
      exact .start
    | cons_cons hstep _ ih =>
      obtain ⟨hnew, hrest⟩ := List.nodup_cons.mp hnodup
      exact .step (ih (by rwa [List.getLast?_cons_cons] at hlast) hrest) hstep hnew

end Trail

end Search
end ValueFlow
