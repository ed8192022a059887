/-
  ValueFlow.Proofs.ModelStore

  Models stand where they are looked for.

  The tables of a store group models by type. However a store was loaded, each model is in
  the group of the type that it is about and there is one group for each type, so looking
  up a type finds all models about it and no others.
-/

import ValueFlow.Model.Store
import ValueFlow.Proofs.Sorted
import ValueFlow.Proofs.Tree

namespace ValueFlow

/-! ## Indices -/

namespace ModelIndex

variable {α : Type} {fqn : α → String}

/-- There is one group for each type, which has models about this type only. -/
structure Filed (fqn : α → String) (index : ModelIndex α) : Prop where
  increasing : Sorted.Increasing index.fqns
  filed : ∀ group ∈ index.groups, ∀ model ∈ group.2, fqn model = group.1

theorem Filed.empty : Filed fqn empty := ⟨List.Pairwise.nil, by simp [ModelIndex.empty]⟩

theorem Filed.mem_get_iff {index : ModelIndex α} (h : Filed fqn index) {name : String}
    {model : α} : model ∈ index.get name ↔ model ∈ index.all ∧ fqn model = name := by
  simp only [get, all, List.mem_flatMap]
  refine ⟨?_, ?_⟩
  · intro hmem
    cases hfind : Sorted.find? name index.groups with
    | none => simp [hfind] at hmem
    | some models =>
      rw [hfind, Option.getD_some] at hmem
      have hgroup := (Sorted.find?_eq_some_iff h.increasing).mp hfind
      exact ⟨⟨_, hgroup, hmem⟩, h.filed _ hgroup _ hmem⟩
  · rintro ⟨⟨group, hgroup, hmem⟩, rfl⟩
    rw [h.filed group hgroup model hmem, (Sorted.find?_eq_some_iff h.increasing).mpr hgroup]
    exact hmem

/-- Looking up types finds the models about them. -/
theorem Filed.mem_forTypes_iff {index : ModelIndex α} (h : Filed fqn index)
    {names : List String} {model : α} :
    model ∈ index.forTypes names ↔ model ∈ index.all ∧ fqn model ∈ names := by
  simp [forTypes, h.mem_get_iff, and_comm]

theorem Filed.append {index : ModelIndex α} (h : Filed fqn index) {name : String}
    {models : List α} (hmodels : ∀ model ∈ models, fqn model = name) :
    Filed fqn (index.append name models) where
  increasing := by
    rw [fqns, ModelIndex.append, Sorted.map_fst_put]
    exact Sorted.increasing_insert h.increasing
  filed := by
    intro group hgroup model hmem
    rcases (Sorted.mem_put h.increasing).mp hgroup with rfl | ⟨-, hgroup⟩
    · rcases List.mem_append.mp hmem with hmem | hmem
      · exact (h.mem_get_iff.mp hmem).2
      · exact hmodels model hmem
    · exact h.filed group hgroup model hmem

theorem Filed.ofList (models : List α) : Filed fqn (ofList fqn models) := by
  suffices h : ∀ index, Filed fqn index →
      Filed fqn (models.foldl (fun index model => index.append (fqn model) [model]) index) from
    h _ .empty
  induction models with
  | nil => exact fun _ h => h
  | cons model models ih =>
    exact fun index h => ih _ (h.append fun _ hmem => congrArg fqn (List.mem_singleton.mp hmem))

theorem Filed.merge {index other : ModelIndex α} (h : Filed fqn index)
    (hother : Filed fqn other) : Filed fqn (index.merge other) := by
  -- The groups are added one by one, so that their order does not matter.
  obtain ⟨-, hfiled⟩ := hother
  rw [ModelIndex.merge]
  generalize other.groups = groups at hfiled
  induction groups generalizing index with
  | nil => exact h
  | cons group groups ih =>
    obtain ⟨hgroup, hgroups⟩ := List.forall_mem_cons.mp hfiled
    exact ih (h.append hgroup) hgroups

end ModelIndex

/-! ## Stores -/

namespace ModelStore

/-- The stores that can come about: tables are added to the empty one. -/
inductive Loaded : ModelStore → Prop where
  | empty : Loaded empty
  | addFlows {store next : ModelStore} {origin text : String} : Loaded store →
      store.addFlows origin text = .ok next → Loaded next
  | addSinks {store next : ModelStore} {origin text : String} : Loaded store →
      store.addSinks origin text = .ok next → Loaded next

/-- All models of a store are in the groups of their types. -/
theorem Loaded.filed {store : ModelStore} (h : Loaded store) :
    (∀ kind, (store.flows kind).Filed (·.method.fqn)) ∧ store.sinks.Filed (·.method.fqn) := by
  induction h with
  | empty => exact ⟨fun kind => by cases kind <;> exact .empty, .empty⟩
  | addFlows _ hadd ih =>
    obtain ⟨rows, -, hnext⟩ := bind_eq_ok_iff.mp hadd
    cases hnext
    refine ⟨fun kind => ?_, ih.2⟩
    cases kind with
    | value => exact (ih.1 .value).merge (.ofList _)
    | taint => exact (ih.1 .taint).merge (.ofList _)
  | addSinks _ hadd ih =>
    obtain ⟨rows, -, hnext⟩ := bind_eq_ok_iff.mp hadd
    cases hnext
    exact ⟨ih.1, ih.2.merge (.ofList _)⟩

end ModelStore
end ValueFlow
