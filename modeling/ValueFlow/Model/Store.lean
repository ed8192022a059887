/-
  ValueFlow.Model.Store

  All models of a session, grouped by the type that they are about.

  A table is added as a whole: if one of its rows is wrong the store stays as it
  was. Rows about one type keep the order in which they were added.
-/

import ValueFlow.Model.Csv
import ValueFlow.Model.Row
import ValueFlow.Sorted

namespace ValueFlow

/-- Models grouped by type name, the names increasing. -/
structure ModelIndex (α : Type) where
  groups : List (String × List α)
deriving DecidableEq, Repr

namespace ModelIndex

variable {α : Type}

/-- An index without models. -/
def empty : ModelIndex α := ⟨[]⟩

/-- The models about a type. -/
def get (index : ModelIndex α) (fqn : String) : List α :=
  (Sorted.find? fqn index.groups).getD []

/-- Adds models about a type after those that are there. -/
def append (index : ModelIndex α) (fqn : String) (models : List α) : ModelIndex α :=
  ⟨Sorted.put fqn (index.get fqn ++ models) index.groups⟩

/-- The index of models in order, given the type that each is about. -/
def ofList (fqn : α → String) (models : List α) : ModelIndex α :=
  models.foldl (fun index model => index.append (fqn model) [model]) empty

/-- Adds all models of another index. -/
def merge (index other : ModelIndex α) : ModelIndex α :=
  other.groups.foldl (fun acc group => acc.append group.1 group.2) index

/-- The types that some model is about. -/
def fqns (index : ModelIndex α) : List String := index.groups.map (·.1)

/-- All models, by type. -/
def all (index : ModelIndex α) : List α := index.groups.flatMap (·.2)

/-- Number of models. -/
def size (index : ModelIndex α) : Nat := index.all.length

/-- Whether there is no model. -/
def isEmpty (index : ModelIndex α) : Bool := index.groups.isEmpty

/-- The models about the given types, a repeated type counting once. -/
def forTypes (index : ModelIndex α) (fqns : List String) : List α :=
  fqns.eraseDups.flatMap index.get

end ModelIndex

/-- All models of a session. -/
structure ModelStore where
  value : ModelIndex FlowModel
  taint : ModelIndex FlowModel
  sinks : ModelIndex SinkModel
deriving DecidableEq, Repr

namespace ModelStore

/-- A store without models. -/
def empty : ModelStore := ⟨.empty, .empty, .empty⟩

/-- The flow models of a kind. -/
def flows (store : ModelStore) : FlowKind → ModelIndex FlowModel
  | .value => store.value
  | .taint => store.taint

/-- Number of flow models of both kinds. -/
def flowCount (store : ModelStore) : Nat := store.value.size + store.taint.size

/-- The index of the flow models of one kind among rows. -/
def flowIndex (kind : FlowKind) (rows : List FlowModel) : ModelIndex FlowModel :=
  .ofList (·.method.fqn) (rows.filter fun row => row.kind == kind)

/-- Adds a table of flow models. -/
def addFlows (store : ModelStore) (origin text : String) : Except ModelError ModelStore := do
  let rows ← Csv.rows origin FlowModel.ofFields text
  .ok { store with
    value := store.value.merge (flowIndex .value rows)
    taint := store.taint.merge (flowIndex .taint rows) }

/-- Adds a table of sink models. -/
def addSinks (store : ModelStore) (origin text : String) : Except ModelError ModelStore := do
  let rows ← Csv.rows origin SinkModel.ofFields text
  .ok { store with sinks := store.sinks.merge (.ofList (·.method.fqn) rows) }

end ModelStore
end ValueFlow
