/-
  ValueFlow.Loading

  Units and model tables read from files.
-/

import ValueFlow.CompilationUnit
import ValueFlow.Files
import ValueFlow.Json.Parser
import ValueFlow.Model.Store
import ValueFlow.Syntax.Json

namespace ValueFlow

/-! ## Units -/

namespace CompilationUnit

/-- Reads and checks the text of a unit. -/
def parse (text : String) : Except TreeError CompilationUnit :=
  match (Json.parseAs? Tree.shape text).bind Tree.ofJson? with
  | none => .error .malformed
  | some tree => ofTree tree

/-- The text of a unit. -/
def save (u : CompilationUnit) : String := u.tree.toJson.pretty

/-- Loads a unit from a file. -/
def load (view : FileView) (path : String) : Except TreeError CompilationUnit :=
  match view path with
  | none => .error .unreadable
  | some .directory => .error .malformed
  | some (.file text) => parse text

end CompilationUnit

/-! ## Models -/

namespace ModelStore

/-- File name of a table of flow models. -/
def flowsName : String := "flows.csv"

/-- File name of a table of sink models. -/
def sinksName : String := "sinks.csv"

/-- Adds a table to a store. -/
abbrev AddTable := ModelStore → String → String → Except ModelError ModelStore

/-- Loads the text of a table; a wrong one leaves the store as it was. -/
def loadText (store : ModelStore) (add : AddTable) (path text : String) :
    ModelStore × Option ModelError :=
  match add store path text with
  | .error error => (store, some error)
  | .ok store => (store, none)

/-- Loads one table. -/
def loadFile (store : ModelStore) (view : FileView) (add : AddTable) (path : String) :
    ModelStore × Option ModelError :=
  match view.read? path with
  | none => (store, some .unreadable)
  | some text => store.loadText add path text

/-- Loads one table if there is one. -/
def loadPresent (store : ModelStore) (view : FileView) (add : AddTable) (path : String) :
    ModelStore × Option ModelError :=
  match view.read? path with
  | none => (store, none)
  | some text => store.loadText add path text

/-- Loads the tables that a directory has, flow models first. A mistake in the second one
    leaves the first one loaded. -/
def loadDirectory (store : ModelStore) (view : FileView) (path : String) :
    ModelStore × Option ModelError :=
  match store.loadPresent view addFlows (Files.join path flowsName) with
  | (store, some error) => (store, some error)
  | (store, none) => store.loadPresent view addSinks (Files.join path sinksName)

/-- Loads a table, or the tables of a directory; the result has what was loaded before
    the first mistake. -/
def load (store : ModelStore) (view : FileView) (path : String) :
    ModelStore × Option ModelError :=
  if view path = some .directory then store.loadDirectory view path
  else
    match Files.lastName? path with
    | some name =>
      if name = flowsName then store.loadFile view addFlows path
      else if name = sinksName then store.loadFile view addSinks path
      else (store, some (.badPath path))
    | none => (store, some (.badPath path))

/-- Loads several paths in turn. -/
def loadAll (store : ModelStore) (view : FileView) : List String → Except ModelError ModelStore
  | [] => .ok store
  | path :: rest =>
    match store.load view path with
    | (_, some error) => .error error
    | (store, none) => store.loadAll view rest

end ModelStore
end ValueFlow
