/-
  ValueFlow.Flow.Cache

  Compiled models of several units, each compiled once.

  Every compilation gets a serial number, so that one can tell whether an answer is
  the one given before or was compiled again after an eviction.
-/

import ValueFlow.Flow.Compiled

namespace ValueFlow

/-- Identity of a loaded unit. -/
structure UnitId where
  number : Nat
deriving DecidableEq, Repr, Ord

/-- The models compiled for a unit and the number of that compilation. -/
structure CompiledEntry where
  serial : Nat
  models : CompiledModels
deriving DecidableEq, Repr

/-- The models of a session and what was compiled so far. -/
structure ModelCache where
  store : ModelStore
  entries : List (UnitId × CompiledEntry)
  nextSerial : Nat
deriving DecidableEq, Repr

namespace ModelCache

/-- A cache in which nothing is compiled. -/
def new (store : ModelStore) : ModelCache := ⟨store, [], 0⟩

/-- The compiled models of a unit, compiled at the first request. -/
def request (cache : ModelCache) (id : UnitId) (u : CompilationUnit) :
    CompiledEntry × ModelCache :=
  match Sorted.find? id cache.entries with
  | some entry => (entry, cache)
  | none =>
    let entry : CompiledEntry := ⟨cache.nextSerial, .forUnit cache.store u⟩
    (entry, { cache with
      entries := Sorted.put id entry cache.entries
      nextSerial := cache.nextSerial + 1 })

/-- Forgets the models of a unit; the result tells whether there were any. -/
def evict (cache : ModelCache) (id : UnitId) : Bool × ModelCache :=
  ((Sorted.find? id cache.entries).isSome,
    { cache with entries := Sorted.erase id cache.entries })

/-- Number of units with compiled models. -/
def size (cache : ModelCache) : Nat := cache.entries.length

end ModelCache
end ValueFlow
