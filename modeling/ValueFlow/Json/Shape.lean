/-
  ValueFlow.Json.Shape

  Which parts of a JSON text are read into a value.
-/

namespace ValueFlow
namespace Json

/-- Which parts of a text are read. -/
inductive Shape where
  /-- Everything. -/
  | whole
  /-- An array with items of one shape. -/
  | items (item : Shape)
  /-- A record with the shapes of its fields; other fields are passed over. -/
  | record (fields : List (String × Shape))

namespace Shape

/-- A record whose fields are read whole. -/
def plainRecord (names : List String) : Shape := .record (names.map fun name => (name, .whole))

/-- The shape of a field, if the field is read. -/
def field? (name : String) : Shape → Option Shape
  | .record fields => fields.lookup name
  | _ => some .whole

/-- The shape of the item at a place. -/
def item (place : Nat) : Shape → Shape
  | .whole => .whole
  | .items item => item
  | .record fields => ((fields[place]?).map (·.2)).getD .whole

end Shape

end Json
end ValueFlow
