/-
  ValueFlow.Json.Decode

  Reading typed values out of JSON.

  A record is an object, in which unknown fields are ignored and a known field
  may stand once only, or the array of its leading fields. A choice without
  content is its name, or an object that maps the name to nothing: to null, or to an
  empty object if the fields around it were gathered before they were read.
-/

import ValueFlow.Json.Basic

namespace ValueFlow
namespace Json

/-! ## Plain values -/

/-- A string. -/
def str? : Json → Option String
  | .str value => some value
  | _ => none

/-- A truth value. -/
def bool? : Json → Option Bool
  | .bool value => some value
  | _ => none

/-- An integer. -/
def int? : Json → Option Int
  | .int value => some value
  | _ => none

/-- A natural number. -/
def nat? : Json → Option Nat
  | .int value => if 0 ≤ value then some value.toNat else none
  | _ => none

/-- An array whose items all decode. -/
def list? {α : Type} (decode : Json → Option α) : Json → Option (List α)
  | .arr items => items.mapM decode
  | _ => none

/-- An object. -/
def object? : Json → Option Json
  | .obj fields => some (.obj fields)
  | _ => none

/-! ## Fields -/

/-- The value of a field that may be absent; a name that stands twice is refused. -/
def field? (name : String) (fields : List (String × Json)) : Option (Option Json) :=
  match fields.filter (fun entry => entry.1 == name) with
  | [] => some none
  | [(_, value)] => some (some value)
  | _ => none

/-- The value of a field in an object; the last one counts. -/
def get? (name : String) : Json → Option Json
  | .obj fields => (fields.reverse.find? fun entry => entry.1 == name).map (·.2)
  | _ => none

/-- The values of a record's fields, in the order of `names`. -/
def record? (names : List String) : Json → Option (List (Option Json))
  | .obj fields => names.mapM fun name => field? name fields
  | .arr items =>
    if items.length ≤ names.length then
      some (items.map some ++ List.replicate (names.length - items.length) none)
    else none
  | _ => none

/-- A field that has to be present. -/
def required {α : Type} (decode : Json → Option α) : Option Json → Option α
  | some value => decode value
  | none => none

/-- A field that may be absent or null. -/
def optional {α : Type} (decode : Json → Option α) : Option Json → Option (Option α)
  | none => some none
  | some .null => some none
  | some value => (decode value).map some

/-- A field with a default, which stands for its absence and not for null. -/
def orDefault {α : Type} (default : α) (decode : Json → Option α) : Option Json → Option α
  | none => some default
  | some value => decode value

/-- A needed field of an object. -/
def need {α : Type} (value : Json) (name : String) (decode : Json → Option α) : Option α :=
  required decode (value.get? name)

/-- A field of an object that may be absent or null. -/
def may {α : Type} (value : Json) (name : String) (decode : Json → Option α) :
    Option (Option α) :=
  optional decode (value.get? name)

/-- A field of an object with a default for its absence. -/
def getOr {α : Type} (value : Json) (name : String) (default : α) (decode : Json → Option α) :
    Option α :=
  orDefault default decode (value.get? name)

/-! ## Tuples -/

/-- An array of two. -/
def pair? {α β : Type} (first : Json → Option α) (second : Json → Option β) :
    Json → Option (α × β)
  | .arr [a, b] => do some (← first a, ← second b)
  | _ => none

/-- An array of three. -/
def triple? {α β γ : Type} (first : Json → Option α) (second : Json → Option β)
    (third : Json → Option γ) : Json → Option (α × β × γ)
  | .arr [a, b, c] => do some (← first a, ← second b, ← third c)
  | _ => none

/-! ## Choices -/

/-- How the record around a value is read. -/
inductive Setting where
  /-- Field by field. -/
  | direct
  /-- By gathering its fields first, because one of them says what the others are. -/
  | gathered
deriving DecidableEq, Repr

/-- Whether a value stands for no content. -/
def Setting.isNothing : Setting → Json → Bool
  | _, .null => true
  | .gathered, .obj [] => true
  | _, _ => false

/-- The name of a choice and its content, if it has one. -/
def choice? (setting : Setting) : Json → Option (String × Option Json)
  | .str name => some (name, none)
  | .obj [(name, content)] =>
    some (name, if setting.isNothing content then none else some content)
  | _ => none

/-- The name of a choice without content. -/
def plainChoice? (setting : Setting) (value : Json) : Option String :=
  match choice? setting value with
  | some (name, none) => some name
  | _ => none

end Json
end ValueFlow
