/-
  ValueFlow.Model.Row

  Rows of the model tables: how values flow through library methods, and which
  positions of library methods are sensitive.

  Rows are ordered column by column.
-/

import ValueFlow.Model.ArgumentRange
import ValueFlow.Model.Error

namespace ValueFlow

/-- Position of a model that is the returned value. -/
def returnPosition : String := "ReturnValue"

/-- Position of a model that is the receiver. -/
def receiverPosition : String := "Argument[-1]"

/-- Position of a model that is an argument. -/
def argumentPosition (index : Int) : String := ArgumentRange.opening ++ toString index ++ "]"

/-! ## Names -/

/-- The one of two values that has a name. -/
def chosen {β γ : Type} [DecidableEq β] (name : γ → β) (first second : γ) (mistake : ModelError)
    (text : β) : Except ModelError γ :=
  if text = name first then .ok first
  else if text = name second then .ok second
  else .error mistake

/-! ## Flow kinds -/

/-- What is followed: exact values, or anything derived from them. -/
inductive FlowKind where
  | value
  | taint
deriving DecidableEq, Repr, Ord

namespace FlowKind

/-- The name of a flow kind. -/
def text : FlowKind → String
  | .value => "value"
  | .taint => "taint"

/-- The flow kind of a name. -/
def parse (name : String) : Except ModelError FlowKind :=
  chosen text .value .taint (.unknownKind name) name

end FlowKind

/-! ## Rows -/

/-- The method that a model is about, and the position that it takes values from. -/
structure MethodModel where
  package : String
  typeName : String
  /-- Whether the model also holds for subtypes. -/
  subtypes : Bool
  name : String
  signature : String
  ext : String
  input : String
deriving DecidableEq, Repr, Ord

/-- A library method moves values from the input to the output. -/
structure FlowModel where
  method : MethodModel
  output : String
  kind : FlowKind
  provenance : String
deriving DecidableEq, Repr, Ord

/-- A position of a library method is sensitive to a kind of data. -/
structure SinkModel where
  method : MethodModel
  kind : String
  provenance : String
deriving DecidableEq, Repr, Ord

namespace MethodModel

/-- The fully qualified name of the declaring type. -/
def fqn (model : MethodModel) : String :=
  if model.package.isEmpty then model.typeName else model.package ++ "." ++ model.typeName

/-- Whether the model is about a constructor, which is named like its class. -/
def isConstructor (model : MethodModel) : Bool := model.typeName == model.name

/-- The argument positions that values are taken from. -/
def inputRange? (model : MethodModel) : Option ArgumentRange :=
  ArgumentRange.parse? model.input

/-- The method, as a model is shown. -/
def methodText (model : MethodModel) : String :=
  model.fqn ++ "#" ++ model.name ++ model.signature

/-- The method, as the command line describes it. -/
def describe (model : MethodModel) : String :=
  model.fqn ++ "." ++ model.name ++ "(" ++ model.signature ++ ")"

end MethodModel

/-- A letter in lower case, for ASCII letters. -/
def lowerAscii (c : Char) : Char :=
  if 'A' ≤ c ∧ c ≤ 'Z' then Char.ofNat (c.toNat + 32) else c

/-- The name of a truth value. -/
def booleanName : Bool → List Char
  | true => "true".toList
  | false => "false".toList

/-- A truth value, in any case. -/
def parseBoolean (text : String) : Except ModelError Bool :=
  chosen booleanName true false (.badBoolean text) (text.toList.map lowerAscii)

namespace FlowModel

/-- How a flow model is shown. -/
def text (model : FlowModel) : String :=
  model.method.methodText ++ ": " ++ model.method.input ++ " -> " ++ model.output ++ " ("
    ++ model.kind.text ++ ")"

/-- The argument positions that values are moved to. -/
def outputRange? (model : FlowModel) : Option ArgumentRange :=
  ArgumentRange.parse? model.output

/-- Reads the ten columns of a flow model. -/
def ofFields : List String → Except ModelError FlowModel
  | [package, typeName, subtypes, name, signature, ext, input, output, kind, provenance] => do
    let subtypes ← parseBoolean subtypes
    let kind ← FlowKind.parse kind
    .ok ⟨⟨package, typeName, subtypes, name, signature, ext, input⟩, output, kind, provenance⟩
  | fields => .error (.columnCount 10 fields.length)

end FlowModel

namespace SinkModel

/-- How a sink model is shown. -/
def text (model : SinkModel) : String :=
  model.method.methodText ++ ": " ++ model.method.input ++ " (" ++ model.kind ++ ")"

/-- Reads the nine columns of a sink model. -/
def ofFields : List String → Except ModelError SinkModel
  | [package, typeName, subtypes, name, signature, ext, input, kind, provenance] => do
    let subtypes ← parseBoolean subtypes
    .ok ⟨⟨package, typeName, subtypes, name, signature, ext, input⟩, kind, provenance⟩
  | fields => .error (.columnCount 9 fields.length)

end SinkModel
end ValueFlow
