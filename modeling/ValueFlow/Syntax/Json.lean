/-
  ValueFlow.Syntax.Json

  Types, literals, elements and trees as JSON, both ways.

  Writing gives every field, null for an absent one, in a fixed order: an element
  is its parent, its kind, then the fields of the kind. Reading ignores the value
  of `parent` later on, but it has to be one. A kind is named, or given by its
  number in the list of kinds.
-/

import ValueFlow.Json.Decode
import ValueFlow.Json.Shape
import ValueFlow.Syntax.Tree

namespace ValueFlow

/-! ## Types and signatures -/

namespace Primitive

/-- All built-in types with their names in JSON. -/
def jsonNames : List (String × Primitive) :=
  [("boolean", .boolean), ("byte", .byte), ("char", .char), ("double", .double),
    ("float", .float), ("int", .int), ("long", .long), ("short", .short), ("void", .void),
    ("string", .string), ("null", .null), ("none", .none)]

/-- The name of a built-in type in JSON. -/
def jsonName : Primitive → String
  | .boolean => "boolean"
  | .byte => "byte"
  | .char => "char"
  | .double => "double"
  | .float => "float"
  | .int => "int"
  | .long => "long"
  | .short => "short"
  | .void => "void"
  | .string => "string"
  | .null => "null"
  | .none => "none"

/-- Reads a built-in type. -/
def ofJson? (setting : Json.Setting) (value : Json) : Option Primitive :=
  (value.plainChoice? setting).bind fun name => jsonNames.lookup name

end Primitive

namespace TypeRef

/-- A type as JSON. -/
def toJson : TypeRef → Json
  | .primitive which => .obj [("primitive", .str which.jsonName)]
  | .named fqn => .obj [("class", .str fqn)]
  | .array element => .obj [("array", element.toJson)]
  | .typeVar name => .obj [("generic_type_variable", .str name)]
  | .unknown => .str "unknown"

/-- Reads a type. -/
def ofJson? (setting : Json.Setting) : Json → Option TypeRef
  | .str name => if name = "unknown" then some .unknown else none
  | .obj [(name, content)] =>
    if name = "primitive" then (Primitive.ofJson? setting content).map .primitive
    else if name = "class" then content.str?.map .named
    else if name = "array" then (ofJson? setting content).map .array
    else if name = "generic_type_variable" then content.str?.map .typeVar
    else if name = "unknown" ∧ setting.isNothing content then some .unknown
    else none
  | _ => none

end TypeRef

namespace Modifiers

/-- Reads modifiers: a number of 32 bits. -/
def ofJson? (value : Json) : Option Modifiers :=
  value.nat?.bind fun n => 
    if n < 0x100000000 then some ⟨UInt32.ofNat n⟩ else none

/-- Modifiers as a number. -/
def toJson (modifiers : Modifiers) : Json := .int modifiers.bits.toNat

end Modifiers

namespace Signature

/-- A signature as JSON. -/
def toJson (signature : Signature) : Json :=
  .obj [("declaring_type", signature.declaringType.toJson), ("name", .str signature.name),
    ("parameter_types", .ofList TypeRef.toJson signature.parameterTypes),
    ("return_type", signature.returnType.toJson), ("flags", signature.modifiers.toJson)]

/-- The fields of a signature. -/
def jsonNames : List String :=
  ["declaring_type", "name", "parameter_types", "return_type", "flags"]

/-- What is read of a signature. -/
def shape : Json.Shape := .plainRecord jsonNames

/-- Reads a signature; only the modifiers may be missing. -/
def ofJson? (setting : Json.Setting) (value : Json) : Option Signature := do
  let fields ← value.record? jsonNames
  match fields with
  | [declaringType, name, parameterTypes, returnType, modifiers] =>
    some {
      declaringType := ← Json.required (TypeRef.ofJson? setting) declaringType
      name := ← Json.required Json.str? name
      parameterTypes := ← Json.required (Json.list? (TypeRef.ofJson? setting)) parameterTypes
      returnType := ← Json.required (TypeRef.ofJson? setting) returnType
      modifiers := ← Json.orDefault ⟨0⟩ Modifiers.ofJson? modifiers }
  | _ => none

end Signature

namespace TypeDecl

/-- A declaration as JSON. -/
def toJson (decl : TypeDecl) : Json :=
  .obj [("fqn", .str decl.fqn), ("supertype", .ofOption .str decl.supertype),
    ("interfaces", .ofList .str decl.interfaces), ("is_interface", .bool decl.isInterface),
    ("methods", .ofList Signature.toJson decl.methods)]

/-- What is read of a declaration. -/
def shape : Json.Shape :=
  .record [("fqn", .whole), ("supertype", .whole), ("interfaces", .whole),
    ("is_interface", .whole), ("methods", .items Signature.shape)]

/-- Reads a declaration; only the name is needed. -/
def ofJson? (setting : Json.Setting) (value : Json) : Option TypeDecl := do
  let fields ← value.record? ["fqn", "supertype", "interfaces", "is_interface", "methods"]
  match fields with
  | [fqn, supertype, interfaces, isInterface, methods] =>
    some {
      fqn := ← Json.required Json.str? fqn
      supertype := ← Json.optional Json.str? supertype
      interfaces := ← Json.orDefault [] (Json.list? Json.str?) interfaces
      isInterface := ← Json.orDefault false Json.bool? isInterface
      methods := ← Json.orDefault [] (Json.list? (Signature.ofJson? setting)) methods }
  | _ => none

end TypeDecl

/-! ## Literals and operators -/

namespace Literal

/-- A literal as JSON. -/
def toJson : Literal → Json
  | .null => .str "null"
  | .bool value => .obj [("bool", .bool value)]
  | .int value => .obj [("int", .int value.toInt)]
  | .char value => .obj [("char", .str (String.ofList [value]))]
  | .string value => .obj [("string", .str value)]

/-- An integer of 64 bits with sign. -/
def int64? (value : Int) : Option Int64 :=
  if -0x8000000000000000 ≤ value ∧ value < 0x8000000000000000 then
    some (Int64.ofInt value)
  else none

/-- Reads an integer of 64 bits with sign. -/
def int64OfJson? (value : Json) : Option Int64 := value.int?.bind int64?

/-- A text of a single character. -/
def char? (text : String) : Option Char :=
  match text.toList with
  | [c] => some c
  | _ => none

/-- Reads a literal. -/
def ofJson? (setting : Json.Setting) (value : Json) : Option Literal :=
  match value.choice? setting with
  | some (name, none) => if name = "null" then some .null else none
  | some (name, some content) =>
    if name = "bool" then content.bool?.map .bool
    else if name = "int" then (int64OfJson? content).map .int
    else if name = "char" then (content.str?.bind char?).map .char
    else if name = "string" then content.str?.map .string
    else none
  | none => none

end Literal

namespace BinaryOp

/-- All operators with their names in JSON. -/
def jsonNames : List (String × BinaryOp) :=
  [("addition", .addition), ("subtraction", .subtraction),
    ("multiplication", .multiplication), ("division", .division), ("modulo", .modulo),
    ("less_than", .lessThan), ("greater_than", .greaterThan),
    ("less_than_or_equal", .lessThanOrEqual), ("greater_than_or_equal", .greaterThanOrEqual),
    ("equal", .equal), ("not_equal", .notEqual), ("and", .and), ("or", .or)]

/-- The name of an operator in JSON. -/
def jsonName : BinaryOp → String
  | .addition => "addition"
  | .subtraction => "subtraction"
  | .multiplication => "multiplication"
  | .division => "division"
  | .modulo => "modulo"
  | .lessThan => "less_than"
  | .greaterThan => "greater_than"
  | .lessThanOrEqual => "less_than_or_equal"
  | .greaterThanOrEqual => "greater_than_or_equal"
  | .equal => "equal"
  | .notEqual => "not_equal"
  | .and => "and"
  | .or => "or"

/-- Reads an operator. -/
def ofJson? (setting : Json.Setting) (value : Json) : Option BinaryOp :=
  (value.plainChoice? setting).bind fun name => jsonNames.lookup name

end BinaryOp

/-! ## Elements -/

namespace ElementId

/-- An element as its number. -/
def toJson (id : ElementId) : Json := .int id.number

/-- Reads the number of an element, from one on. -/
def ofJson? : Json → Option ElementId
  | .int value => if 1 ≤ value then some ⟨value.toNat - 1⟩ else none
  | _ => none

/-- Elements as an array of numbers. -/
def listToJson (ids : List ElementId) : Json := .ofList toJson ids

/-- Reads an array of numbers. -/
def list? : Json → Option (List ElementId) := Json.list? ofJson?

end ElementId

namespace Kind

/-- The names of the kinds in JSON, in order. -/
def jsonNames : List String :=
  ["compilation_unit", "class", "method", "parameter", "block", "variable", "return",
    "expression_stmt", "if", "while", "literal", "identifier", "method_call", "new_class",
    "binary", "assignment", "parentheses", "cast", "ternary"]

/-- A kind as the fields of an element, its name first. -/
def toFields : Kind → List (String × Json)
  | .compilationUnit package classes =>
    [("kind", .str "compilation_unit"), ("package", .str package),
      ("classes", ElementId.listToJson classes)]
  | .classDecl fqn members =>
    [("kind", .str "class"), ("fqn", .str fqn), ("members", ElementId.listToJson members)]
  | .method signature parameters body =>
    [("kind", .str "method"), ("method", signature.toJson),
      ("parameters", ElementId.listToJson parameters),
      ("body", .ofOption ElementId.toJson body)]
  | .parameter name type =>
    [("kind", .str "parameter"), ("name", .str name), ("typ", type.toJson)]
  | .block statements =>
    [("kind", .str "block"), ("statements", ElementId.listToJson statements)]
  | .localVar type name initializer =>
    [("kind", .str "variable"), ("typ", type.toJson), ("name", name.toJson),
      ("initializer", .ofOption ElementId.toJson initializer)]
  | .ret expression =>
    [("kind", .str "return"), ("expression", .ofOption ElementId.toJson expression)]
  | .exprStmt expression =>
    [("kind", .str "expression_stmt"), ("expression", expression.toJson)]
  | .ifElse condition thenBranch elseBranch =>
    [("kind", .str "if"), ("condition", condition.toJson),
      ("then_branch", thenBranch.toJson),
      ("else_branch", .ofOption ElementId.toJson elseBranch)]
  | .whileLoop condition body =>
    [("kind", .str "while"), ("condition", condition.toJson), ("body", body.toJson)]
  | .literal value type =>
    [("kind", .str "literal"), ("value", value.toJson), ("typ", type.toJson)]
  | .identifier name target type =>
    [("kind", .str "identifier"), ("name", .str name),
      ("target", .ofOption ElementId.toJson target), ("typ", type.toJson)]
  | .call select name signature arguments =>
    [("kind", .str "method_call"), ("select", .ofOption ElementId.toJson select),
      ("name", .str name), ("method", .ofOption Signature.toJson signature),
      ("arguments", ElementId.listToJson arguments)]
  | .construct type signature arguments =>
    [("kind", .str "new_class"), ("class", type.toJson),
      ("constructor", .ofOption Signature.toJson signature),
      ("arguments", ElementId.listToJson arguments)]
  | .binary operator left right type =>
    [("kind", .str "binary"), ("operator", .str operator.jsonName), ("left", left.toJson),
      ("right", right.toJson), ("typ", type.toJson)]
  | .assign target value =>
    [("kind", .str "assignment"), ("target", target.toJson), ("value", value.toJson)]
  | .parens expression =>
    [("kind", .str "parentheses"), ("expression", expression.toJson)]
  | .cast type expression =>
    [("kind", .str "cast"), ("typ", type.toJson), ("expression", expression.toJson)]
  | .ternary condition whenTrue whenFalse type =>
    [("kind", .str "ternary"), ("condition", condition.toJson),
      ("when_true", whenTrue.toJson), ("when_false", whenFalse.toJson),
      ("typ", type.toJson)]

/-- The name of a kind: written out, or by its number from zero. -/
def jsonName? : Json → Option String
  | .str name => some name
  | .int value => if 0 ≤ value then jsonNames[value.toNat]? else none
  | _ => none

/-- A field that has to be present, read from the fields of an element. -/
def need {α : Type} (fields : List (String × Json)) (decode : Json → Option α)
    (name : String) : Option α :=
  (Json.field? name fields).bind (Json.required decode)

/-- A field that may be absent or null. -/
def may {α : Type} (fields : List (String × Json)) (decode : Json → Option α)
    (name : String) : Option (Option α) :=
  (Json.field? name fields).bind (Json.optional decode)

/-- Reads a type among the fields of an element. -/
def type? : Json → Option TypeRef := TypeRef.ofJson? .gathered

/-- Reads a signature among the fields of an element. -/
def signature? : Json → Option Signature := Signature.ofJson? .gathered

/-- Reads the kind of this name from the fields of an element. -/
def ofFields? (name : String) (fields : List (String × Json)) : Option Kind :=
  match name with
  | "compilation_unit" => do
    some (.compilationUnit (← need fields Json.str? "package")
      (← need fields ElementId.list? "classes"))
  | "class" => do
    some (.classDecl (← need fields Json.str? "fqn") (← need fields ElementId.list? "members"))
  | "method" => do
    some (.method (← need fields signature? "method")
      (← need fields ElementId.list? "parameters") (← may fields ElementId.ofJson? "body"))
  | "parameter" => do
    some (.parameter (← need fields Json.str? "name") (← need fields type? "typ"))
  | "block" => do
    some (.block (← need fields ElementId.list? "statements"))
  | "variable" => do
    some (.localVar (← need fields type? "typ")
      (← need fields ElementId.ofJson? "name") (← may fields ElementId.ofJson? "initializer"))
  | "return" => do
    some (.ret (← may fields ElementId.ofJson? "expression"))
  | "expression_stmt" => do
    some (.exprStmt (← need fields ElementId.ofJson? "expression"))
  | "if" => do
    some (.ifElse (← need fields ElementId.ofJson? "condition")
      (← need fields ElementId.ofJson? "then_branch")
      (← may fields ElementId.ofJson? "else_branch"))
  | "while" => do
    some (.whileLoop (← need fields ElementId.ofJson? "condition")
      (← need fields ElementId.ofJson? "body"))
  | "literal" => do
    some (.literal (← need fields (Literal.ofJson? .gathered) "value")
      (← need fields type? "typ"))
  | "identifier" => do
    some (.identifier (← need fields Json.str? "name")
      (← may fields ElementId.ofJson? "target") (← need fields type? "typ"))
  | "method_call" => do
    some (.call (← may fields ElementId.ofJson? "select") (← need fields Json.str? "name")
      (← may fields signature? "method") (← need fields ElementId.list? "arguments"))
  | "new_class" => do
    some (.construct (← need fields type? "class")
      (← may fields signature? "constructor")
      (← need fields ElementId.list? "arguments"))
  | "binary" => do
    some (.binary (← need fields (BinaryOp.ofJson? .gathered) "operator")
      (← need fields ElementId.ofJson? "left") (← need fields ElementId.ofJson? "right")
      (← need fields type? "typ"))
  | "assignment" => do
    some (.assign (← need fields ElementId.ofJson? "target")
      (← need fields ElementId.ofJson? "value"))
  | "parentheses" => do
    some (.parens (← need fields ElementId.ofJson? "expression"))
  | "cast" => do
    some (.cast (← need fields type? "typ")
      (← need fields ElementId.ofJson? "expression"))
  | "ternary" => do
    some (.ternary (← need fields ElementId.ofJson? "condition")
      (← need fields ElementId.ofJson? "when_true")
      (← need fields ElementId.ofJson? "when_false") (← need fields type? "typ"))
  | _ => none

end Kind

namespace Element

/-- An element as JSON. -/
def toJson (element : Element) : Json :=
  .obj (("parent", .ofOption ElementId.toJson element.parent) :: element.kind.toFields)

/-- Reads an element. -/
def ofJson? : Json → Option Element
  | .obj fields => do
    let parent ← Kind.may fields ElementId.ofJson? "parent"
    let name ← Kind.need fields Kind.jsonName? "kind"
    let kind ← Kind.ofFields? name fields
    some ⟨parent, kind⟩
  | _ => none

end Element

namespace Tree

/-- A tree as JSON. -/
def toJson (tree : Tree) : Json :=
  .obj [("root", tree.root.toJson), ("elements", .ofList Element.toJson tree.elements.toList),
    ("types", .ofList TypeDecl.toJson tree.types)]

/-- What is read of a tree: an element is read whole, since its kind may stand after the
    other fields. -/
def shape : Json.Shape :=
  .record [("root", .whole), ("elements", .items .whole), ("types", .items TypeDecl.shape)]

/-- Reads a tree; only the types may be missing. -/
def ofJson? (value : Json) : Option Tree := do
  let fields ← value.record? ["root", "elements", "types"]
  match fields with
  | [root, elements, types] =>
    some {
      root := ← Json.required ElementId.ofJson? root
      elements := (← Json.required (Json.list? Element.ofJson?) elements).toArray
      types := ← Json.orDefault [] (Json.list? (TypeDecl.ofJson? .direct)) types }
  | _ => none

end Tree
end ValueFlow
