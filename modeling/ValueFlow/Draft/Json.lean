/-
  ValueFlow.Draft.Json

  Steps of writing a unit as JSON objects: the field `b` names the step, and the other
  fields are its parts. Parts that a step can do without may be missing.
-/

import ValueFlow.Draft
import ValueFlow.Syntax.Json

namespace ValueFlow
namespace Draft.Step

/-! ## Parts -/

/-- A needed element. -/
def id? (value : Json) (name : String) : Option ElementId :=
  value.need name ElementId.ofJson?

/-- An element that may be missing. -/
def maybeId? (value : Json) (name : String) : Option (Option ElementId) :=
  value.may name ElementId.ofJson?

/-- Needed elements. -/
def ids? (value : Json) (name : String) : Option (List ElementId) :=
  value.need name ElementId.list?

/-- A needed text. -/
def text? (value : Json) (name : String) : Option String :=
  value.need name Json.str?

/-- The type in the field `typ`. -/
def type? (value : Json) : Option TypeRef :=
  value.need "typ" (TypeRef.ofJson? .gathered)

/-- A needed signature. -/
def signature? (value : Json) (name : String) : Option Signature :=
  value.need name (Signature.ofJson? .gathered)

/-! ## Steps -/

/-- Reads the step of a name. -/
def ofFields? (value : Json) : String → Option Step
  | "declare_type" => do some (.declareType (← value.need "decl" (TypeDecl.ofJson? .gathered)))
  | "class" => do
    some (.defineClass (← text? value "fqn") (← value.may "supertype" Json.str?)
      (← value.getOr "interfaces" [] (Json.list? Json.str?)))
  | "parameter" => do some (.parameter (← text? value "name") (← type? value))
  | "method" => do
    some (.method (← id? value "class") (← signature? value "method")
      (← value.getOr "parameters" [] ElementId.list?) (← maybeId? value "body"))
  | "block" => do some (.block (← ids? value "statements"))
  | "local" => do
    some (.localVar (← text? value "name") (← type? value) (← maybeId? value "initializer"))
  | "ret" => do some (.ret (← maybeId? value "expression"))
  | "expr_stmt" => do some (.exprStmt (← id? value "expression"))
  | "if" => do
    some (.ifElse (← id? value "condition") (← id? value "then") (← maybeId? value "else"))
  | "while" => do some (.whileLoop (← id? value "condition") (← id? value "body"))
  | "literal" => do
    some (.literal (← value.need "value" (Literal.ofJson? .gathered)) (← type? value))
  | "string" => do some (.literal (.string (← text? value "value")) .string)
  | "int" => do
    some (.literal (.int (← value.need "value" Literal.int64OfJson?)) (.primitive .int))
  | "bool" => do
    some (.literal (.bool (← value.need "value" Json.bool?)) (.primitive .boolean))
  | "null" => some (.literal .null (.primitive .null))
  | "read" => do some (.read (← id? value "variable"))
  | "unresolved" => do some (.unresolved (← text? value "name"))
  | "call" => do
    some (.call (← maybeId? value "select") (← signature? value "method")
      (← ids? value "arguments"))
  | "call_unresolved" => do
    some (.callUnresolved (← maybeId? value "select") (← text? value "name")
      (← ids? value "arguments"))
  | "new" => do
    some (.construct (← signature? value "constructor") (← ids? value "arguments"))
  | "binary" => do
    some (.binary (← value.need "operator" (BinaryOp.ofJson? .gathered))
      (← id? value "left") (← id? value "right") (← type? value))
  | "assign" => do some (.assign (← id? value "variable") (← id? value "value"))
  | "parens" => do some (.parens (← id? value "expression"))
  | "cast" => do some (.cast (← type? value) (← id? value "expression"))
  | "ternary" => do
    some (.ternary (← id? value "condition") (← id? value "when_true")
      (← id? value "when_false") (← type? value))
  | _ => none

/-- Reads a step. -/
def ofJson? (value : Json) : Option Step :=
  (text? value "b").bind (ofFields? value)

end Draft.Step
end ValueFlow
