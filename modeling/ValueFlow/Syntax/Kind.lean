/-
  ValueFlow.Syntax.Kind

  Elements of a program: their identity, operators, literals, and the closed set
  of element kinds with their children.

  Elements are told apart by identity only: two equal literals at different
  places are different elements.
-/

import ValueFlow.Signature
import ValueFlow.Text.Quoted

namespace ValueFlow

/-- Identity of an element: its place among the elements of its tree. It is shown
    counted from one. -/
structure ElementId where
  place : Nat
deriving DecidableEq, Repr, Ord

namespace ElementId

/-- The number that stands for an element outside the program, from one on. -/
def number (id : ElementId) : Nat := id.place + 1

/-- How an element is shown. -/
def text (id : ElementId) : String := "#" ++ toString id.number

end ElementId

/-! ## Operators and literals -/

/-- Binary operators. -/
inductive BinaryOp where
  | addition | subtraction | multiplication | division | modulo
  | lessThan | greaterThan | lessThanOrEqual | greaterThanOrEqual
  | equal | notEqual | and | or
deriving DecidableEq, Repr

/-- How an operator is written. -/
def BinaryOp.symbol : BinaryOp → String
  | .addition => "+"
  | .subtraction => "-"
  | .multiplication => "*"
  | .division => "/"
  | .modulo => "%"
  | .lessThan => "<"
  | .greaterThan => ">"
  | .lessThanOrEqual => "<="
  | .greaterThanOrEqual => ">="
  | .equal => "=="
  | .notEqual => "!="
  | .and => "&&"
  | .or => "||"

/-- The value of a literal. -/
inductive Literal where
  | null
  | bool (value : Bool)
  | int (value : Int64)
  | char (value : Char)
  | string (value : String)
deriving DecidableEq, Repr

/-- How a literal is written: strings are quoted, characters stand as they are
    between single quotes. -/
def Literal.text : Literal → String
  | .null => "null"
  | .bool true => "true"
  | .bool false => "false"
  | .int value => toString value.toInt
  | .char value => String.ofList ['\'', value, '\'']
  | .string value => Text.quoted value

/-! ## Kinds -/

/-- What an element is, with its parts. -/
inductive Kind where
  | compilationUnit (package : String) (classes : List ElementId)
  | classDecl (fqn : String) (members : List ElementId)
  | method (signature : Signature) (parameters : List ElementId) (body : Option ElementId)
  | parameter (name : String) (type : TypeRef)
  | block (statements : List ElementId)
  /-- A local variable; `name` is the identifier that declares it. -/
  | localVar (type : TypeRef) (name : ElementId) (initializer : Option ElementId)
  | ret (expression : Option ElementId)
  | exprStmt (expression : ElementId)
  | ifElse (condition thenBranch : ElementId) (elseBranch : Option ElementId)
  | whileLoop (condition body : ElementId)
  | literal (value : Literal) (type : TypeRef)
  /-- A use or the declaration of a variable; `target` is the local variable or
      parameter that it stands for. -/
  | identifier (name : String) (target : Option ElementId) (type : TypeRef)
  | call (select : Option ElementId) (name : String) (signature : Option Signature)
      (arguments : List ElementId)
  | construct (type : TypeRef) (signature : Option Signature) (arguments : List ElementId)
  | binary (operator : BinaryOp) (left right : ElementId) (type : TypeRef)
  | assign (target value : ElementId)
  | parens (expression : ElementId)
  | cast (type : TypeRef) (expression : ElementId)
  | ternary (condition whenTrue whenFalse : ElementId) (type : TypeRef)
deriving DecidableEq, Repr

namespace Kind

/-- What an element is called in messages. -/
def name : Kind → String
  | .compilationUnit .. => "compilation unit"
  | .classDecl .. => "class"
  | .method .. => "method"
  | .parameter .. => "parameter"
  | .block .. => "block"
  | .localVar .. => "variable declaration"
  | .ret .. => "return"
  | .exprStmt .. => "expression statement"
  | .ifElse .. => "if"
  | .whileLoop .. => "while"
  | .literal .. => "literal"
  | .identifier .. => "identifier"
  | .call .. => "method call"
  | .construct .. => "new class"
  | .binary .. => "binary"
  | .assign .. => "assignment"
  | .parens .. => "parentheses"
  | .cast .. => "cast"
  | .ternary .. => "ternary"

/-- Whether an element has a value. -/
def isExpression : Kind → Bool
  | .literal .. | .identifier .. | .call .. | .construct .. | .binary .. | .assign ..
  | .parens .. | .cast .. | .ternary .. => true
  | _ => false

/-- Whether an element is a statement. -/
def isStatement : Kind → Bool
  | .block .. | .localVar .. | .ret .. | .exprStmt .. | .ifElse .. | .whileLoop .. => true
  | _ => false

/-- Whether an element is a parameter. -/
def isParameter : Kind → Bool
  | .parameter .. => true
  | _ => false

/-- Whether an element is a method declaration. -/
def isMethod : Kind → Bool
  | .method .. => true
  | _ => false

/-- Whether an element is a class. -/
def isClass : Kind → Bool
  | .classDecl .. => true
  | _ => false

/-- Whether an element is a block. -/
def isBlock : Kind → Bool
  | .block .. => true
  | _ => false

/-- Whether an element is an expression in parentheses. -/
def isParens : Kind → Bool
  | .parens .. => true
  | _ => false

/-- Whether an element calls a method or a constructor. -/
def isCall : Kind → Bool
  | .call .. | .construct .. => true
  | _ => false

/-- The resolved signature of a call. -/
def callSignature? : Kind → Option Signature
  | .call _ _ signature _ => signature
  | .construct _ signature _ => signature
  | _ => none

/-- The arguments of a call; other elements have none. -/
def callArguments : Kind → List ElementId
  | .call _ _ _ arguments => arguments
  | .construct _ _ arguments => arguments
  | _ => []

/-- The static type of an expression, where its kind carries one. -/
def expressionType? : Kind → Option TypeRef
  | .literal _ type => some type
  | .identifier _ _ type => some type
  | .binary _ _ _ type => some type
  | .cast type _ => some type
  | .ternary _ _ _ type => some type
  | .call _ _ signature _ => signature.map (·.returnType)
  | .construct type _ _ => some type
  | _ => none

/-- The condition of a branching statement. -/
def condition? : Kind → Option ElementId
  | .ifElse condition _ _ => some condition
  | .whileLoop condition _ => some condition
  | _ => none

/-- The children of an element in source order. -/
def children : Kind → List ElementId
  | .compilationUnit _ classes => classes
  | .classDecl _ members => members
  | .method _ parameters body => parameters ++ body.toList
  | .parameter .. | .literal .. | .identifier .. => []
  | .block statements => statements
  | .localVar _ name initializer => name :: initializer.toList
  | .ret expression => expression.toList
  | .exprStmt expression => [expression]
  | .parens expression => [expression]
  | .cast _ expression => [expression]
  | .ifElse condition thenBranch elseBranch => condition :: thenBranch :: elseBranch.toList
  | .whileLoop condition body => [condition, body]
  | .call select _ _ arguments => select.toList ++ arguments
  | .construct _ _ arguments => arguments
  | .binary _ left right _ => [left, right]
  | .assign target value => [target, value]
  | .ternary condition whenTrue whenFalse _ => [condition, whenTrue, whenFalse]

end Kind
end ValueFlow
