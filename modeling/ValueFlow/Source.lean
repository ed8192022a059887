/-
  ValueFlow.Source

  Units written as Java-like source code.

  The writing of an element is a list of pieces: fixed text, and a place in front
  of each element where a mark may go. Which marks are put there is decided
  afterwards, so marks never change the text around them.
-/

import ValueFlow.CompilationUnit

namespace ValueFlow

/-- A piece of source code: text, or the place in front of an element. -/
inductive SourcePiece where
  | text (content : String)
  | mark (id : ElementId)
deriving DecidableEq, Repr

namespace Source

/-- A line end with the indentation of a nesting level. -/
def newline (level : Nat) : SourcePiece :=
  .text ("\n" ++ String.ofList (List.replicate (4 * level) ' '))

/-- Puts a comma between the writings of several elements. -/
def commas (writings : List (List SourcePiece)) : List SourcePiece :=
  [SourcePiece.text ", "].intercalate writings

/-- The first line of a class, up to its opening brace. -/
def classHeader (u : CompilationUnit) (fqn : String) : String :=
  match u.declaredType? fqn with
  | none => "class " ++ fqn ++ " \x7b"
  | some decl =>
    "class " ++ decl.simpleName
      ++ (match decl.supertype with
        | some supertype => " extends " ++ supertype
        | none => "")
      ++ (if decl.interfaces.isEmpty then ""
        else " implements " ++ ", ".intercalate decl.interfaces)
      ++ " \x7b"

/-- The start of a method, up to its opening parenthesis. A constructor has the
    simple name of its class and no result. -/
def methodHeader (signature : Signature) : String :=
  signature.modifiers.text
    ++ (if signature.isConstructor then
        match signature.declaringType with
        | .named fqn => Text.afterLastPoint fqn
        | _ => constructorName
      else signature.returnType.text ++ " " ++ signature.name)
    ++ "("

/-- Writes the branch of a statement or the body of a method: a block goes on the
    same line, anything else on a line of its own. -/
def body (u : CompilationUnit) (write : Nat → ElementId → List SourcePiece) (level : Nat)
    (id : ElementId) : List SourcePiece :=
  if u.tree.isKind Kind.isBlock id then .text " " :: write level id
  else newline (level + 1) :: write (level + 1) id

/-- Writes the parts of an element, given how to write an element inside it. -/
def parts (u : CompilationUnit) (write : Nat → ElementId → List SourcePiece) (level : Nat) :
    Kind → List SourcePiece
  | .compilationUnit package classes =>
    (if package.isEmpty then []
      else [.text ("package " ++ package ++ ";"), newline level])
      ++ classes.flatMap fun id => newline level :: write level id ++ [newline level]
  | .classDecl fqn members =>
    .text (classHeader u fqn)
      :: (members.flatMap fun id => newline (level + 1) :: write (level + 1) id)
      ++ [newline level, .text "\x7d"]
  | .method signature parameters bodyId =>
    .text (methodHeader signature) :: commas (parameters.map (write level))
      ++ .text ")" :: (match bodyId with
        | some id => body u write level id
        | none => [.text ";"])
  | .parameter name type => [.text (type.text ++ " " ++ name)]
  | .block statements =>
    .text "\x7b" :: (statements.flatMap fun id => newline (level + 1) :: write (level + 1) id)
      ++ [newline level, .text "\x7d"]
  | .localVar type name initializer =>
    .text (type.text ++ " ") :: write level name
      ++ (match initializer with
        | some id => .text " = " :: write level id
        | none => [])
      ++ [.text ";"]
  | .ret expression =>
    .text "return" :: (match expression with
        | some id => .text " " :: write level id
        | none => [])
      ++ [.text ";"]
  | .exprStmt expression => write level expression ++ [.text ";"]
  | .ifElse condition thenBranch elseBranch =>
    .text "if (" :: write level condition ++ .text ")" :: body u write level thenBranch
      ++ (match elseBranch with
        | some id => newline level :: .text "else" :: body u write level id
        | none => [])
  | .whileLoop condition bodyId =>
    .text "while (" :: write level condition ++ .text ")" :: body u write level bodyId
  | .literal value _ => [.text value.text]
  | .identifier name _ _ => [.text name]
  | .call select name _ arguments =>
    (match select with
      | some id => write level id ++ [.text "."]
      | none => [])
      ++ .text (name ++ "(") :: commas (arguments.map (write level)) ++ [.text ")"]
  | .construct type _ arguments =>
    .text ("new " ++ type.text ++ "(") :: commas (arguments.map (write level)) ++ [.text ")"]
  | .binary operator left right _ =>
    write level left ++ .text (" " ++ operator.symbol ++ " ") :: write level right
  | .assign target value => write level target ++ .text " = " :: write level value
  | .parens expression => .text "(" :: write level expression ++ [.text ")"]
  | .cast type expression => .text ("(" ++ type.text ++ ") ") :: write level expression
  | .ternary condition whenTrue whenFalse _ =>
    write level condition ++ .text " ? " :: write level whenTrue ++ .text " : "
      :: write level whenFalse

/-- Writes an element and all inside it, down to `bound` levels of elements. -/
def piecesUpTo (u : CompilationUnit) : Nat → Nat → ElementId → List SourcePiece
  | 0, _, _ => []
  | bound + 1, level, id =>
    .mark id :: (match u.kind? id with
      | some kind => parts u (piecesUpTo u bound) level kind
      | none => [])

/-- The pieces of an element and all inside it. -/
def pieces (u : CompilationUnit) (id : ElementId) : List SourcePiece :=
  piecesUpTo u u.size 0 id

/-- Joins pieces, with the given mark in front of each element that has one. -/
def join (mark : ElementId → Option String) (pieces : List SourcePiece) : String :=
  String.join (pieces.map fun
    | .text content => content
    | .mark id => (mark id).getD "")

/-- The source code of an element with marks. -/
def renderElement (u : CompilationUnit) (mark : ElementId → Option String) (id : ElementId) :
    String :=
  join mark (pieces u id)

/-- The source code of the whole unit with marks. -/
def render (u : CompilationUnit) (mark : ElementId → Option String) : String :=
  renderElement u mark u.tree.root

/-- The source code of the whole unit. -/
def plain (u : CompilationUnit) : String :=
  render u fun _ => none

end Source
end ValueFlow
