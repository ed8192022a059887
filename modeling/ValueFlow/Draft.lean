/-
  ValueFlow.Draft

  Writing a unit step by step: parts first, then the element that owns them.

  A draft never refuses a step. It remembers the first mistake, which `finish`
  then reports; parents are linked and checked once, at the end.
-/

import ValueFlow.CompilationUnit

namespace ValueFlow

/-- A unit being written. -/
structure Draft where
  package : String
  kinds : Array Kind
  classes : List ElementId
  /-- Declared types, in increasing order of their names. -/
  types : List (String × TypeDecl)
  firstError : Option TreeError
deriving DecidableEq, Repr

/-- One step of writing a unit. Every step but `declareType` adds an element. -/
inductive Draft.Step where
  | declareType (decl : TypeDecl)
  | defineClass (fqn : String) (supertype : Option String) (interfaces : List String)
  | parameter (name : String) (type : TypeRef)
  | method (owner : ElementId) (signature : Signature) (parameters : List ElementId)
      (body : Option ElementId)
  | block (statements : List ElementId)
  | localVar (name : String) (type : TypeRef) (initializer : Option ElementId)
  | ret (expression : Option ElementId)
  | exprStmt (expression : ElementId)
  | ifElse (condition thenBranch : ElementId) (elseBranch : Option ElementId)
  | whileLoop (condition body : ElementId)
  | literal (value : Literal) (type : TypeRef)
  | read (variableId : ElementId)
  | unresolved (name : String)
  | call (select : Option ElementId) (signature : Signature) (arguments : List ElementId)
  | callUnresolved (select : Option ElementId) (name : String) (arguments : List ElementId)
  | construct (signature : Signature) (arguments : List ElementId)
  | binary (operator : BinaryOp) (left right : ElementId) (type : TypeRef)
  | assign (variableId value : ElementId)
  | parens (expression : ElementId)
  | cast (type : TypeRef) (expression : ElementId)
  | ternary (condition whenTrue whenFalse : ElementId) (type : TypeRef)
deriving DecidableEq, Repr

namespace Draft

/-- An empty draft in a package. -/
def new (package : String) : Draft where
  package := package
  kinds := #[]
  classes := []
  types := []
  firstError := none

/-- The element that the next step adds. -/
def nextId (draft : Draft) : ElementId := ⟨draft.kinds.size⟩

/-- Adds an element. -/
def push (draft : Draft) (kind : Kind) : Draft × ElementId :=
  ({ draft with kinds := draft.kinds.push kind }, draft.nextId)

/-- Remembers a mistake, unless there was one before. -/
def fail (draft : Draft) (error : TreeError) : Draft :=
  { draft with firstError := draft.firstError.or (some error) }

/-- What an element of the draft is. -/
def kind? (draft : Draft) (id : ElementId) : Option Kind := draft.kinds[id.place]?

/-- Declares a type, once. -/
def declareType (draft : Draft) (decl : TypeDecl) : Draft :=
  match Sorted.find? decl.fqn draft.types with
  | some _ => draft.fail (.duplicateType decl.fqn)
  | none => { draft with types := Sorted.put decl.fqn decl draft.types }

/-- Adds a class; its type is declared with it. -/
def defineClass (draft : Draft) (fqn : String) (supertype : Option String)
    (interfaces : List String) : Draft × ElementId :=
  let draft := draft.declareType (.ofClass fqn supertype interfaces)
  let (draft, id) := draft.push (.classDecl fqn [])
  ({ draft with classes := draft.classes ++ [id] }, id)

/-- Lists a method in the declaration of its type, if that is declared. -/
def listMethod (draft : Draft) (signature : Signature) : Draft :=
  match signature.declaringType.fqn? with
  | none => draft
  | some fqn =>
    match Sorted.find? fqn draft.types with
    | none => draft
    | some decl => { draft with types := Sorted.put fqn (decl.addMethod signature) draft.types }

/-- Adds a member to a class. -/
def addMember (draft : Draft) (owner member : ElementId) : Draft :=
  match draft.kind? owner with
  | some (.classDecl fqn members) =>
    { draft with
      kinds := draft.kinds.setIfInBounds owner.place (.classDecl fqn (members ++ [member])) }
  | _ => draft.fail (.notAClass owner)

/-- Adds a method declaration to a class. -/
def method (draft : Draft) (owner : ElementId) (signature : Signature)
    (parameters : List ElementId) (body : Option ElementId) : Draft × ElementId :=
  let draft :=
    if parameters.length = signature.parameterTypes.length then draft
    else draft.fail (.parameterCount signature parameters.length)
  let (draft, id) := (draft.listMethod signature).push (.method signature parameters body)
  (draft.addMember owner id, id)

/-- Adds a local variable: first the identifier that declares it, then the
    declaration. -/
def localVar (draft : Draft) (name : String) (type : TypeRef)
    (initializer : Option ElementId) : Draft × ElementId :=
  -- The identifier names the declaration that is added right after it.
  let declaration : ElementId := ⟨draft.kinds.size + 1⟩
  let (draft, nameId) := draft.push (.identifier name (some declaration) type)
  draft.push (.localVar type nameId initializer)

/-- The name and type of a parameter or local variable. -/
def variableAt? (draft : Draft) (id : ElementId) : Option (String × TypeRef) :=
  match draft.kind? id with
  | some (.parameter name type) => some (name, type)
  | some (.localVar type nameId _) =>
    match draft.kind? nameId with
    | some (.identifier name _ _) => some (name, type)
    | _ => none
  | _ => none

/-- Adds an identifier that stands for nothing in the unit. -/
def unresolved (draft : Draft) (name : String) : Draft × ElementId :=
  draft.push (.identifier name none .unknown)

/-- Adds a read of a parameter or local variable. -/
def read (draft : Draft) (variableId : ElementId) : Draft × ElementId :=
  match draft.variableAt? variableId with
  | some (name, type) => draft.push (.identifier name (some variableId) type)
  | none => (draft.fail (.notAVariable variableId)).unresolved "<error>"

/-- Adds an assignment to a parameter or local variable, after its target. -/
def assign (draft : Draft) (variableId value : ElementId) : Draft × ElementId :=
  let (draft, target) := draft.read variableId
  draft.push (.assign target value)

/-- A step that has added an element. -/
def added (result : Draft × ElementId) : Draft × Option ElementId :=
  (result.1, some result.2)

/-- Takes a step; the result is the element it adds last. -/
def perform (draft : Draft) : Step → Draft × Option ElementId
  | .declareType decl => (draft.declareType decl, none)
  | .defineClass fqn supertype interfaces => added (draft.defineClass fqn supertype interfaces)
  | .parameter name type => added (draft.push (.parameter name type))
  | .method owner signature parameters body =>
    added (draft.method owner signature parameters body)
  | .block statements => added (draft.push (.block statements))
  | .localVar name type initializer => added (draft.localVar name type initializer)
  | .ret expression => added (draft.push (.ret expression))
  | .exprStmt expression => added (draft.push (.exprStmt expression))
  | .ifElse condition thenBranch elseBranch =>
    added (draft.push (.ifElse condition thenBranch elseBranch))
  | .whileLoop condition body => added (draft.push (.whileLoop condition body))
  | .literal value type => added (draft.push (.literal value type))
  | .read variableId => added (draft.read variableId)
  | .unresolved name => added (draft.unresolved name)
  | .call select signature arguments =>
    added (draft.push (.call select signature.name (some signature) arguments))
  | .callUnresolved select name arguments =>
    added (draft.push (.call select name none arguments))
  | .construct signature arguments =>
    added (draft.push (.construct signature.declaringType (some signature) arguments))
  | .binary operator left right type => added (draft.push (.binary operator left right type))
  | .assign variableId value => added (draft.assign variableId value)
  | .parens expression => added (draft.push (.parens expression))
  | .cast type expression => added (draft.push (.cast type expression))
  | .ternary condition whenTrue whenFalse type =>
    added (draft.push (.ternary condition whenTrue whenFalse type))

/-- Takes steps in order; the result lists the element of each. -/
def performAll (draft : Draft) : List Step → Draft × List (Option ElementId)
  | [] => (draft, [])
  | step :: steps =>
    let (draft, id) := draft.perform step
    let (draft, ids) := draft.performAll steps
    (draft, id :: ids)

/-- The tree of a draft without mistakes; its root comes last. -/
def toTree (draft : Draft) : Except TreeError Tree :=
  match draft.firstError with
  | some error => .error error
  | none =>
    let (full, root) := draft.push (.compilationUnit draft.package draft.classes)
    .ok {
      root := root
      elements := full.kinds.map fun kind => ⟨none, kind⟩
      types := draft.types.map (·.2) }

/-- The checked unit of a draft without mistakes. -/
def finish (draft : Draft) : Except TreeError CompilationUnit := do
  CompilationUnit.ofTree (← draft.toTree)

end Draft
end ValueFlow
