/-
  ValueFlow.Flow.Resolve

  From the signature of a call to the declaration that it calls.
-/

import ValueFlow.CompilationUnit

namespace ValueFlow

namespace Signature

/-- Types bound to type variables so far; the first binding of a name counts. -/
abbrev Bindings := List (String × TypeRef)

/-- A declared type seen from a call: a type variable is what it is bound to, and is
    bound to the type of the call if it was free. -/
def solve (bindings : Bindings) (access : TypeRef) : TypeRef → TypeRef × Bindings
  | .typeVar name =>
    match Sorted.find? name bindings with
    | some bound => (bound, bindings)
    | none => (access, Sorted.put name access bindings)
  | declared => (declared, bindings)

/-- Whether declared parameter types become those of a call, one after the other. -/
def solveAll : Bindings → List TypeRef → List TypeRef → Bool
  | bindings, access :: accesses, declared :: rest =>
    let (solved, bindings) := solve bindings access declared
    solved == access && solveAll bindings accesses rest
  | _, _, _ => true

/-- Whether a declared signature becomes that of a call once its type variables are
    bound. -/
def solvesTo (declared call : Signature) : Bool :=
  -- The result binds type variables before the parameters do.
  declared.name == call.name
    && declared.parameterTypes.length == call.parameterTypes.length
    && declared.modifiers == call.modifiers
    && (let (solved, bindings) := solve [] call.returnType declared.returnType
      solved == call.returnType && solveAll bindings call.parameterTypes declared.parameterTypes)

end Signature

/-- The method of a declaration that a call signature names: the same, or else the first
    that becomes it. -/
def TypeDecl.resolve? (decl : TypeDecl) (call : Signature) : Option Signature :=
  (decl.methods.find? (· == call)).or (decl.methods.find? fun method => method.solvesTo call)

namespace CompilationUnit

/-- Looks for a method in a type and the superclasses above it, at most `bound` of
    them. -/
def resolveUpTo (u : CompilationUnit) (call : Signature) :
    Nat → Option String → Option Signature
  | 0, _ => none
  | bound + 1, fqn =>
    match fqn.bind u.declaredType? with
    | none => none
    | some decl =>
      match decl.resolve? call with
      | some method => some method
      | none => u.resolveUpTo call bound decl.supertype

/-- The declaration that a call signature names, or the signature itself if it is not
    known. -/
def declarationOf (u : CompilationUnit) (call : Signature) : Signature :=
  (u.resolveUpTo call u.tree.types.length call.declaringType.fqn?).getD call

end CompilationUnit
end ValueFlow
