/-
  ValueFlow.CompilationUnit

  A checked unit: a tree whose parents are linked, with the source position of
  every attached element and the hierarchy of its types.

  Positions number the elements below the root in source order; the span of an
  element reaches to the last element below it, so that one comparison tells
  whether an element comes before another or contains it.
-/

import ValueFlow.Hierarchy

namespace ValueFlow

/-- Position of an element and of the last element below it. -/
structure Span where
  first : Nat
  last : Nat
deriving DecidableEq, Repr

/-- A unit that analyses can look at. -/
structure CompilationUnit where
  tree : Tree
  spans : Array (Option Span)
  hierarchy : Hierarchy
deriving DecidableEq, Repr

namespace Tree

/-- Numbers an element and all below it, down to `bound` levels, starting with
    `next`: the spans and the last number used. -/
def spansFrom (tree : Tree) : Nat → ElementId → Nat → List (ElementId × Span) × Nat
  | 0, _, next => ([], next)
  | bound + 1, id, next =>
    let below := (tree.children id).foldl
      (fun (acc : List (ElementId × Span) × Nat) child =>
        let inner := tree.spansFrom bound child (acc.2 + 1)
        (acc.1 ++ inner.1, inner.2))
      ([], next)
    ((id, ⟨next, below.2⟩) :: below.1, below.2)

/-- The spans of all elements below the root. -/
def spans (tree : Tree) : Array (Option Span) :=
  (tree.spansFrom tree.size tree.root 0).1.foldl
    (fun acc entry => acc.setIfInBounds entry.1.place (some entry.2))
    (Array.replicate tree.size none)

/-- The signatures of all resolved calls, in increasing order. -/
def calledSignatures (tree : Tree) : List Signature :=
  Sorted.ofList (tree.elements.toList.filterMap fun element => element.kind.callSignature?)

/-- The first name declared a second time. -/
def duplicateType? : List String → List String → Option String
  | _, [] => none
  | seen, fqn :: rest =>
    if seen.contains fqn then some fqn else duplicateType? (fqn :: seen) rest

end Tree

namespace CompilationUnit

/-- Whether an element is a compilation unit. -/
def isUnitKind : Kind → Bool
  | .compilationUnit .. => true
  | _ => false

/-- Checks a tree: its links, its root, and the names of its types. -/
def ofTree (tree : Tree) : Except TreeError CompilationUnit := do
  let tree ← tree.link
  let _ ← tree.expectKind tree.root "compilation unit" isUnitKind
  match Tree.duplicateType? [] (tree.types.map (·.fqn)) with
  | some fqn => .error (.duplicateType fqn)
  | none =>
    let hierarchy ← Hierarchy.build tree.types tree.calledSignatures
    .ok { tree := tree, spans := tree.spans, hierarchy := hierarchy }

/-! ## The tree -/

/-- Number of elements. -/
def size (u : CompilationUnit) : Nat := u.tree.size

/-- What an element is. -/
def kind? (u : CompilationUnit) (id : ElementId) : Option Kind := u.tree.kind? id

/-- The element that contains this one. -/
def parent? (u : CompilationUnit) (id : ElementId) : Option ElementId := u.tree.parent? id

/-- What the parent of an element is. -/
def parentKind? (u : CompilationUnit) (id : ElementId) : Option Kind :=
  (u.parent? id).bind u.kind?

/-- The declaration of a type. -/
def declaredType? (u : CompilationUnit) (fqn : String) : Option TypeDecl :=
  u.tree.types.find? fun decl => decl.fqn == fqn

/-- The signatures of all resolved calls, in increasing order. -/
def calledSignatures (u : CompilationUnit) : List Signature := u.tree.calledSignatures

/-! ## Source order -/

/-- The span of an attached element. -/
def span? (u : CompilationUnit) (id : ElementId) : Option Span :=
  (u.spans[id.place]?).join

/-- The place of an attached element in source order. -/
def position? (u : CompilationUnit) (id : ElementId) : Option Nat :=
  (u.span? id).map (·.first)

/-- Whether the whole of `a` comes before `b`; never so for a detached element. -/
def isBefore (u : CompilationUnit) (a b : ElementId) : Bool :=
  match u.span? a, u.span? b with
  | some a, some b => a.last < b.first
  | _, _ => false

/-- Whether `b` is `a` or stands inside it; never so for a detached element. -/
def contains (u : CompilationUnit) (a b : ElementId) : Bool :=
  match u.span? a, u.span? b with
  | some a, some b => a.first ≤ b.first && b.first ≤ a.last
  | _, _ => false

/-- The attached elements in source order. -/
def attached (u : CompilationUnit) : List ElementId := u.tree.preorder u.tree.root

/-- All elements in source order, the detached ones before the others. -/
def sourceOrder (u : CompilationUnit) : List ElementId :=
  (u.tree.ids.filter fun id => (u.position? id).isNone) ++ u.attached

/-- The attached expressions in source order. -/
def expressions (u : CompilationUnit) : List ElementId :=
  u.attached.filter (u.tree.isKind Kind.isExpression)

/-- The attached parameters in source order. -/
def parameters (u : CompilationUnit) : List ElementId :=
  u.attached.filter (u.tree.isKind Kind.isParameter)

/-- All method declarations, attached or not. -/
def methods (u : CompilationUnit) : List ElementId :=
  u.tree.ids.filter (u.tree.isKind Kind.isMethod)

/-! ## Methods and variables -/

/-- The signature of a method declaration. -/
def methodSignature? (u : CompilationUnit) (id : ElementId) : Option Signature :=
  match u.kind? id with
  | some (.method signature _ _) => some signature
  | _ => none

/-- The method that declares a parameter, and at which place. -/
def parameterPosition? (u : CompilationUnit) (id : ElementId) : Option (ElementId × Nat) :=
  match u.parent? id with
  | none => none
  | some method =>
    match u.kind? method with
    | some (.method _ parameters _) => (parameters.idxOf? id).map fun place => (method, place)
    | _ => none

/-- The variable or parameter that an identifier stands for. -/
def variableOf? (u : CompilationUnit) (id : ElementId) : Option ElementId :=
  match u.kind? id with
  | some (.identifier _ target _) => target
  | _ => none

/-- Whether an identifier declares a local variable. -/
def isDeclaring (u : CompilationUnit) (id : ElementId) : Bool :=
  match u.parentKind? id with
  | some (.localVar _ name _) => name == id
  | _ => false

/-- Whether an element is the target of an assignment. -/
def isAssigned (u : CompilationUnit) (id : ElementId) : Bool :=
  match u.parentKind? id with
  | some (.assign target _) => target == id
  | _ => false

/-- Whether an element reads a variable: an identifier of it that neither declares
    nor assigns it. -/
def isReadOf (u : CompilationUnit) (variableId id : ElementId) : Bool :=
  u.variableOf? id == some variableId && !u.isDeclaring id && !u.isAssigned id

/-- Whether an element assigns a variable. -/
def isAssignmentTo (u : CompilationUnit) (variableId id : ElementId) : Bool :=
  match u.kind? id with
  | some (.assign target _) => u.variableOf? target == some variableId
  | _ => false

/-- The reads of a variable in source order. -/
def readsOf (u : CompilationUnit) (variableId : ElementId) : List ElementId :=
  u.sourceOrder.filter (u.isReadOf variableId)

/-- The assignments to a variable in source order. -/
def assignmentsTo (u : CompilationUnit) (variableId : ElementId) : List ElementId :=
  u.sourceOrder.filter (u.isAssignmentTo variableId)

end CompilationUnit
end ValueFlow
