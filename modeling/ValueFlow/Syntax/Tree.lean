/-
  ValueFlow.Syntax.Tree

  Trees of elements: an array of elements that name their children, the links
  from children back to parents, and ways to walk along both.

  Parents are computed from the children lists (`link`), which also checks that
  every element has at most one parent and the root none. Elements that hang on
  nothing are allowed, and some of them may contain one another in a circle.
  Walks are therefore bounded by the number of elements, which on everything
  below the root is never reached.
-/

import ValueFlow.Syntax.Kind

namespace ValueFlow

/-- An element and the element that contains it. -/
structure Element where
  parent : Option ElementId
  kind : Kind
deriving DecidableEq, Repr

/-- Elements with their root, and the types that they mention. -/
structure Tree where
  root : ElementId
  elements : Array Element
  types : List TypeDecl
deriving DecidableEq, Repr

/-! ## What can be wrong with a tree -/

/-- Why a tree is refused, or an element of it. -/
inductive TreeError where
  /-- The file cannot be read. -/
  | unreadable
  /-- The text is not that of a tree. -/
  | malformed
  | elementNotFound (id : ElementId)
  | unexpectedElement (id : ElementId) (expected actual : String)
  | alreadyAttached (child parent : ElementId)
  | rootHasParent (root : ElementId)
  | parameterCount (method : Signature) (count : Nat)
  | notAClass (id : ElementId)
  | notAVariable (id : ElementId)
  | typeNotFound (fqn : String)
  | duplicateType (fqn : String)
deriving DecidableEq, Repr

/-- What is wrong inside a tree whose structure is invalid. -/
def TreeError.structureDetail? : TreeError → Option String
  | .rootHasParent root => some ("root " ++ root.text ++ " has a parent")
  | .parameterCount method count =>
    some ("method " ++ method.text ++ " declares " ++ toString count ++ " parameter(s)")
  | .notAClass id => some (id.text ++ " is not a class, cannot add a method to it")
  | .notAVariable id => some (id.text ++ " is neither a parameter nor a local variable")
  | _ => none

/-- The text of an error. -/
def TreeError.message (error : TreeError) : String :=
  match error with
  | .unreadable => "IO error"
  | .malformed => "json error"
  | .elementNotFound id => "element not found: " ++ id.text
  | .unexpectedElement id expected actual =>
    "element " ++ id.text ++ " is a " ++ actual ++ ", expected " ++ expected
  | .alreadyAttached child parent =>
    "element " ++ child.text ++ " already has a parent (" ++ parent.text ++ ")"
  | .typeNotFound fqn => "type not found: " ++ fqn
  | .duplicateType fqn => "duplicate type declaration: " ++ fqn
  | other => "tree structure is invalid: " ++ other.structureDetail?.getD ""

namespace Tree

/-! ## Elements -/

/-- Number of elements. -/
def size (tree : Tree) : Nat := tree.elements.size

/-- All elements in the order of the array. -/
def ids (tree : Tree) : List ElementId :=
  (List.range tree.size).map ElementId.mk

/-- The element with this identity. -/
def element? (tree : Tree) (id : ElementId) : Option Element :=
  tree.elements[id.place]?

/-- What the element is. -/
def kind? (tree : Tree) (id : ElementId) : Option Kind :=
  (tree.element? id).map (·.kind)

/-- The element that contains this one. -/
def parent? (tree : Tree) (id : ElementId) : Option ElementId :=
  (tree.element? id).bind (·.parent)

/-- The children of an element in source order. -/
def children (tree : Tree) (id : ElementId) : List ElementId :=
  ((tree.kind? id).map Kind.children).getD []

/-- Whether the element exists and its kind passes a test. -/
def isKind (tree : Tree) (test : Kind → Bool) (id : ElementId) : Bool :=
  (tree.kind? id).any test

/-- The kind of an element that has to pass a test, or else an error that names
    what was expected. -/
def expectKind (tree : Tree) (id : ElementId) (expected : String) (test : Kind → Bool) :
    Except TreeError Kind :=
  match tree.kind? id with
  | none => .error (.elementNotFound id)
  | some kind =>
    if test kind then .ok kind else .error (.unexpectedElement id expected kind.name)

/-! ## Parents -/

/-- All pairs of a parent and a child, by parent and then in source order. -/
def childLinks (tree : Tree) : List (ElementId × ElementId) :=
  tree.ids.flatMap fun parent => (tree.children parent).map fun child => (parent, child)

/-- Records the parent of one child; a child has to exist and to be free. -/
def attach (parents : Array (Option ElementId)) (link : ElementId × ElementId) :
    Except TreeError (Array (Option ElementId)) :=
  match parents[link.2.place]? with
  | none => .error (.elementNotFound link.2)
  | some (some parent) => .error (.alreadyAttached link.2 parent)
  | some none => .ok (parents.setIfInBounds link.2.place (some link.1))

/-- The parents of all elements, as the children lists have them. -/
def parents? (tree : Tree) : Except TreeError (Array (Option ElementId)) :=
  tree.childLinks.foldlM attach (Array.replicate tree.size none)

/-- The tree with the given parents. -/
def withParents (tree : Tree) (parents : Array (Option ElementId)) : Tree :=
  { tree with
    elements := tree.elements.zipWith (fun element parent => ⟨parent, element.kind⟩) parents }

/-- The tree with its parents computed anew; the root must exist and have none. -/
def link (tree : Tree) : Except TreeError Tree := do
  let parents ← tree.parents?
  match parents[tree.root.place]? with
  | none => .error (.elementNotFound tree.root)
  | some (some _) => .error (.rootHasParent tree.root)
  | some none => .ok (tree.withParents parents)

/-! ## Walks -/

/-- The chain of parents above an element, at most `bound` of them. -/
def ancestorsUpTo (tree : Tree) : Nat → ElementId → List ElementId
  | 0, _ => []
  | bound + 1, id =>
    match tree.parent? id with
    | none => []
    | some parent => parent :: tree.ancestorsUpTo bound parent

/-- The elements that contain this one, the closest first. -/
def ancestors (tree : Tree) (id : ElementId) : List ElementId :=
  tree.ancestorsUpTo tree.size id

/-- The closest ancestor that is not an expression in parentheses. -/
def parentOutsideParens? (tree : Tree) (id : ElementId) : Option ElementId :=
  (tree.ancestors id).find? fun ancestor => !tree.isKind Kind.isParens ancestor

/-- The closest enclosing method. -/
def enclosingMethod? (tree : Tree) (id : ElementId) : Option ElementId :=
  (tree.ancestors id).find? (tree.isKind Kind.isMethod)

/-- The closest enclosing class. -/
def enclosingClass? (tree : Tree) (id : ElementId) : Option ElementId :=
  (tree.ancestors id).find? (tree.isKind Kind.isClass)

/-- What stands inside at most `bound` pairs of parentheses. -/
def insideParensUpTo (tree : Tree) : Nat → ElementId → ElementId
  | 0, id => id
  | bound + 1, id =>
    match tree.kind? id with
    | some (.parens expression) => tree.insideParensUpTo bound expression
    | _ => id

/-- What stands inside all parentheses around an expression. -/
def insideParens (tree : Tree) (id : ElementId) : ElementId :=
  tree.insideParensUpTo tree.size id

/-- The elements of a stack and all below them in source order, at most so many: the
    topmost one is taken off and its children are put in its place. -/
def preorderFrom (tree : Tree) : Nat → List ElementId → List ElementId
  | 0, _ => []
  | _ + 1, [] => []
  | steps + 1, id :: stack => id :: tree.preorderFrom steps (tree.children id ++ stack)

/-- An element and all below it in source order. -/
def preorder (tree : Tree) (id : ElementId) : List ElementId :=
  tree.preorderFrom tree.size [id]

end Tree
end ValueFlow
