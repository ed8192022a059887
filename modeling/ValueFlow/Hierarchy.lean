/-
  ValueFlow.Hierarchy

  The types of a unit and what each of them extends or implements.

  Types come in the order in which they are met: the declared ones, then those
  that declarations mention, then the declaring types of called methods, and the
  root class last. A type for which nothing is declared extends the root class.
-/

import ValueFlow.Signature
import ValueFlow.Search
import ValueFlow.Sorted
import ValueFlow.Syntax.Tree
import ValueFlow.Text.Digraph

namespace ValueFlow

/-- A type of the hierarchy; types that are only mentioned are not declared. -/
structure TypeNode where
  fqn : String
  isDeclared : Bool
  isInterface : Bool
deriving DecidableEq, Repr

/-- How a type inherits from another. -/
inductive Inheritance where
  | superclass
  | interface
deriving DecidableEq, Repr

/-- One type inherits from another. -/
structure Inherits where
  sub : String
  sup : String
  how : Inheritance
deriving DecidableEq, Repr

/-- All types, and which inherits from which, in the order in which they are met. -/
structure Hierarchy where
  types : List TypeNode
  links : List Inherits
deriving DecidableEq, Repr

namespace Hierarchy

/-- The type of this name. -/
def type? (hierarchy : Hierarchy) (fqn : String) : Option TypeNode :=
  hierarchy.types.find? fun node => node.fqn == fqn

/-- Whether a type of this name is known. -/
def knows (hierarchy : Hierarchy) (fqn : String) : Bool :=
  hierarchy.types.any fun node => node.fqn == fqn

/-- Adds a type that is mentioned, unless it is known. -/
def mention (hierarchy : Hierarchy) (fqn : String) : Hierarchy :=
  if hierarchy.knows fqn then hierarchy
  else { hierarchy with types := hierarchy.types ++ [⟨fqn, false, false⟩] }

/-- Adds a declared type, which has to be new. -/
def declare (hierarchy : Hierarchy) (decl : TypeDecl) : Except TreeError Hierarchy :=
  if hierarchy.knows decl.fqn then .error (.duplicateType decl.fqn)
  else .ok { hierarchy with types := hierarchy.types ++ [⟨decl.fqn, true, decl.isInterface⟩] }

/-- Adds that a type inherits from another one; both have to be known. -/
def connect (hierarchy : Hierarchy) (link : Inherits) : Except TreeError Hierarchy :=
  if !hierarchy.knows link.sub then .error (.typeNotFound link.sub)
  else if !hierarchy.knows link.sup then .error (.typeNotFound link.sup)
  else .ok { hierarchy with links := hierarchy.links ++ [link] }

/-- Adds that a declared type inherits from a mentioned one. -/
def inherit (hierarchy : Hierarchy) (sub sup : String) (how : Inheritance) :
    Except TreeError Hierarchy :=
  (hierarchy.mention sup).connect ⟨sub, sup, how⟩

/-- Adds what a declaration inherits from: the superclass, then the interfaces. -/
def inheritAll (hierarchy : Hierarchy) (decl : TypeDecl) : Except TreeError Hierarchy := do
  let hierarchy ← decl.supertype.toList.foldlM
    (fun h sup => h.inherit decl.fqn sup .superclass) hierarchy
  decl.interfaces.foldlM (fun h sup => h.inherit decl.fqn sup .interface) hierarchy

/-- Lets every type that inherits from nothing extend the root class. -/
def close (hierarchy : Hierarchy) : Hierarchy :=
  -- The root class itself inherits from nothing unless a declaration says so.
  let hierarchy := hierarchy.mention objectName
  let orphans := hierarchy.types.filter fun node =>
    node.fqn != objectName && !hierarchy.links.any (fun link => link.sub == node.fqn)
  { hierarchy with
    links := hierarchy.links ++ orphans.map fun node => ⟨node.fqn, objectName, .superclass⟩ }

/-- The hierarchy of declared types and of the declaring types of called methods. -/
def build (decls : List TypeDecl) (called : List Signature) : Except TreeError Hierarchy := do
  let declared ← decls.foldlM declare ⟨[], []⟩
  let inherited ← decls.foldlM inheritAll declared
  .ok ((called.filterMap (·.declaringType.fqn?)).foldl mention inherited).close

/-- What a type inherits from directly. -/
def parents (hierarchy : Hierarchy) (fqn : String) : List String :=
  (hierarchy.links.filter fun link => link.sub == fqn).map (·.sup)

/-- The type itself and all it inherits from, in increasing order; an unknown type
    has only itself. -/
def supertypes (hierarchy : Hierarchy) (fqn : String) : List String :=
  if hierarchy.knows fqn then
    Sorted.ofList (Search.closure hierarchy.parents hierarchy.types.length [fqn])
  else [fqn]

/-- Whether `sub` can stand where `sup` is expected. -/
def isSubtype (hierarchy : Hierarchy) (sub sup : String) : Bool :=
  sub == sup || sup == objectName || (hierarchy.supertypes sub).contains sup

/-! ## As a graph -/

/-- The place of a type among all. -/
def place (hierarchy : Hierarchy) (fqn : String) : Nat :=
  hierarchy.types.findIdx fun node => node.fqn == fqn

/-- The look of a type: interfaces are round, undeclared types are faint. -/
def typeAttributes (node : TypeNode) : String :=
  "color=\"" ++ (if node.isDeclared then "black" else "#00000088") ++ "\",shape="
    ++ (if node.isInterface then "ellipse" else "box")

/-- The look of an inheritance: interfaces are dashed. -/
def linkAttributes : Inheritance → String
  | .superclass => "arrowType=empty,style=solid"
  | .interface => "arrowType=empty,style=dashed"

/-- The hierarchy as a graph to be written. -/
def digraph (hierarchy : Hierarchy) : Digraph where
  vertices := hierarchy.types.map fun node => ⟨node.fqn, typeAttributes node⟩
  edges := hierarchy.links.map fun link =>
    ⟨hierarchy.place link.sub, hierarchy.place link.sup, none, linkAttributes link.how⟩

end Hierarchy
end ValueFlow
