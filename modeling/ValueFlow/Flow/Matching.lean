/-
  ValueFlow.Flow.Matching

  Which methods a model or pattern is about, and which positions of a call a node
  takes.
-/

import ValueFlow.Flow.Node
import ValueFlow.Model.Row

namespace ValueFlow

/-- A test on method signatures; the hierarchy tells about inherited methods. -/
abbrev Matcher := Hierarchy → Signature → Bool

/-! ## Models -/

namespace MethodModel

/-- How a parameter type is spelled in the signature of a model; type variables
    have no spelling. -/
def typeSpelling? : TypeRef → Option String
  | .primitive which => some which.className
  | .named fqn => some fqn
  | .array element => (typeSpelling? element).map (· ++ "[]")
  | .unknown => some "*"
  | .typeVar _ => none

/-- Whether a word of a model's signature stands for a type: with a point it is the
    full name, otherwise the name without package. -/
def matchesType (word : String) (type : TypeRef) : Bool :=
  match typeSpelling? type with
  | none => false
  | some spelling =>
    if word.toList.contains '.' then word == spelling
    else word == Text.afterLastPoint spelling

/-- The text between the outer parentheses, or the text itself without them. -/
def insideParentheses (cs : List Char) : List Char :=
  match cs with
  | '(' :: rest => if rest.getLast? = some ')' then rest.dropLast else cs
  | _ => cs

/-- Whether the signature of a model fits the parameters of a method; an empty one
    fits all. -/
def matchesParameters (signature : String) (types : List TypeRef) : Bool :=
  if signature.isEmpty then true
  else
    let inner := insideParentheses signature.toList
    if (Text.trim inner).isEmpty then types.isEmpty
    else
      let words := (Text.splitWhere (· == ',') inner).map fun word =>
        String.ofList (Text.trim word)
      words.length == types.length
        && (words.zip types).all fun (word, type) => matchesType word type

/-- Whether a model is about the declaring type of a method, or about one of its
    supertypes if it holds for subtypes. -/
def matchesDeclaring (model : MethodModel) (hierarchy : Hierarchy) (signature : Signature) :
    Bool :=
  match signature.declaringType.fqn? with
  | none => false
  | some declaring =>
    declaring == model.fqn
      || (model.subtypes
        && (model.fqn == objectName || (hierarchy.supertypes declaring).contains model.fqn))

/-- Whether a model names a method; constructors are only named by constructors. -/
def matchesName (model : MethodModel) (signature : Signature) : Bool :=
  if model.isConstructor then signature.isConstructor
  else !signature.isConstructor && signature.name == model.name

/-- Whether a model is about a method. -/
def isAbout (model : MethodModel) : Matcher := fun hierarchy signature =>
  model.matchesName signature && matchesParameters model.signature signature.parameterTypes
    && model.matchesDeclaring hierarchy signature

end MethodModel

/-! ## Alternatives -/

/-- Several things of which any one may match; one alone is kept as it is. -/
inductive Alternatives (α : Type) where
  | nothing
  | single (member : α)
  | anyOf (members : List α)
deriving DecidableEq, Repr

namespace Alternatives

variable {α : Type}

/-- The members of a list as alternatives. -/
def ofList : List α → Alternatives α
  | [] => .nothing
  | [member] => .single member
  | members => .anyOf members

/-- The members in order. -/
def toList : Alternatives α → List α
  | .nothing => []
  | .single member => [member]
  | .anyOf members => members

/-- Whether some member accepts a method. -/
def matcher (members : Alternatives α) (member : α → Matcher) : Matcher :=
  fun hierarchy signature => members.toList.any fun a => member a hierarchy signature

/-- A list as alternatives has the members of the list. -/
@[simp] theorem toList_ofList (members : List α) : (ofList members).toList = members := by
  match members with
  | [] => rfl
  | [_] => rfl
  | _ :: _ :: _ => rfl

end Alternatives

/-! ## Calls -/

namespace Matcher

/-- The methods of these names. -/
def named (name : String) : Matcher := fun _ signature => signature.name == name

/-- Whether an element is a resolved call of a matching method. -/
def matchesCall (m : Matcher) (u : CompilationUnit) (call : ElementId) : Bool :=
  ((u.kind? call).bind Kind.callSignature?).any (m u.hierarchy)

/-- The matching call that a node is an argument of, and at which place. -/
def argumentOf? (m : Matcher) (u : CompilationUnit) (node : Node) :
    Option (ElementId × Nat) :=
  (node.argumentOf? u).filter fun (call, _) => m.matchesCall u call

/-- Whether a node is the receiver of a matching method call. -/
def isReceiver (m : Matcher) (u : CompilationUnit) (node : Node) : Bool :=
  (node.receiverOf? u).any (m.matchesCall u)

/-- Whether a node is an argument of a matching call. -/
def isAnyArgument (m : Matcher) (u : CompilationUnit) (node : Node) : Bool :=
  (m.argumentOf? u node).isSome

/-- Whether a node is the argument of a matching call at a place. -/
def isArgument (m : Matcher) (u : CompilationUnit) (node : Node) (index : Int) : Bool :=
  (m.argumentOf? u node).any fun (_, place) => (place : Int) == index

/-- The parameter that an argument is passed to: all arguments from a variadic last
    parameter on are passed to it. -/
def parameterIndex (signature : Signature) (place : Nat) : Nat :=
  let declared := signature.parameterTypes.length
  if signature.isVarargs ∧ 0 < declared ∧ declared - 1 ≤ place then declared - 1 else place

/-- Whether a node is passed to the parameter of a matching call at an index. -/
def isParameter (m : Matcher) (u : CompilationUnit) (node : Node) (index : Int) : Bool :=
  (m.argumentOf? u node).any fun (call, place) =>
    ((u.kind? call).bind Kind.callSignature?).any fun signature =>
      (parameterIndex signature place : Int) == index

/-- The matching call that a node is the receiver or an argument of. -/
def nearestCall? (m : Matcher) (u : CompilationUnit) (node : Node) : Option ElementId := do
  let id ← node.expression?
  let call ← u.parent? id
  if u.tree.isKind Kind.isCall call && m.matchesCall u call then some call else none

end Matcher
end ValueFlow
