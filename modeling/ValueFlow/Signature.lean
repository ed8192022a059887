/-
  ValueFlow.Signature

  Types as a program refers to them, method signatures, and type declarations.

  A call site carries the signature seen from the call, with type variables
  already replaced; a declaration carries the declared one. Types and signatures
  are ordered field by field, and choices in the order in which they stand here.
-/

import ValueFlow.Text.Split

namespace ValueFlow

/-- Fully qualified name of the root of all classes. -/
def objectName : String := "java.lang.Object"

/-- Fully qualified name of the string class. -/
def stringName : String := "java.lang.String"

/-- Member name under which every constructor stands. -/
def constructorName : String := "<constructor>"

/-! ## Types -/

/-- Built-in types; strings count as one. -/
inductive Primitive where
  | boolean | byte | char | double | float | int | long | short | void | string | null | none
deriving DecidableEq, Repr, Ord

/-- How a built-in type is written in source code. -/
def Primitive.keyword : Primitive → String
  | .boolean => "boolean"
  | .byte => "byte"
  | .char => "char"
  | .double => "double"
  | .float => "float"
  | .int => "int"
  | .long => "long"
  | .short => "short"
  | .void => "void"
  | .string => "String"
  | .null => "null"
  | .none => ""

/-- Name of the class of a built-in type; only strings have a class of their own. -/
def Primitive.className : Primitive → String
  | .string => stringName
  | other => other.keyword

/-- A type as a program refers to it. -/
inductive TypeRef where
  | primitive (which : Primitive)
  | named (fqn : String)
  | array (element : TypeRef)
  | typeVar (name : String)
  | unknown
deriving DecidableEq, Repr, Ord

namespace TypeRef

/-- The string type. -/
def string : TypeRef := .primitive .string

/-- How a type is shown. -/
def text : TypeRef → String
  | .primitive which => which.keyword
  | .named fqn => fqn
  | .array element => element.text ++ "[]"
  | .typeVar name => "Generic\x7b" ++ name ++ "\x7d"
  | .unknown => "*"

/-- The fully qualified name of a class or interface; strings have one too. -/
def fqn? : TypeRef → Option String
  | .named fqn => some fqn
  | .primitive .string => some stringName
  | _ => none

/-- Whether nothing is known about the type. -/
def isUnknown : TypeRef → Bool
  | .unknown => true
  | _ => false

end TypeRef

/-! ## Method signatures -/

/-- Modifiers of a method, as a set of bits; bits without a meaning are kept. -/
structure Modifiers where
  bits : UInt32
deriving DecidableEq, Repr, Ord

namespace Modifiers

def publicFlag : Modifiers := ⟨0x1⟩
def privateFlag : Modifiers := ⟨0x2⟩
def protectedFlag : Modifiers := ⟨0x4⟩
def staticFlag : Modifiers := ⟨0x8⟩
def finalFlag : Modifiers := ⟨0x10⟩
def varargsFlag : Modifiers := ⟨0x80⟩
def abstractFlag : Modifiers := ⟨0x400⟩
def defaultFlag : Modifiers := ⟨0x2000⟩
def constructorFlag : Modifiers := ⟨0x10000⟩

/-- Whether all bits of `other` are set. -/
def contains (modifiers other : Modifiers) : Bool :=
  modifiers.bits &&& other.bits == other.bits

/-- The bits of both. -/
def union (modifiers other : Modifiers) : Modifiers :=
  ⟨modifiers.bits ||| other.bits⟩

/-- The modifiers that source code shows, with the word of each. -/
def words : List (Modifiers × String) :=
  [(publicFlag, "public "), (privateFlag, "private "), (protectedFlag, "protected "),
    (staticFlag, "static "), (finalFlag, "final "), (abstractFlag, "abstract "),
    (defaultFlag, "default ")]

/-- The words of the modifiers that are set, each followed by a blank. -/
def text (modifiers : Modifiers) : String :=
  String.join ((words.filter fun entry => modifiers.contains entry.1).map (·.2))

end Modifiers

/-- A method signature. -/
structure Signature where
  declaringType : TypeRef
  name : String
  parameterTypes : List TypeRef
  returnType : TypeRef
  modifiers : Modifiers
deriving DecidableEq, Repr, Ord

namespace Signature

/-- Whether the last parameter takes all further arguments. -/
def isVarargs (signature : Signature) : Bool :=
  signature.modifiers.contains .varargsFlag

/-- Whether the signature is that of a constructor, by modifier or by name. -/
def isConstructor (signature : Signature) : Bool :=
  signature.modifiers.contains .constructorFlag || signature.name == constructorName

/-- The public constructor of a class. -/
def constructor (fqn : String) (parameterTypes : List TypeRef) : Signature where
  declaringType := .named fqn
  name := constructorName
  parameterTypes := parameterTypes
  returnType := .named fqn
  modifiers := Modifiers.publicFlag.union .constructorFlag

/-- How a signature is shown: `Type.name(parameters)result`. -/
def text (signature : Signature) : String :=
  signature.declaringType.text ++ "." ++ signature.name ++ "("
    ++ ",".intercalate (signature.parameterTypes.map TypeRef.text)
    ++ (if signature.isVarargs then "..." else "") ++ ")" ++ signature.returnType.text

/-- The declaring type and the name, the way command line patterns see a method. -/
def qualifiedName (signature : Signature) : String :=
  signature.declaringType.text ++ "." ++ signature.name

end Signature

/-! ## Type declarations -/

/-- A class or interface that a unit knows, defined in it or in a library. -/
structure TypeDecl where
  fqn : String
  supertype : Option String
  interfaces : List String
  isInterface : Bool
  methods : List Signature
deriving DecidableEq, Repr

namespace TypeDecl

/-- A class without methods. -/
def ofClass (fqn : String) (supertype : Option String) (interfaces : List String) :
    TypeDecl where
  fqn := fqn
  supertype := supertype
  interfaces := interfaces
  isInterface := false
  methods := []

/-- Adds a method unless it is listed already. -/
def addMethod (decl : TypeDecl) (method : Signature) : TypeDecl :=
  if method ∈ decl.methods then decl else { decl with methods := decl.methods ++ [method] }

/-- The name without its package. -/
def simpleName (decl : TypeDecl) : String :=
  Text.afterLastPoint decl.fqn

/-- The declared supertype, then the interfaces. -/
def parents (decl : TypeDecl) : List String :=
  decl.supertype.toList ++ decl.interfaces

end TypeDecl
end ValueFlow
