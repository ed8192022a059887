/-
  ValueFlow.Files

  A directory tree as a value: what the program reads from and writes to.

  Paths are relative to the top. Every step of a path but the last has to come from a
  directory that exists, also for `.` and `..` and empty steps. A name has at most 255
  bytes, a path at most 4095, and neither contains the character zero.
-/

import ValueFlow.Text.Split

namespace ValueFlow

/-- What is at a place. -/
inductive FileEntry where
  | file (content : String)
  | directory
deriving DecidableEq, Repr

/-- What can be read: the entry that a path leads to. -/
abbrev FileView := String → Option FileEntry

/-- The content of a file. -/
def FileView.read? (view : FileView) (path : String) : Option String :=
  match view path with
  | some (.file content) => some content
  | _ => none

/-- Entries by place, a place being the names on the way from the top; the later entry of
    a place counts. -/
structure Files where
  entries : List (List String × FileEntry)
deriving DecidableEq, Repr

namespace Files

/-- Only the top directory. -/
def empty : Files := ⟨[]⟩

/-- What is at a place. -/
def at? (files : Files) (place : List String) : Option FileEntry :=
  if place.isEmpty then some .directory else files.entries.lookup place

/-- Whether there is a directory at a place. -/
def isDirectory (files : Files) (place : List String) : Bool :=
  files.at? place == some .directory

/-- Puts an entry at a place. -/
def put (files : Files) (place : List String) (entry : FileEntry) : Files :=
  ⟨(place, entry) :: files.entries⟩

/-- Puts directories at a place and above it. -/
def putDirectories (files : Files) (place : List String) : Files :=
  (List.range place.length).foldl
    (fun files count => files.put (place.take (count + 1)) .directory) files

/-- The steps of a path. -/
def steps (path : String) : List String :=
  (Text.splitWhere (· == '/') path.toList).map String.ofList

/-- The most bytes a name has. -/
def nameLimit : Nat := 255

/-- The most bytes a path has. -/
def pathLimit : Nat := 4095

/-- Takes one step from a place. -/
def step? (files : Files) (place : List String) (name : String) : Option (List String) :=
  if files.isDirectory place ∧ name.utf8ByteSize ≤ nameLimit then
    if name = "" ∨ name = "." then some place
    else if name = ".." then if place.isEmpty then none else some place.dropLast
    else some (place ++ [name])
  else none

/-- Whether a text can be a path from the top. -/
def isPath (path : String) : Bool :=
  !path.isEmpty && path.toList.head? != some '/' && path.utf8ByteSize ≤ pathLimit
    && !path.toList.contains '\x00'

/-- The place that a path leads to; something need not be there. -/
def place? (files : Files) (path : String) : Option (List String) :=
  if isPath path then (steps path).foldlM files.step? [] else none

/-- What a path leads to. -/
def view (files : Files) : FileView := fun path =>
  (files.place? path).bind files.at?

/-- Writes a file, which may exist already, into a directory that exists. -/
def write? (files : Files) (path content : String) : Option Files := do
  let place ← files.place? path
  if files.isDirectory place then none else some (files.put place (.file content))

/-- Adds a file with the directories above it; a name that ends in a slash is an empty
    directory. -/
def add (files : Files) (name content : String) : Files :=
  let names := steps name
  let place := names.filter fun step => !step.isEmpty
  if names.getLast? = some "" then files.putDirectories place
  else (files.putDirectories place.dropLast).put place (.file content)

/-- The last name of a path, if it has one. -/
def lastName? (path : String) : Option String :=
  match ((steps path).filter fun step => !step.isEmpty && step != ".").getLast? with
  | some name => if name = ".." then none else some name
  | none => none

/-- The path of a name inside a directory. -/
def join (directory name : String) : String :=
  if directory.toList.getLast? = some '/' then directory ++ name
  else directory ++ "/" ++ name

end Files
end ValueFlow
