/-
  ValueFlow.Command.Run

  Runs of the program, from its arguments and files to what it prints and writes.
-/

import ValueFlow.Command.Invocation
import ValueFlow.Command.Policy
import ValueFlow.Command.Report
import ValueFlow.Loading
import ValueFlow.Model.Bundled

namespace ValueFlow

/-- What a subcommand has to show: text, then a file if one is asked for, then text. -/
structure Work where
  before : String
  file : Option (String × String)
  after : String
deriving DecidableEq, Repr

/-- What a run leaves behind. -/
structure Outcome where
  printed : String
  files : Files
  exitCode : Nat
  error : Option CommandError
deriving DecidableEq, Repr

/-! ## Input -/

namespace Arguments

/-- The unit of the `--input` option. -/
def unit (arguments : Arguments) (view : FileView) : Except CommandError CompilationUnit :=
  match arguments.value? .input with
  | none => .error (.badArguments "--input needed")
  | some path => (CompilationUnit.load view path).mapError .tree

/-- The models to start with: the bundled ones, unless they are not wanted. -/
def startingStore (arguments : Arguments) : Except ModelError ModelStore :=
  if arguments.has .noBundled then .ok .empty else ModelStore.bundled

/-- The starting models and those of every `--models` option. -/
def store (arguments : Arguments) (view : FileView) : Except CommandError ModelStore :=
  match arguments.startingStore with
  | .error error => .error (.models error)
  | .ok store => (store.loadAll view (arguments.values .models)).mapError .models

/-- The paths that a run may read. -/
def paths (arguments : Arguments) : List String :=
  arguments.values .input ++ (arguments.values .models).flatMap fun path =>
    [path, Files.join path ModelStore.flowsName, Files.join path ModelStore.sinksName]

end Arguments

/-! ## Subcommands -/

/-- Flows inside the methods of a unit. -/
def localFlowWork (arguments : Arguments) (view : FileView) : Except CommandError Work := do
  let u ← arguments.unit view
  let store ← arguments.store view
  let policy ← Policy.ofArguments arguments
  let spec := policy.toSpec
  let flows ← (LocalFlows.compute spec ⟨u, .forUnit store u⟩).mapError .flow
  let text :=
    if arguments.has .render then flows.marks.render u .labelled ++ "\n"
    else if arguments.has .json then (flows.toJson u spec.kind).pretty ++ "\n"
    else flows.listing u
  .ok ⟨"", none, text⟩

/-- Flows across the methods of a unit. -/
def globalFlowWork (arguments : Arguments) (view : FileView) : Except CommandError Work := do
  let u ← arguments.unit view
  let store ← arguments.store view
  let policy ← Policy.ofArguments arguments
  let spec := policy.toSpec
  let cx : FlowContext := ⟨u, .forUnit store u⟩
  let flows := GlobalFlows.compute spec cx
  let file := (arguments.value? .output).map fun path =>
    (path, flows.scanned.graph.digraph.render)
  let text :=
    if arguments.has .json then (flows.toJson spec cx).pretty ++ "\n"
    else flows.render spec cx .labelled ++ "\n"
  .ok ⟨"", file, text⟩

/-- The types of a unit and what they inherit from. -/
def hierarchyWork (arguments : Arguments) (view : FileView) : Except CommandError Work := do
  let u ← arguments.unit view
  let filter ← arguments.pattern? .filterType
  let graph := u.hierarchy.digraph.render
  let before := match filter with
    | some pattern => u.hierarchy.listing pattern
    | none => ""
  match arguments.value? .output with
  | some path => .ok ⟨before, some (path, graph), ""⟩
  | none => .ok ⟨before, none, if filter.isNone then graph ++ "\n" else ""⟩

/-- The loaded models: all of them, or those compiled for a unit. -/
def modelInfoWork (arguments : Arguments) (view : FileView) : Except CommandError Work := do
  let store ← arguments.store view
  let filter ← arguments.pattern? .filterType
  if arguments.has .input then do
    let u ← arguments.unit view
    .ok ⟨"", none, (CompiledModels.forUnit store u).listing filter⟩
  else .ok ⟨"", none, store.counts filter⟩

/-- The work of a subcommand. -/
def Subcommand.work (arguments : Arguments) (view : FileView) :
    Subcommand → Except CommandError Work
  | .globalFlow => globalFlowWork arguments view
  | .hierarchy => hierarchyWork arguments view
  | .localFlow => localFlowWork arguments view
  | .modelInfo => modelInfoWork arguments view
  | .completions => .ok ⟨"", none, ""⟩

/-! ## Runs -/

namespace Outcome

/-- A run that printed a text and succeeded. -/
def success (files : Files) (printed : String) : Outcome := ⟨printed, files, 0, none⟩

/-- A run that printed a text and failed. -/
def failure (files : Files) (printed : String) (error : CommandError) : Outcome :=
  ⟨printed, files, 1, some error⟩

/-- Prints and writes what a subcommand has to show. -/
def ofWork (files : Files) (work : Work) : Outcome :=
  match work.file with
  | none => success files (work.before ++ work.after)
  | some (path, content) =>
    match files.write? path content with
    | none => failure files work.before .unwritable
    | some files => success files (work.before ++ work.after)

/-- Runs what a command line asks for. -/
def ofInvocation (files : Files) : Invocation → Outcome
  | .run subcommand arguments =>
    match subcommand.work arguments files.view with
    | .error error => failure files "" error
    | .ok work => ofWork files work
  | .help => success files ""
  | .version name => success files (name ++ " " ++ programVersion ++ "\n")
  | .missing => failure files "" (.badArguments "missing subcommand")
  | .refused => ⟨"", files, 2, none⟩

end Outcome

/-- Runs the program. -/
def run (words : List String) (files : Files) : Outcome :=
  Outcome.ofInvocation files (Invocation.ofWords words)

end ValueFlow
