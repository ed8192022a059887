/-
  ValueFlow.Command.Invocation

  The subcommands, and the command line as a whole.
-/

import ValueFlow.Command.Arguments

namespace ValueFlow

/-- A subcommand. -/
inductive Subcommand where
  | globalFlow
  | hierarchy
  | localFlow
  | modelInfo
  | completions
deriving DecidableEq, Repr

namespace Subcommand

/-- The name of a subcommand. -/
def name : Subcommand → String
  | .globalFlow => "globalflow"
  | .hierarchy => "hierarchy"
  | .localFlow => "localflow"
  | .modelInfo => "modelinfo"
  | .completions => "gen-completions"

/-- All subcommands. -/
def all : List Subcommand := [.globalFlow, .hierarchy, .localFlow, .modelInfo, .completions]

/-- The subcommand of a name. -/
def named? (name : String) : Option Subcommand :=
  all.find? fun subcommand => subcommand.name == name

/-- Options of all subcommands that analyse something. -/
def commonOptions : List Opt := [.help, .version, .debug, .verbose, .ecslog, .input]

/-- Options that make a policy. -/
def policyOptions : List Opt :=
  [.sourceMethod, .sourceParameters, .sinkMethod, .sinkKind, .barrierMethod, .taint]

/-- The options of a subcommand. -/
def table : Subcommand → OptionTable
  | .globalFlow =>
    ⟨commonOptions ++ [.models, .noBundled, .json, .output] ++ policyOptions, [.input], []⟩
  | .hierarchy => ⟨commonOptions ++ [.output, .filterType], [.input], []⟩
  | .localFlow =>
    ⟨commonOptions ++ [.models, .noBundled, .render, .json] ++ policyOptions, [.input],
      [(.render, .json)]⟩
  | .modelInfo => ⟨commonOptions ++ [.models, .noBundled, .filterType], [], []⟩
  | .completions => ⟨[.help, .shell], [.shell], []⟩

end Subcommand

/-- The name of the program. -/
def programName : String := "flowworks"

/-- The version of the program. -/
def programVersion : String := "0.3.0"

/-- What a command line asks for. -/
inductive Invocation where
  | run (subcommand : Subcommand) (arguments : Arguments)
  | help
  /-- The version, under the given name. -/
  | version (name : String)
  /-- No subcommand was named. -/
  | missing
  | refused
deriving DecidableEq, Repr

namespace Invocation

/-- Reads the words after the name of a subcommand. -/
def ofSubcommand (subcommand : Subcommand) (words : List String) : Invocation :=
  match subcommand.table.read words with
  | .ok arguments => .run subcommand arguments
  | .error .refused => .refused
  | .error .help => .help
  | .error .version => .version (programName ++ "-" ++ subcommand.name)

/-- Reads the words after `help`: nothing, or what help is asked about. -/
def ofHelp : List String → Invocation
  | [] => .help
  | [name] => if name = "help" ∨ (Subcommand.named? name).isSome then .help else .refused
  | _ => .refused

/-- Reads a command line. -/
def ofWords : List String → Invocation
  | [] => .missing
  | word :: rest =>
    if word.toList.head? = some '-' ∧ word ≠ "-" then
      match ArgumentReader.readWord [.help, .version] .new word with
      | .error .help => .help
      | .error .version => .version programName
      | .error .refused => .refused
      | .ok _ => if rest.isEmpty then .missing else .refused
    else if word = "help" then ofHelp rest
    else
      match Subcommand.named? word with
      | some subcommand => ofSubcommand subcommand rest
      | none => .refused

end Invocation
end ValueFlow
