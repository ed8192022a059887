/-
  ValueFlow.Main

  The command line program: reads the files that the arguments name, and prints and
  writes what a run has to show.
-/

import ValueFlow.Command.Run

namespace ValueFlow

/-- Looks at what a path leads to. -/
def readEntry (path : String) : IO (Option FileEntry) := do
  try
    return some (.file (← IO.FS.readFile path))
  catch
    | .inappropriateType .. => return some .directory
    | _ => return none

/-- Prints and writes what a subcommand has to show. -/
def perform (work : Work) : IO UInt32 := do
  IO.print work.before
  match work.file with
  | none => IO.print work.after; return 0
  | some (path, content) =>
    try
      IO.FS.writeFile path content
    catch _ =>
      IO.eprintln (CommandError.message .unwritable)
      return 1
    IO.print work.after
    return 0

/-- Runs a subcommand on the files that its arguments name. -/
def runSubcommand (subcommand : Subcommand) (arguments : Arguments) : IO UInt32 := do
  let entries ← arguments.paths.mapM fun path => do return (path, ← readEntry path)
  match subcommand.work arguments fun path => (entries.lookup path).join with
  | .ok work => perform work
  | .error error => IO.eprintln ("Error: " ++ error.message); return 1

end ValueFlow

open ValueFlow in
/-- The program. -/
def main (words : List String) : IO UInt32 := do
  match Invocation.ofWords words with
  | .run subcommand arguments => runSubcommand subcommand arguments
  | other =>
    let outcome := Outcome.ofInvocation .empty other
    IO.print outcome.printed
    if let some error := outcome.error then IO.eprintln ("Error: " ++ error.message)
    return UInt32.ofNat outcome.exitCode
