/-
  ValueFlow.Command.Arguments

  Options of the command line, and reading them from words.

  An option has a long name and often a letter. A value follows as the next word, or
  is attached: `--input=x`, `-ix` or `-i=x`. Letters of options without value may share
  a word. A word that looks like an option is never a value.
-/

import ValueFlow.Text.Split

namespace ValueFlow

/-! ## Options -/

/-- An option of some subcommand. -/
inductive Opt where
  | help | version
  | debug | verbose | ecslog
  | input | output | models | noBundled | filterType
  | sourceMethod | sourceParameters | sinkMethod | sinkKind | barrierMethod | taint
  | render | json
  | shell
deriving DecidableEq, Repr

/-- How often an option may be given, and whether it has a value. -/
inductive Arity where
  /-- Without value, once. -/
  | flag
  /-- With a value, once. -/
  | single
  /-- With a value, any number of times. -/
  | many
deriving DecidableEq, Repr

namespace Opt

/-- The long name. -/
def long : Opt → String
  | .help => "help"
  | .version => "version"
  | .debug => "debug"
  | .verbose => "verbose"
  | .ecslog => "ecslog"
  | .input => "input"
  | .output => "output"
  | .models => "models"
  | .noBundled => "no-bundled"
  | .filterType => "filter-type"
  | .sourceMethod => "source-method"
  | .sourceParameters => "source-parameters"
  | .sinkMethod => "sink-method"
  | .sinkKind => "sink-kind"
  | .barrierMethod => "barrier-method"
  | .taint => "taint"
  | .render => "render"
  | .json => "json"
  | .shell => "shell"

/-- The letter. -/
def short? : Opt → Option Char
  | .help => some 'h'
  | .version => some 'V'
  | .debug => some 'd'
  | .verbose => some 'v'
  | .ecslog => some 'e'
  | .input => some 'i'
  | .output => some 'o'
  | .models => some 'm'
  | .taint => some 't'
  | .render => some 'r'
  | .shell => some 's'
  | _ => none

/-- How often the option may be given, and whether it has a value. -/
def arity : Opt → Arity
  | .input | .output | .filterType | .sourceMethod | .sinkMethod | .barrierMethod
  | .shell => .single
  | .models | .sinkKind => .many
  | _ => .flag

/-- The shells that completions can be asked for. -/
def shells : List String := ["bash", "elvish", "fish", "powershell", "zsh"]

/-- Whether the option takes a value. -/
def accepts (opt : Opt) (value : String) : Bool :=
  match opt with
  | .shell => shells.contains value
  | _ => true

end Opt

/-- The options that a subcommand has, needs, and refuses together. -/
structure OptionTable where
  options : List Opt
  required : List Opt
  conflicts : List (Opt × Opt)
deriving DecidableEq, Repr

/-! ## Reading -/

/-- The options that were given, in order, each with its value. -/
structure Arguments where
  given : List (Opt × String)
deriving DecidableEq, Repr

namespace Arguments

/-- Whether an option was given. -/
def has (arguments : Arguments) (opt : Opt) : Bool :=
  arguments.given.any fun entry => entry.1 == opt

/-- All values of an option, in order. -/
def values (arguments : Arguments) (opt : Opt) : List String :=
  (arguments.given.filter fun entry => entry.1 == opt).map (·.2)

/-- The value of an option. -/
def value? (arguments : Arguments) (opt : Opt) : Option String :=
  (arguments.values opt).head?

end Arguments

/-- Why words are not read to their end. -/
inductive Stop where
  | refused
  | help
  | version
deriving DecidableEq, Repr

/-- The state of reading words. -/
structure ArgumentReader where
  arguments : Arguments
  /-- An option that waits for its value. -/
  pending : Option Opt
  /-- Whether a word `--` was read, after which no option is recognized. -/
  escaped : Bool
deriving DecidableEq, Repr

namespace ArgumentReader

/-- Nothing read. -/
def new : ArgumentReader := ⟨⟨[]⟩, none, false⟩

/-- Records an option. -/
def give (reader : ArgumentReader) (opt : Opt) (value : String) :
    Except Stop ArgumentReader :=
  if (opt.arity != .many && reader.arguments.has opt) || !opt.accepts value then .error .refused
  else
    .ok { reader with
      arguments := ⟨reader.arguments.given ++ [(opt, value)]⟩
      pending := none }

/-- Records an option without value; help and version stop at once. -/
def giveFlag (reader : ArgumentReader) : Opt → Except Stop ArgumentReader
  | .help => .error .help
  | .version => .error .version
  | opt => reader.give opt ""

/-- Reads a word with a long name, after its two dashes. -/
def readLong (options : List Opt) (reader : ArgumentReader) (word : List Char) :
    Except Stop ArgumentReader :=
  let name := String.ofList (word.takeWhile (· != '='))
  match options.find? fun opt => opt.long == name, word.dropWhile (· != '=') with
  | none, _ => .error .refused
  | some opt, [] =>
    if opt.arity = .flag then reader.giveFlag opt else .ok { reader with pending := some opt }
  | some opt, _ :: value =>
    if opt.arity = .flag then .error .refused else reader.give opt (String.ofList value)

/-- Reads letters of options. -/
def readShort (options : List Opt) (reader : ArgumentReader) :
    List Char → Except Stop ArgumentReader
  | [] => .ok reader
  | c :: rest =>
    match options.find? fun opt => opt.short? == some c with
    | none => .error .refused
    | some opt =>
      if opt.arity = .flag then do
        let reader ← reader.giveFlag opt
        readShort options reader rest
      else
        match rest with
        | [] => .ok { reader with pending := some opt }
        | '=' :: value => reader.give opt (String.ofList value)
        | value => reader.give opt (String.ofList value)

/-- Reads one word. -/
def readWord (options : List Opt) (reader : ArgumentReader) (word : String) :
    Except Stop ArgumentReader :=
  if reader.escaped then .error .refused
  else
    match word.toList, reader.pending with
    -- A single dash is an ordinary word, also as a value.
    | '-' :: _ :: _, some _ => .error .refused
    | ['-', '-'], none => .ok { reader with escaped := true }
    | '-' :: '-' :: name, none => readLong options reader name
    | '-' :: c :: rest, none => readShort options reader (c :: rest)
    | _, some opt => reader.give opt word
    | _, none => .error .refused

/-- What was given, if no option waits for a value. -/
def finish (reader : ArgumentReader) : Except Stop Arguments :=
  if reader.pending.isSome then .error .refused else .ok reader.arguments

end ArgumentReader

namespace OptionTable

/-- Whether all needed options were given, and no two that exclude each other. -/
def allows (table : OptionTable) (arguments : Arguments) : Bool :=
  table.required.all arguments.has
    && table.conflicts.all fun pair => !(arguments.has pair.1 && arguments.has pair.2)

/-- Reads the words of a subcommand. -/
def read (table : OptionTable) (words : List String) : Except Stop Arguments := do
  let reader ← words.foldlM (ArgumentReader.readWord table.options) .new
  let arguments ← reader.finish
  if table.allows arguments then .ok arguments else .error .refused

end OptionTable
end ValueFlow
