import SourceModel.CommandLine.Arguments
import SourceModel.Config.Starter
import SourceModel.Level
import SourceModel.Text.Reading
import SourceModel.Word

/-!
# Commands

What the program can be asked for. The general options may stand in front of the name of a command
and behind it; what stands farther behind prevails.
-/

namespace SourceModel.CommandLine

/-- How results are printed. -/
inductive OutputFormat where
  | human
  | json
deriving DecidableEq, Repr

def OutputFormat.ofName? : String → Option OutputFormat
  | "human" => some human
  | "json" => some json
  | _ => none

inductive Command where
  /-- Prints the syntax tree of a file. -/
  | dump (path : String) (level? : Option AstLevel) (maxFragmentSize? : Option Nat)
    (noForeign : Bool)
  /-- Lists the names of a file, or those that belong to the name at an offset. -/
  | names (path : String) (at? : Option Nat) (format : OutputFormat)
  /-- Shows the outline of a file. -/
  | outline (path : String) (format : OutputFormat)
  /-- Lists the partitions of a file, or tells about an offset. -/
  | sections (path : String) (at? : Option Int) (pair? : Option Nat)
  /-- Reports the problems of files. -/
  | check (paths : List String) (format : OutputFormat)
  /-- Writes a starter configuration. -/
  | init (format : Config.StarterFormat) (force : Bool)
  /-- Prints the configuration in use. -/
  | show
  /-- Prints the schema of configurations. -/
  | schema
deriving DecidableEq, Repr

/-- What the arguments ask for: a command under a configuration file, or help if there is none. -/
structure Invocation where
  config? : Option String := none
  command? : Option Command := none
deriving DecidableEq, Repr

/-! ## Values -/

/-- A number from zero on, which fits into a word. A plus may stand in front. -/
def natOf? (value : String) : Option Nat :=
  let digits := if value.startsWith "+" then value.toList.drop 1 else value.toList
  (Text.natOfDigits? 10 digits).filter (· < wordLimit)

/-- A number that fits into a word with a sign. -/
def intOf? (value : String) : Option Int :=
  if value.startsWith "-" then
    let n? := (Text.natOfDigits? 10 (value.toList.drop 1)).filter (· ≤ signedWordLimit)
    n?.map fun n => -(n : Int)
  else ((natOf? value).filter (· < signedWordLimit)).map Int.ofNat

/-! ## Levels -/

/-- The options that every level has. -/
def generalOptions : List OptionSpec :=
  [⟨"config", some 'c', .value (· != ""), false⟩, ⟨"verbose", some 'v', .count, false⟩,
    ⟨"no-color", none, .flag, false⟩, ⟨"help", some 'h', .stop .help, false⟩]

def valueOption {α : Type} (name : String) (read? : String → Option α)
    (letter? : Option Char := none) (takesNegative : Bool := false) : OptionSpec :=
  ⟨name, letter?, .value fun v => (read? v).isSome, takesNegative⟩

def formatOption : OptionSpec := valueOption "format" OutputFormat.ofName? (some 'f')

def programLevel : Level where
  options := generalOptions ++
    [⟨"version", some 'V', .stop .version, false⟩,
      ⟨"generate-completion", none,
        .value fun v => v ∈ ["bash", "elvish", "fish", "powershell", "zsh"], false⟩]
  commands :=
    ["dump", "ast", "names", "outline", "sections", "check", "lint", "config", "help"]

def configLevel : Level where
  options := generalOptions
  commands := ["init", "show", "schema", "help"]

def commandLevel (operands : Operands) (options : List OptionSpec) : Level where
  options := generalOptions ++ options
  operands

/-! ## Reading commands -/

/-- Reads the arguments of a command and makes the command of what has been found. -/
def readCommand (config? : Option String) (operands : Operands) (options : List OptionSpec)
    (make : Found → Option Command) (args : List String) : Except Stop Invocation := do
  let (f, _) ← (commandLevel operands options).read args
  if operands != .none && f.operands.isEmpty then throw .usage
  let some command := make f | throw .usage
  return { config? := (f.value? "config").or config?, command? := some command }

def Found.valueOr {α : Type} (f : Found) (name : String) (read? : String → Option α)
    (fallback : α) : α := ((f.value? name).bind read?).getD fallback

def Found.format (f : Found) : OutputFormat := f.valueOr "format" OutputFormat.ofName? .human

/-- Reads what follows the name of the commands for configurations. -/
def readConfigCommand (config? : Option String) (args : List String) : Except Stop Invocation := do
  let (f, command?) ← configLevel.read args
  let config? := (f.value? "config").or config?
  match command? with
  | some ("init", args) =>
    readCommand config? .none
      [valueOption "format" Config.StarterFormat.ofName?, ⟨"force", none, .flag, false⟩]
      (fun f => some
        (.init (f.valueOr "format" Config.StarterFormat.ofName? .json) (f.has "force"))) args
  | some ("show", args) => readCommand config? .none [] (fun _ => some .show) args
  | some ("schema", args) => readCommand config? .none [] (fun _ => some .schema) args
  | some ("help", args) =>
    throw (if args.all configLevel.commands.contains then .help else .usage)
  | _ => throw .usage

def readNamedCommand (config? : Option String) (name : String) (args : List String) :
    Except Stop Invocation :=
  match name with
  | "dump" | "ast" =>
    readCommand config? .one
      [valueOption "level" AstLevel.ofName?, valueOption "max-fragment-size" natOf?,
        ⟨"no-foreign", none, .flag, false⟩]
      (fun f => do
        return .dump (← f.operands.head?) ((f.value? "level").bind AstLevel.ofName?)
          ((f.value? "max-fragment-size").bind natOf?) (f.has "no-foreign")) args
  | "names" =>
    readCommand config? .one [valueOption "at" natOf?, formatOption]
      (fun f => do
        return .names (← f.operands.head?) ((f.value? "at").bind natOf?) f.format) args
  | "outline" =>
    readCommand config? .one [formatOption]
      (fun f => do return .outline (← f.operands.head?) f.format) args
  | "sections" =>
    readCommand config? .one
      [valueOption "at" intOf? none true, valueOption "pair" natOf?]
      (fun f => do
        return .sections (← f.operands.head?) ((f.value? "at").bind intOf?)
          ((f.value? "pair").bind natOf?)) args
  | "check" | "lint" =>
    readCommand config? .many [formatOption] (fun f => some (.check f.operands f.format)) args
  | "config" => readConfigCommand config? args
  | _ =>
    .error (if args.all (programLevel.commands ++ configLevel.commands).contains then .help
      else .usage)

/-- What the arguments of the program ask for. Completion scripts are not part of the library, so a
request for one asks for nothing else. -/
def Invocation.ofArguments (args : List String) : Except Stop (Option Invocation) := do
  let (f, command?) ← programLevel.read args
  let config? := f.value? "config"
  let invocation ← match command? with
    | none => pure { config? }
    | some (name, args) => readNamedCommand config? name args
  return if f.has "generate-completion" then none else some invocation

end SourceModel.CommandLine
