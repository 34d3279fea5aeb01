import SourceModel.CommandLine.Command
import SourceModel.CommandLine.Files
import SourceModel.CommandLine.Help
import SourceModel.CommandLine.Report
import SourceModel.Config.Schema

/-!
# Running commands

A command reads its configuration, then its files, and prints its report only when nothing has
failed. The configuration is that of the file that is asked for, otherwise of the first file with
one of the known names, looked for from the current directory upwards; without such a file it is
empty.
-/

namespace SourceModel.CommandLine

/-- Why a command fails. -/
inductive CommandFault where
  | unreadable (path : String) (cause : FileFault)
  | unwritable (path : String) (cause : FileFault)
  | alreadyThere (file : String)
  | noName (offset : Nat) (path : String)
  | fault (f : Fault)
deriving DecidableEq, Repr

def CommandFault.message : CommandFault → String
  | unreadable path cause => s!"failed to read {path}: {cause.message}"
  | unwritable path cause => s!"failed to write {path}: {cause.message}"
  | alreadyThere file =>
    s!"configuration file '{file}' already exists (use --force to overwrite)"
  | noName offset path => s!"no name at offset {offset} in {path}"
  | fault f => f.message

/-- How a run of the program ends: its exit code, what it prints, and what it reports as an error.
-/
structure Exit where
  code : Nat := 0
  output : String := ""
  error? : Option String := none
deriving DecidableEq, Repr

variable {m : Type → Type} [Monad m]

abbrev CommandM (m : Type → Type) := ExceptT CommandFault m

def ofLibrary {α : Type} (result : Except Fault α) : CommandM m α :=
  ExceptT.mk (pure (result.mapError .fault))

/-! ## Configuration -/

/-- Names of configuration files; earlier ones are preferred. -/
def configFileNames : List String :=
  [".ltkrc.json", ".ltkrc.toml", "ltk.yaml", "ltk.yml", "ltk.json"]

def loadConfigFile (files : FileAccess m) (path : String) : CommandM m Config := do
  let parsed := match ← files.read path with
    | .ok text => Config.parse text (extension? path)
    | .error cause => .error (.io path cause.message)
  ofLibrary (parsed.mapError fun f =>
    .config s!"Failed to load config from '{path}': {f.message}")

/-- The first of the paths at which there is a file. -/
def firstFile? (files : FileAccess m) : List String → m (Option String)
  | [] => return none
  | path :: paths => do if ← files.isFile path then return some path else firstFile? files paths

def loadConfig (files : FileAccess m) (path? : Option String) : CommandM m Config := do
  match path? with
  | some path =>
    if ← files.isPresent path then loadConfigFile files path
    else ofLibrary (.error (.config s!"Config file not found: {path}"))
  | none =>
    let places := (enclosingDirectories (← files.directory)).flatMap fun directory =>
      configFileNames.map (joinPath directory)
    match ← (firstFile? files places : m (Option String)) with
    | some path => loadConfigFile files path
    | none => return {}

/-! ## Commands -/

def openFile (files : FileAccess m) (config : Config) (path : String) :
    CommandM m OpenedFile := do
  match ← files.read path with
  | .ok text =>
    ofLibrary (OpenedFile.ofText ((stem? path).getD "main") text config.modelOptions)
  | .error cause => throw (.unreadable path cause)

/-- Writes a starter configuration into the current directory. -/
def initConfig (files : FileAccess m) (format : Config.StarterFormat) (force : Bool) :
    CommandM m Exit := do
  let path := joinPath (← files.directory) format.fileName
  if (← files.isPresent path) && !force then throw (.alreadyThere format.fileName)
  match ← files.write path format.contents with
  | .ok () => return { output := s!"✓ Created configuration file: {format.fileName}\n" }
  | .error cause => throw (.unwritable path cause)

def jsonOutput (j : Json) : String := j.pretty ++ "\n"

def checkFile (files : FileAccess m) (config : Config) (path : String) :
    CommandM m (List FileProblem) := do
  let file ← openFile files config path
  return (← ofLibrary file.model).problems.map fun problem => ⟨path, file.content, problem⟩

def runCommand (files : FileAccess m) (config : CommandM m Config) : Command → CommandM m Exit
  | .dump path level? max? noForeign => do
    let config ← config
    let file ← openFile files config path
    let info ← ofLibrary (file.ast (level?.getD config.modelOptions.astLevel))
    let options := config.printerOptions
    let options : PrinterOptions :=
      { options with
        maxFragmentSize := max?.getD options.maxFragmentSize
        includeForeign := options.includeForeign && !noForeign }
    return { output := info.ast.print file.content.text options }
  | .names path at? format => do
    let file ← openFile files (← config) path
    let model ← ofLibrary file.model
    let some groups := nameGroups? model.names at? | throw (.noName (at?.getD 0) path)
    return { output := match format with
      | .json => jsonOutput (namesJson file.content groups)
      | .human =>
        if groups.isEmpty then s!"no name accesses in {path}\n"
        else namesText file.content groups }
  | .outline path format => do
    let file ← openFile files (← config) path
    let model ← ofLibrary file.model
    return { output := match format with
      | .json => jsonOutput (outlineJson file.content model.outline 0)
      | .human => textOfLines (outlineLines file.content model.outline 0 0) }
  | .sections path at? pair? => do
    let config ← config
    let file ← openFile files config path
    let partitioning := config.partitioning?.getD Calc.partitioning
    if at?.isNone && pair?.isNone then
      return { output := ← ofLibrary (partitionsText file.document partitioning) }
    let types := at?.toList.map ((Calc.sectionsIn partitioning).typeAt file.document)
    let pairs := pair?.toList.map (pairLine file.document partitioning)
    return { output := textOfLines (types ++ pairs) }
  | .check paths format => do
    let config ← config
    let problems := (← paths.mapM (checkFile files config)).flatten
    return {
      code := if problems.isEmpty then 0 else 1
      output := match format with
        | .json => jsonOutput (.array (problems.map FileProblem.toJson))
        | .human => problemsText problems paths.length }
  | .init format force => initConfig files format force
  | .show => do return { output := jsonOutput (← config).toJson }
  | .schema => return { output := jsonOutput Config.Schema.json }

/-- Runs the program on its arguments. -/
def run (files : FileAccess m) (args : List String) : m Exit := do
  match Invocation.ofArguments args with
  | .error .usage => return { code := 2 }
  | .error .help => return { output := helpText }
  | .error .version => return { output := versionText }
  | .ok none => return {}
  | .ok (some { command? := none, .. }) => return { output := helpText }
  | .ok (some { config?, command? := some command }) =>
    match ← (runCommand files (loadConfig files config?) command).run with
    | .ok exit => return exit
    | .error e => return { code := 1, error? := some e.message }

end SourceModel.CommandLine
