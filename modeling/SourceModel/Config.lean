import SourceModel.Config.Format
import SourceModel.Json
import SourceModel.SourceUnit
import SourceModel.Text.Quoted
import SourceModel.Tree.Printer

/-!
# Configurations

A configuration says how trees are printed, how models are built and which partitioning is used for
sections. Everything in it may be left unset; defaults take the place of what is unset when the
options are asked for.
-/

namespace SourceModel

/-- How trees are printed. -/
structure PrinterConfig where
  maxFragmentSize? : Option Nat := none
  indent? : Option String := none
  includeForeign? : Option Bool := none
deriving DecidableEq, Repr, Inhabited

structure ModelConfig where
  astLevel? : Option AstLevel := none
  buildNames? : Option Bool := none
deriving DecidableEq, Repr, Inhabited

/-- How sections are found. -/
structure SectionsConfig where
  partitioning? : Option String := none
deriving DecidableEq, Repr, Inhabited

structure Config where
  /-- Where editors find a description of the format. -/
  schema? : Option String := none
  printer? : Option PrinterConfig := none
  model? : Option ModelConfig := none
  sections? : Option SectionsConfig := none
deriving DecidableEq, Repr, Inhabited

namespace Config

/-! ## Reading -/

def printerConfig? (f : Format) (v : Setting) : Option PrinterConfig := do
  let [size, indent, foreign] ← f.fields? ["maxFragmentSize", "indent", "includeForeign"] 3 v | none
  return ⟨← optional? size? size, ← optional? text? indent, ← optional? flag? foreign⟩

def modelConfig? (f : Format) (v : Setting) : Option ModelConfig := do
  let [level, names] ← f.fields? ["astLevel", "buildNameAccess"] 2 v | none
  return ⟨← optional? f.level? level, ← optional? flag? names⟩

def sectionsConfig? (f : Format) (v : Setting) : Option SectionsConfig := do
  let [partitioning] ← f.fields? ["partitioning"] 1 v | none
  return ⟨← optional? text? partitioning⟩

/-- The configuration that a value of a format stands for. -/
def ofSetting? (f : Format) (v : Setting) : Option Config := do
  let [schema, printer, model, sections] ←
    f.fields? ["$schema", "printer", "model", "sections"] 1 v | none
  return ⟨← optional? text? schema, ← optional? (printerConfig? f) printer,
    ← optional? (modelConfig? f) model, ← optional? (sectionsConfig? f) sections⟩

def read (f : Format) (text : String) : Except Fault Config :=
  match (f.read? text).bind (ofSetting? f) with
  | some c => .ok c
  | none => .error (.config s!"invalid {f.name}")

/-- Reads a configuration in the format that the extension of its file names. -/
def parse (text : String) (extension? : Option String) : Except Fault Config :=
  match extension?.bind Format.ofExtension? with
  | some f => read f text
  | none =>
    let found := extension?.elim "None" fun e => "Some(" ++ Text.quoted e ++ ")"
    .error (.config ("unsupported config extension " ++ found ++
      " (expected .json, .toml, .yaml or .yml)"))

/-! ## Options -/

/-- How trees are printed, with defaults for what is unset. -/
def printerOptions (c : Config) : PrinterOptions :=
  let p := c.printer?.getD {}
  let d : PrinterOptions := {}
  ⟨p.maxFragmentSize?.getD d.maxFragmentSize, p.indent?.getD d.indent,
    p.includeForeign?.getD d.includeForeign⟩

/-- How models are built, with defaults for what is unset. -/
def modelOptions (c : Config) : ModelOptions :=
  let m := c.model?.getD {}
  let d : ModelOptions := {}
  ⟨m.astLevel?.getD d.astLevel, m.buildNames?.getD d.buildNames⟩

def partitioning? (c : Config) : Option String := c.sections?.bind SectionsConfig.partitioning?

/-- The configuration that spells out every default. -/
def starter : Config :=
  let p : PrinterOptions := {}
  let m : ModelOptions := {}
  { printer? := some ⟨some p.maxFragmentSize, some p.indent, some p.includeForeign⟩
    model? := some ⟨some m.astLevel, some m.buildNames⟩
    sections? := some {} }

/-! ## Writing -/

def printerJson (p : PrinterConfig) : Json :=
  .object (Json.optionalField "maxFragmentSize" .number p.maxFragmentSize? ++
    Json.optionalField "indent" .text p.indent? ++
    Json.optionalField "includeForeign" .flag p.includeForeign?)

def modelJson (m : ModelConfig) : Json :=
  .object (Json.optionalField "astLevel" (fun level => .text level.display) m.astLevel? ++
    Json.optionalField "buildNameAccess" .flag m.buildNames?)

def sectionsJson (s : SectionsConfig) : Json :=
  .object (Json.optionalField "partitioning" .text s.partitioning?)

/-- A configuration as JSON. What is unset is left out. -/
def toJson (c : Config) : Json :=
  .object (Json.optionalField "$schema" .text c.schema? ++
    Json.optionalField "printer" printerJson c.printer? ++
    Json.optionalField "model" modelJson c.model? ++
    Json.optionalField "sections" sectionsJson c.sections?)

end Config

end SourceModel
