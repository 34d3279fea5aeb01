import SourceModel.Config.Json.Reader
import SourceModel.Config.Setting
import SourceModel.Config.Toml.Reader
import SourceModel.Config.Yaml.Reader
import SourceModel.Level

/-!
# Formats of configuration files

A format reads a text and lays down a few rules for what its values may stand for. The rules for
tables are common to all: a field may be given once, and unknown fields do not count. In some
formats the fields may also be given as a list, in their order.
-/

namespace SourceModel.Config

/-- Whether fields may be given as a list. -/
inductive ListRule where
  | refused
  /-- The list must not be longer than there are fields. -/
  | bounded
  /-- Values behind those of the fields do not count. -/
  | unbounded
deriving DecidableEq, Repr

structure Format where
  /-- Name of the format in messages. -/
  name : String
  read? : String → Option Setting
  /-- Whether a value beside the name of a choice adds nothing to it. -/
  isUnit : Setting → Bool := fun _ => false
  lists : ListRule
  /-- Whether an unset scalar without a text stands for a table without entries. -/
  isEmptyTable : Bool := false

namespace Format

/-- JSON. A choice may be written as an object that maps its name to null. -/
def json : Format where
  name := "JSON"
  read? := JsonText.read?
  isUnit := Setting.isUnset
  lists := .bounded

/-- TOML. A choice may be written as a table that maps its name to an empty table or array. -/
def toml : Format where
  name := "TOML"
  read? := Toml.read?
  isUnit
    | .list items => items.isEmpty
    | .table entries => entries.isEmpty
    | .scalar _ => false
  lists := .unbounded

def yaml : Format where
  name := "YAML"
  read? := Yaml.read?
  lists := .refused
  isEmptyTable := true

/-- The format that the extension of a file names. -/
def ofExtension? : String → Option Format
  | "json" => some json
  | "toml" => some toml
  | "yaml" | "yml" => some yaml
  | _ => none

/-- The values of the fields with the given names. If they are given as a list, the first `required`
ones have to be there. -/
def fields? (f : Format) (names : List String) (required : Nat) :
    Setting → Option (List Setting)
  | .table entries =>
    if entries.all (·.1.isSome) ∧ names.all fun n => entries.countP (·.1 == some n) ≤ 1 then
      some (names.map fun n => (entries.lookup (some n)).getD .unset)
    else none
  | .list items =>
    let isFit := f.lists = .unbounded ∨ (f.lists = .bounded ∧ items.length ≤ names.length)
    if required ≤ items.length ∧ isFit then
      some ((List.range names.length).map fun i => items[i]?.getD .unset)
    else none
  | .scalar s =>
    if f.isEmptyTable ∧ s.isUnset ∧ s.text? = some "" then some (names.map fun _ => .unset)
    else none

def level? (f : Format) : Setting → Option AstLevel
  | .scalar s => s.text?.bind AstLevel.ofName?
  | .table [(some name, v)] => if f.isUnit v then AstLevel.ofName? name else none
  | _ => none

end Format

/-- A value that may be left unset. -/
def optional? {α : Type} (read : Setting → Option α) (v : Setting) : Option (Option α) :=
  if v.isUnset then some none else (read v).map some

def text? : Setting → Option String
  | .scalar s => s.text?
  | _ => none

def flag? : Setting → Option Bool
  | .scalar s => s.flag?
  | _ => none

def size? : Setting → Option Nat
  | .scalar s => s.size?
  | _ => none

end SourceModel.Config
