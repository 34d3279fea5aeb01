import SourceModel.Config.Setting

/-!
# Tables of a TOML document

A TOML document fills its tables in pieces: by headers, by dotted keys and by inline tables. Where a
table comes from decides who may still add to it, so that no table is defined twice.
-/

namespace SourceModel.Toml

inductive Origin where
  /-- A header names the table. -/
  | header
  /-- A header names a table further in. -/
  | implied
  /-- A dotted key leads through the table. -/
  | dotted
  /-- The table is written in one piece. -/
  | inline
deriving DecidableEq, Repr

inductive Value where
  | scalar (s : Setting)
  | list (items : List Value)
  | table (origin : Origin) (entries : List (String × Value))
  /-- Tables that share a header in double brackets. -/
  | tables (items : List (List (String × Value)))

abbrev Entries := List (String × Value)

namespace Entries

/-- The entries with a new value of `key`, in its place or at the end. -/
def put (key : String) (v : Value) : Entries → Entries
  | [] => [(key, v)]
  | (k, old) :: entries => if k = key then (k, v) :: entries else (k, old) :: put key v entries

/-- Adds an entry whose key is new. -/
def add? (key : String) (v : Value) (entries : Entries) : Option Entries :=
  match entries.lookup key with
  | none => some (put key v entries)
  | some _ => none

/-- Adds a value under a dotted key. The tables on the way are made as needed; the key may lead
through such tables only as no header names, and has to end in one that dotted keys have made. -/
def addDotted? (origin : Origin) (last : String) (v : Value) :
    List String → Entries → Option Entries
  | [], entries => if origin = .implied then none else add? last v entries
  | key :: path, entries =>
    match entries.lookup key with
    | none => do return put key (.table .dotted (← addDotted? .dotted last v path [])) entries
    | some (.table inner inside) =>
      if inner = .dotted ∨ inner = .implied then do
        return put key (.table inner (← addDotted? inner last v path inside)) entries
      else none
    | some _ => none

/-- Changes the entries of the table to which a path of headers leads. The tables on the way are
made as needed. -/
def alterAt? (change : Entries → Option Entries) : List String → Entries → Option Entries
  | [], entries => change entries
  | key :: path, entries =>
    match entries.lookup key with
    | none => do return put key (.table .implied (← alterAt? change path [])) entries
    | some (.table .inline _) => none
    | some (.table origin inside) => do
      return put key (.table origin (← alterAt? change path inside)) entries
    | some (.tables items) => do
      let inside ← alterAt? change path (items.getLastD [])
      return put key (.tables (items.dropLast ++ [inside])) entries
    | some _ => none

/-- Opens the table that a header in single brackets names. -/
def openTable? (key : String) (entries : Entries) : Option Entries :=
  match entries.lookup key with
  | none => some (put key (.table .header []) entries)
  | some (.table .implied inside) => some (put key (.table .header inside) entries)
  | some _ => none

/-- Opens another table of those that a header in double brackets names. -/
def openNext? (key : String) (entries : Entries) : Option Entries :=
  match entries.lookup key with
  | none => some (put key (.tables [[]]) entries)
  | some (.tables items) => some (put key (.tables (items ++ [[]])) entries)
  | some _ => none

end Entries

mutual

def Value.toSetting : Value → Setting
  | .scalar s => s
  | .list items => .list (listSettings items)
  | .table _ entries => .table (entrySettings entries)
  | .tables items => .list (tableSettings items)

/-- The settings that the elements of an array give. -/
def listSettings : List Value → List Setting
  | [] => []
  | v :: items => v.toSetting :: listSettings items

def entrySettings : List (String × Value) → List (Option String × Setting)
  | [] => []
  | (key, v) :: entries => (some key, v.toSetting) :: entrySettings entries

/-- The settings that tables with a common header give. -/
def tableSettings : List (List (String × Value)) → List Setting
  | [] => []
  | entries :: items => .table (entrySettings entries) :: tableSettings items

end

end SourceModel.Toml
