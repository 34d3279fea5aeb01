import SourceModel.Config.Toml.Scalar
import SourceModel.Config.Toml.Table

/-!
# Settings in TOML

A document is read line by line: a line is empty, adds an entry to the current table, or names the
table that is current from then on. Values in brackets may go over several lines.
-/

namespace SourceModel.Toml

open Text Reading

/-- Whether a character may stand in a comment or in a text of one line. -/
def isPlain (c : Char) : Bool := c = '\t' || (' ' ≤ c && c != '\x7f')

def blanks : Reading Unit := discard (span fun c => c = ' ' || c = '\t')

def comment : Reading Unit := do
  if ← accept "#" then discard (span isPlain)

def lineBreak : Reading Bool := do
  if ← accept "\n" then return true
  accept "\r\n"

/-- Skips blanks, comments and line breaks. -/
def gaps : Nat → Reading Unit
  | 0 => pure ()
  | fuel + 1 => do
    blanks
    comment
    if ← lineBreak then gaps fuel

/-! ## Texts -/

/-- A character given by its number. -/
def numbered (width : Nat) : Reading Char := do
  let some c := (natOfDigits? 16 (← take width)).bind charOfNat? | failure
  return c

/-- A character given by what stands behind a backslash. -/
def escaped : Reading Char := do
  match ← next with
  | '"' => return '"'
  | '\\' => return '\\'
  | 'b' => return '\x08'
  | 'e' => return '\x1b'
  | 'f' => return '\x0c'
  | 'n' => return '\n'
  | 'r' => return '\r'
  | 't' => return '\t'
  | 'x' => numbered 2
  | 'u' => numbered 4
  | 'U' => numbered 8
  | _ => failure

/-- A text of one line up to its closing quote. -/
def lineText : Nat → Reading (List Char)
  | 0 => failure
  | fuel + 1 => do
    match ← next with
    | '"' => return []
    | '\\' => return (← escaped) :: (← lineText fuel)
    | c =>
      guard (isPlain c)
      return c :: (← lineText fuel)

/-- A text of several lines up to its closing `quotes`. Two quotes may stand right before them. A
backslash at the end of a line joins the line with what follows; `escapes` says whether there are
such and other escapes. -/
def linesText (quote : Char) (escapes : Bool) : Nat → Reading (List Char)
  | 0 => failure
  | fuel + 1 => do
    let one := String.singleton quote
    if ← accept (one ++ one ++ one) then
      if ← accept (one ++ one) then return [quote, quote]
      if ← accept one then return [quote]
      return []
    if ← accept "\r\n" then return '\r' :: '\n' :: (← linesText quote escapes fuel)
    let c ← next
    if c = '\\' && escapes then
      let ahead ← get
      blanks
      if ← lineBreak then
        discard (span fun c => c = ' ' || c = '\t' || c = '\n' || c = '\r')
        linesText quote escapes fuel
      else
        set ahead
        return (← escaped) :: (← linesText quote escapes fuel)
    else
      guard (isPlain c || c = '\n')
      return c :: (← linesText quote escapes fuel)

def quotedLine (fuel : Nat) : Reading String := do
  if ← accept "\"" then return String.ofList (← lineText fuel)
  expect "'"
  let cs ← span fun c => isPlain c && c != '\''
  expect "'"
  return String.ofList cs

/-- A text in quotes. A line break right behind three quotes does not count. -/
def quotedText (fuel : Nat) : Reading String := do
  if ← accept "\"\"\"" then
    discard lineBreak
    return String.ofList (← linesText '"' true fuel)
  if ← accept "'''" then
    discard lineBreak
    return String.ofList (← linesText '\'' false fuel)
  quotedLine fuel

/-! ## Keys -/

def isKeyChar (c : Char) : Bool := c.isAlphanum || c = '_' || c = '-'

def keyPart (fuel : Nat) : Reading String := do
  match ← peek with
  | some '"' | some '\'' => quotedLine fuel
  | _ => return String.ofList (← span1 isKeyChar)

/-- A key as the tables it leads through and its last part. -/
def key (fuel : Nat) : Nat → Reading (List String × String)
  | 0 => failure
  | more + 1 => do
    blanks
    let part ← keyPart fuel
    blanks
    if ← accept "." then
      let (path, last) ← key fuel more
      return (part :: path, last)
    return ([], part)

/-! ## Values -/

def isScalarChar (c : Char) : Bool := !(" \t\r\n,]\x7d#=[\x7b\"'".toList.contains c)

/-- A scalar without quotes. A blank may stand between a day and its time. -/
def bareScalar : Reading Setting := do
  let cs ← span1 isScalarChar
  let ahead ← get
  let isTimed := ahead.head? = some ' ' && (ahead.drop 1).head?.any Char.isDigit
  let more ← if isDate cs && isTimed then do
      expect " "
      pure (' ' :: (← span isScalarChar))
    else pure []
  let some s := scalar? (cs ++ more) | failure
  return s

mutual

def value : Nat → Reading Value
  | 0 => failure
  | fuel + 1 => do
    match ← peek with
    | some '"' | some '\'' => return .scalar (.ofText (← quotedText fuel))
    | some '[' =>
      expect "["
      return .list (← items fuel)
    | some '\x7b' =>
      expect "\x7b"
      return .table .inline (← members fuel [])
    | _ => return .scalar (← bareScalar)

/-- The elements of an array and its closing bracket. A comma may stand behind the last one. -/
def items : Nat → Reading (List Value)
  | 0 => failure
  | fuel + 1 => do
    gaps fuel
    if ← accept "]" then return []
    let item ← value fuel
    gaps fuel
    if ← accept "]" then return [item]
    expect ","
    return item :: (← items fuel)

/-- The entries of an inline table and its closing brace. A comma may stand behind the last one. -/
def members : Nat → Entries → Reading Entries
  | 0, _ => failure
  | fuel + 1, entries => do
    gaps fuel
    if ← accept "\x7d" then return entries
    let (path, last) ← key fuel fuel
    expect "="
    blanks
    let v ← value fuel
    let some entries := entries.addDotted? .inline last v path | failure
    gaps fuel
    if ← accept "\x7d" then return entries
    expect ","
    members fuel entries

end

/-! ## Documents -/

/-- What has been read: all entries, and the path of headers that leads to the current table. -/
structure Document where
  root : Entries := []
  path : List String := []

/-- A header in brackets, which makes its table the current one. -/
def header (fuel : Nat) (d : Document) : Reading Document := do
  let isRepeated ← accept "[["
  if !isRepeated then expect "["
  let (path, last) ← key fuel fuel
  expect (if isRepeated then "]]" else "]")
  let openLast := if isRepeated then Entries.openNext? last else Entries.openTable? last
  let some root := d.root.alterAt? openLast path | failure
  return ⟨root, path ++ [last]⟩

/-- An entry of the current table. -/
def entry (fuel : Nat) (d : Document) : Reading Document := do
  let (path, last) ← key fuel fuel
  expect "="
  blanks
  let v ← value fuel
  let some root := d.root.alterAt? (Entries.addDotted? .header last v path) d.path | failure
  return { d with root }

def lines (limit : Nat) : Nat → Document → Reading Document
  | 0, _ => failure
  | fuel + 1, d => do
    blanks
    let d ← match ← peek with
      | some '[' => header limit d
      | some '#' | some '\n' | some '\r' | none => pure d
      | _ => entry limit d
    blanks
    comment
    if ← lineBreak then lines limit fuel d
    else
      guard (← get).isEmpty
      return d

/-- The settings that a text in TOML gives. A byte order mark in front does not count. -/
def read? (text : String) : Option Setting := do
  let limit := 2 * text.length + 2
  let d ← whole (do
    discard (accept "\ufeff")
    lines limit limit {}) text
  return (Value.table .header d.root).toSetting

end SourceModel.Toml
