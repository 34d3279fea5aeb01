import SourceModel.Fault
import SourceModel.Text.Bytes

/-!
# Content snapshots

A snapshot is the text of one revision of a source unit together with the stamp of the revision.
Lines are counted from zero; a line starts behind a line break, and the first one at offset zero.
-/

namespace SourceModel

/-- Text of one revision. -/
structure SourceContent where
  stamp : Nat
  text : String
deriving DecidableEq, Repr, Inhabited

namespace SourceContent

def size (c : SourceContent) : Nat := Text.size c.text

/-- Offsets behind the line breaks of characters that start at `offset`. -/
def breaksFrom (offset : Nat) : List Char → List Nat
  | [] => []
  | c :: cs =>
    let next := offset + c.utf8Size
    if c = '\n' then next :: breaksFrom next cs else breaksFrom next cs

def lineStarts (c : SourceContent) : List Nat := 0 :: breaksFrom 0 c.text.toList

/-- Number of lines. A text without line breaks has one line. -/
def lineCount (c : SourceContent) : Nat := c.lineStarts.length

/-- The line that contains `offset`: the last one that does not start behind it. -/
def lineOf? (c : SourceContent) (offset : Nat) : Except Fault Nat :=
  if c.size < offset then .error (.badLocation offset 0)
  else .ok (c.lineStarts.countP (· ≤ offset) - 1)

def offsetOfLine? (c : SourceContent) (line : Nat) : Except Fault Nat :=
  match c.lineStarts[line]? with
  | some start => .ok start
  | none => .error (.contract s!"line {line} out of range, content has {c.lineCount} lines")

/-- Line and column of `offset`, both counted from one. The column counts characters. An offset
inside a character has the first column of its line, one behind the end that of the last line. -/
def lineColumn (c : SourceContent) (offset : Nat) : Nat × Nat :=
  match c.lineOf? offset with
  | .error _ => (c.lineCount, 1)
  | .ok line =>
    let start := (c.offsetOfLine? line).toOption.getD 0
    let before := (Text.slice? c.text start offset).elim 0 String.length
    (line + 1, before + 1)

end SourceContent

end SourceModel
