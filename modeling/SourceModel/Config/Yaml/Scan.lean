import SourceModel.Config.Yaml.Token

/-!
# Where the reader of a YAML document stands

The state of reading tokens: the text that is left and its position, the blocks that are open, and
for every level of brackets the place where a key may have begun. That it was a key is known only
when its colon is met; its token is then placed before those that have been read in the meantime.
-/

namespace SourceModel.Yaml

/-- A place where a key may have begun. -/
structure PossibleKey where
  /-- Whether the place is right for nothing but a key. -/
  isRequired : Bool
  /-- The number of tokens in front of the place. -/
  token : Nat
  index : Nat
  line : Nat
  column : Nat

/-- The state of reading tokens. -/
structure Scan where
  rest : List Char
  index : Nat := 0
  line : Nat := 0
  column : Nat := 0
  tokens : Array Token := #[]
  /-- Column of the innermost open block, -1 if there is none. -/
  indent : Int := -1
  /-- Columns of the other open blocks, the nearest one first. -/
  outerIndents : List Int := []
  possibleKey : Option PossibleKey := none
  /-- The possible keys outside the innermost brackets, the nearest one first. -/
  outerKeys : List (Option PossibleKey) := []
  isKeyAllowed : Bool := true

/-- A step of reading tokens. -/
abbrev Scanner := StateT Scan Option

namespace Scan

/-- Whether a bracket is open. -/
def inFlow (s : Scan) : Bool := !s.outerKeys.isEmpty

def next? (s : Scan) : Option Char := s.rest.head?

/-- Whether a line that separates documents is next. -/
def isAtMark (s : Scan) : Bool :=
  s.column = 0 && (isDocumentMark "---" s.rest || isDocumentMark "..." s.rest)

end Scan

namespace Scanner

/-- Skips characters of the line. -/
def advance (n : Nat) : Scanner Unit :=
  modify fun s =>
    { s with rest := s.rest.drop n, index := s.index + n, column := s.column + n }

/-- Takes the characters of the line that belong to a class. -/
def span (belongs : Char → Bool) : Scanner (List Char) := do
  let cs := (← get).rest.takeWhile belongs
  advance cs.length
  return cs

/-- Takes the end of a line, as the text it counts for. At the end of the document it is empty. -/
def lineBreak : Scanner (List Char) := do
  let s ← get
  let c :: cs := s.rest | return []
  let isPair := c = '\r' && cs.head? = some '\n'
  set { s with
    rest := if isPair then cs.drop 1 else cs
    index := s.index + (if isPair then 2 else 1)
    line := s.line + 1
    column := 0 }
  return [if c = '\u2028' || c = '\u2029' then c else '\n']

def emit (t : Token) : Scanner Unit := modify fun s => { s with tokens := s.tokens.push t }

/-- Adds a token behind the first `n`. -/
def emitAt (n : Nat) (t : Token) : Scanner Unit :=
  modify fun s =>
    { s with tokens := (s.tokens.extract 0 n).push t ++ s.tokens.extract n s.tokens.size }

/-- Says whether a key may begin at the next token. -/
def allowKey (isKeyAllowed : Bool) : Scanner Unit := modify fun s => { s with isKeyAllowed }

/-- Skips blanks, comments and empty lines. A tab in front of a key does not count as a blank. -/
def toNextToken : Nat → Scanner Unit
  | 0 => failure
  | fuel + 1 => do
    let s ← get
    if s.index = 0 && s.next? = some '\ufeff' then advance 1
    discard (span fun c => c = ' ' || (c = '\t' && (s.inFlow || !s.isKeyAllowed)))
    if (← get).next? = some '#' then discard (span fun c => !isBreak c)
    if (← get).next?.any isBreak then
      discard lineBreak
      if !s.inFlow then allowKey true
      toNextToken fuel

/-! ## Keys -/

/-- Whether a place is too far back for the colon of a key. -/
def isStale (s : Scan) (k : PossibleKey) : Bool := k.line < s.line || k.index + 1024 < s.index

/-- Gives up a place that is too far back, which must not be right for nothing but a key. -/
def refresh (s : Scan) : Option PossibleKey → Option (Option PossibleKey)
  | none => some none
  | some k =>
    if isStale s k then
      if k.isRequired then none else some none
    else some (some k)

/-- Gives up all places that are too far back. -/
def dropStaleKeys : Scanner Unit := do
  let s ← get
  let some possibleKey := refresh s s.possibleKey | failure
  let some outerKeys := s.outerKeys.mapM (refresh s) | failure
  set { s with possibleKey, outerKeys }

/-- Gives up the place where a key may have begun. -/
def dropKey : Scanner Unit := do
  let s ← get
  guard (!s.possibleKey.any (·.isRequired))
  set { s with possibleKey := none }

/-- Remembers that a key may begin here. -/
def markKey : Scanner Unit := do
  if (← get).isKeyAllowed then
    dropKey
    let s ← get
    let isRequired := !s.inFlow && s.indent = s.column
    let k : PossibleKey := ⟨isRequired, s.tokens.size, s.index, s.line, s.column⟩
    set { s with possibleKey := some k }

/-! ## Blocks -/

/-- Opens a block at a column if it is further in than all others; its token is placed behind the
first `n`. -/
def openBlock (column n : Nat) (start : Token) : Scanner Unit := do
  let s ← get
  if !s.inFlow && s.indent < column then
    set { s with indent := column, outerIndents := s.indent :: s.outerIndents }
    emitAt n start

/-- Closes the blocks that are further in than a column. -/
def closeBlocks (column : Int) : Scanner Unit := do
  let s ← get
  if !s.inFlow then
    let levels := s.indent :: s.outerIndents
    let closed := (levels.takeWhile (column < ·)).length
    let left := levels.drop closed
    set { s with
      indent := left.headD (-1)
      outerIndents := left.drop 1
      tokens := s.tokens ++ Array.replicate closed Token.blockEnd }

end Scanner

end SourceModel.Yaml
