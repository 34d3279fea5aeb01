import SourceModel.Config.Yaml.Scan
import SourceModel.Text.Reading

/-!
# Texts in a YAML document

A text stands without quotes, in quotes, or as a block of indented lines. Where it goes over several
lines, a single line break between two of them counts as a blank.
-/

namespace SourceModel.Yaml

open Text Scanner

/-! ## Between two pieces of a text -/

/-- Blanks and line breaks between two pieces of a text. -/
structure Gap where
  blanks : List Char := []
  isBroken : Bool := false
  /-- The first line break, empty if it does not count. -/
  first : List Char := []
  /-- The other line breaks. -/
  more : List Char := []

/-- What line breaks between two pieces count for. -/
def folded (first more : List Char) : List Char :=
  if first.head? = some '\n' then if more.isEmpty then [' '] else more else first ++ more

def Gap.text (g : Gap) : List Char := if g.isBroken then folded g.first g.more else g.blanks

/-- Takes blanks and line breaks. At the beginning of a line there must not be a tab in front of
column `indent`. -/
def gap (indent : Nat) : Nat → Gap → Scanner Gap
  | 0, _ => failure
  | fuel + 1, g => do
    let s ← get
    match s.next? with
    | none => return g
    | some c =>
      if isBlank c then
        guard (!(g.isBroken && c = '\t' && s.column < indent))
        advance 1
        gap indent fuel (if g.isBroken then g else { g with blanks := g.blanks ++ [c] })
      else if isBreak c then
        let br ← lineBreak
        gap indent fuel
          (if g.isBroken then { g with more := g.more ++ br }
            else { isBroken := true, first := br })
      else return g

/-! ## Without quotes -/

/-- The characters up to a blank, a line break, or what ends a text without quotes. -/
def plainPiece? (inFlow : Bool) : List Char → Option (List Char)
  | [] => some []
  | c :: cs =>
    if isBlank c || isBreak c then some []
    else if c = ':' then
      if inFlow && cs.head?.any ",?[]\x7b\x7d".toList.contains then none
      else if isGap cs.head? then some []
      else (plainPiece? inFlow cs).map (c :: ·)
    else if inFlow && ",[]\x7b\x7d".toList.contains c then some []
    else (plainPiece? inFlow cs).map (c :: ·)

/-- A text without quotes behind `text` and a gap, whose lines begin at column `indent` or behind
it. Tells also whether there are line breaks behind the text. -/
def plainFrom (indent : Nat) : Nat → List Char → Gap → Scanner (List Char × Bool)
  | 0, _, _ => failure
  | fuel + 1, text, g => do
    let s ← get
    if s.isAtMark || s.next? = some '#' then return (text, g.isBroken)
    let some piece := plainPiece? s.inFlow s.rest | failure
    if piece.isEmpty then return (text, g.isBroken)
    advance piece.length
    let text := text ++ g.text ++ piece
    let g ← gap indent fuel {}
    let s ← get
    if g.blanks.isEmpty && !g.isBroken then return (text, false)
    if !s.inFlow && s.column < indent then return (text, g.isBroken)
    plainFrom indent fuel text g

def plainText (fuel : Nat) : Scanner String := do
  let (text, isBroken) ← plainFrom ((← get).indent + 1).toNat fuel [] {}
  if isBroken then allowKey true
  return String.ofList text

/-! ## In quotes -/

/-- A piece of a text in quotes: the text, the number of characters that it takes, and whether it
ends with an escaped line break. -/
structure Piece where
  text : List Char := []
  length : Nat := 0
  isJoined : Bool := false

/-- The piece with a character in front that takes `length` characters. -/
def Piece.cons (c : Char) (length : Nat) (p : Piece) : Piece :=
  { p with text := c :: p.text, length := length + p.length }

/-- The characters up to a blank, a line break or the closing single quote. -/
def singlePiece : List Char → Piece
  | [] => {}
  | '\'' :: '\'' :: cs => (singlePiece cs).cons '\'' 2
  | c :: cs => if c = '\'' || isBlank c || isBreak c then {} else (singlePiece cs).cons c 1

def escaped? : Char → Option Char
  | '0' => some '\x00'
  | 'a' => some '\x07'
  | 'b' => some '\x08'
  | 't' | '\t' => some '\t'
  | 'n' => some '\n'
  | 'v' => some '\x0b'
  | 'f' => some '\x0c'
  | 'r' => some '\r'
  | 'e' => some '\x1b'
  | ' ' => some ' '
  | '"' => some '"'
  | '/' => some '/'
  | '\\' => some '\\'
  | 'N' => some '\u0085'
  | '_' => some '\u00a0'
  | 'L' => some '\u2028'
  | 'P' => some '\u2029'
  | _ => none

/-- The character whose number the digits spell. -/
def numbered? (digits : List Char) : Option Char := (natOfDigits? 16 digits).bind charOfNat?

/-- The characters up to a blank, a line break, an escaped line break or the closing double quote.
-/
def doublePiece? : List Char → Option Piece
  | [] => some {}
  | '\\' :: 'x' :: a :: b :: cs => do
    return (← doublePiece? cs).cons (← numbered? [a, b]) 4
  | '\\' :: 'u' :: a :: b :: c :: d :: cs => do
    return (← doublePiece? cs).cons (← numbered? [a, b, c, d]) 6
  | '\\' :: 'U' :: a :: b :: c :: d :: e :: f :: g :: h :: cs => do
    return (← doublePiece? cs).cons (← numbered? [a, b, c, d, e, f, g, h]) 10
  | '\\' :: e :: cs =>
    if isBreak e then some { length := 1, isJoined := true }
    else do return (← doublePiece? cs).cons (← escaped? e) 2
  | c :: cs =>
    if c = '"' || isBlank c || isBreak c then some {}
    else (doublePiece? cs).map (Piece.cons c 1)

def quotedFrom (quote : Char) : Nat → List Char → Scanner (List Char)
  | 0, _ => failure
  | fuel + 1, text => do
    let s ← get
    guard (!s.isAtMark && s.next?.isSome)
    let some piece := if quote = '"' then doublePiece? s.rest else some (singlePiece s.rest)
      | failure
    advance piece.length
    if piece.isJoined then discard lineBreak
    let text := text ++ piece.text
    if (← get).next? = some quote then
      advance 1
      return text
    let g ← gap 0 fuel { isBroken := piece.isJoined }
    quotedFrom quote fuel (text ++ g.text)

def quotedText (quote : Char) (fuel : Nat) : Scanner String := do
  advance 1
  return String.ofList (← quotedFrom quote fuel [])

/-! ## Blocks of lines -/

/-- Which line breaks at the end of a block belong to its text. -/
inductive Chomping where
  | strip
  | clip
  | keep
deriving DecidableEq, Repr

/-- How the line breaks at the end are treated, if the header of a block says so. -/
def chomping : Scanner (Option Chomping) := do
  match (← get).next? with
  | some '+' =>
    advance 1
    return some .keep
  | some '-' =>
    advance 1
    return some .strip
  | _ => return none

/-- How far the lines are indented, if the header of a block says so. -/
def increment : Scanner (Option Nat) := do
  let some c := (← get).next? | return none
  if !c.isDigit then return none
  guard (c != '0')
  advance 1
  return digitValue? 10 c

/-- The empty lines in front of a line, as line breaks, and the column at which the lines of the
block begin. While the column is not known, `widest` is the widest one met. -/
def emptyLines (indent? : Option Nat) : Nat → Nat → Scanner (List Char × Nat)
  | 0, _ => failure
  | fuel + 1, widest => do
    let s ← get
    let isInside (column : Nat) : Bool := indent?.all (column < ·)
    let spaces := (s.rest.takeWhile (· = ' ')).length
    advance (indent?.elim spaces fun indent => min spaces (indent - s.column))
    let s ← get
    let widest := max widest s.column
    guard (!(isInside s.column && s.next? = some '\t'))
    if s.next?.any isBreak then
      let br ← lineBreak
      let (breaks, indent) ← emptyLines indent? fuel widest
      return (br ++ breaks, indent)
    else return ([], indent?.getD (max widest (max (s.indent + 1).toNat 1)))

/-- The text of a block so far, the line break behind it and those of the empty lines that follow.
-/
structure Block where
  text : List Char := []
  last : List Char := []
  empty : List Char := []
  /-- Whether the last line begins with a blank. -/
  isBlankLine : Bool := false

def Block.add (b : Block) (isLiteral isBlankLine : Bool) (line : List Char) : Block :=
  let isFolded := !isLiteral && b.last.head? = some '\n' && !b.isBlankLine && !isBlankLine
  let between :=
    if isFolded then if b.empty.isEmpty then [' '] else b.empty else b.last ++ b.empty
  { text := b.text ++ between ++ line, isBlankLine }

/-- The lines of a block that begin at column `indent`. -/
def blockLines (isLiteral : Bool) (indent limit : Nat) : Nat → Block → Scanner Block
  | 0, _ => failure
  | fuel + 1, b => do
    let s ← get
    if s.column != indent || s.next?.isNone then return b
    let line ← span fun c => !isBreak c
    let b := b.add isLiteral (s.next?.any isBlank) line
    let last ← lineBreak
    let (empty, _) ← emptyLines (some indent) limit 0
    blockLines isLiteral indent limit fuel { b with last, empty }

def blockText (isLiteral : Bool) (fuel : Nat) : Scanner String := do
  advance 1
  let before? ← chomping
  let increment? ← increment
  let chomping := (before? <|> (← if before?.isSome then pure none else chomping)).getD .clip
  discard (span isBlank)
  if (← get).next? = some '#' then discard (span fun c => !isBreak c)
  guard (isGap (← get).next?)
  discard lineBreak
  let base := (← get).indent
  let (empty, indent) ← emptyLines (increment?.map fun n => (max base 0).toNat + n) fuel 0
  let b ← blockLines isLiteral indent fuel fuel { empty }
  let last := if chomping = .strip then [] else b.last
  let empty := if chomping = .keep then b.empty else []
  return String.ofList (b.text ++ last ++ empty)

end SourceModel.Yaml
