import SourceModel.Config.Yaml.Text

/-!
# Reading the tokens of a YAML document

The next token is determined by the next few characters, by the brackets and blocks that are open,
and by whether a key may begin here. Reading a colon decides whether what stands in front of it was
a key.
-/

namespace SourceModel.Yaml

open Text Scanner

/-! ## Tags, anchors and directives -/

/-- Whether a character may stand in a tag; in one between angle brackets there are more. -/
def isTagChar (isVerbatim : Bool) (c : Char) : Bool :=
  isNameChar c || ";/?:@&=+$.!~*'()".toList.contains c || (isVerbatim && ",[]".toList.contains c)

/-- The number of characters of a tag in front. A percent sign has to be followed by two digits. -/
def tagLength? (isVerbatim : Bool) : List Char → Option Nat
  | '%' :: a :: b :: cs => do
    discard (natOfDigits? 16 [a, b])
    return (← tagLength? isVerbatim cs) + 3
  | c :: cs =>
    if c = '%' then none
    else if isTagChar isVerbatim c then (tagLength? isVerbatim cs).map (· + 1)
    else some 0
  | [] => some 0

/-- Takes the characters of a tag and gives their number. -/
def tagChars (isVerbatim : Bool) : Scanner Nat := do
  let some n := tagLength? isVerbatim (← get).rest | failure
  advance n
  return n

/-- A handle, which begins with an exclamation mark. -/
def handle : Scanner String := do
  guard ((← get).next? = some '!')
  advance 1
  let name ← span isNameChar
  if (← get).next? = some '!' then
    advance 1
    return String.ofList ('!' :: name ++ ['!'])
  else return String.ofList ('!' :: name)

/-- Whether a handle ends with an exclamation mark of its own. -/
def isClosedHandle (handle : String) : Bool := 1 < handle.length && handle.endsWith "!"

def tag : Scanner Token := do
  let token : Token ←
    if ['!', '<'].isPrefixOf (← get).rest then
      advance 2
      guard (0 < (← tagChars true))
      guard ((← get).next? = some '>')
      advance 1
      pure (.tag "")
    else
      let handle ← handle
      let n ← tagChars false
      guard (!isClosedHandle handle || 0 < n)
      pure (.tag (if isClosedHandle handle then handle else "!"))
  let s ← get
  guard (isGap s.next? || (s.inFlow && s.next? = some ','))
  return token

def anchorName : Scanner String := do
  advance 1
  let name ← span isNameChar
  let next? := (← get).next?
  guard (!name.isEmpty && (isGap next? || next?.any "?:,]\x7d%@\x60".toList.contains))
  return String.ofList name

def versionPart : Scanner Nat := do
  let digits ← span Char.isDigit
  guard (digits.length < 10)
  let some n := natOfDigits? 10 digits | failure
  return n

/-- A directive with the line break behind it. -/
def directive : Scanner Token := do
  advance 1
  let name ← span isNameChar
  guard (isGap (← get).next?)
  discard (span isBlank)
  let token : Token ← match String.ofList name with
    | "YAML" => do
      let major ← versionPart
      guard ((← get).next? = some '.')
      advance 1
      pure (.version major (← versionPart))
    | "TAG" => do
      let handle ← handle
      guard (isClosedHandle handle || handle = "!")
      guard ((← get).next?.any isBlank)
      discard (span isBlank)
      guard (0 < (← tagChars true))
      guard (isGap (← get).next?)
      pure (.tagHandle handle)
    | _ => failure
  discard (span isBlank)
  if (← get).next? = some '#' then discard (span fun c => !isBreak c)
  let s ← get
  guard (s.next?.all isBreak)
  discard lineBreak
  return token

/-! ## Tokens -/

/-- Takes a token of `length` characters. -/
def symbol (length : Nat) (t : Token) : Scanner Unit := do
  advance length
  emit t

/-- Ends all blocks in front of what stands outside of documents. -/
def leaveDocument : Scanner Unit := do
  closeBlocks (-1)
  dropKey
  allowKey false

def scalarToken (isPlain : Bool) (text : Scanner String) : Scanner Unit := do
  markKey
  allowKey false
  emit (.scalar (← text) isPlain)

/-- An opening bracket, which may begin a key. -/
def openFlow (t : Token) : Scanner Unit := do
  markKey
  modify fun s =>
    { s with possibleKey := none, outerKeys := s.possibleKey :: s.outerKeys, isKeyAllowed := true }
  symbol 1 t

def closeFlow (t : Token) : Scanner Unit := do
  dropKey
  modify fun s =>
    { s with
      possibleKey := if s.inFlow then s.outerKeys.headD none else s.possibleKey
      outerKeys := s.outerKeys.drop 1
      isKeyAllowed := false }
  symbol 1 t

/-- A dash in front of an element of a sequence. -/
def blockEntry : Scanner Unit := do
  let s ← get
  guard (s.inFlow || s.isKeyAllowed)
  openBlock s.column s.tokens.size .blockSequenceStart
  dropKey
  allowKey true
  symbol 1 .blockEntry

def keyMark : Scanner Unit := do
  let s ← get
  guard (s.inFlow || s.isKeyAllowed)
  openBlock s.column s.tokens.size .blockMappingStart
  dropKey
  allowKey (!s.inFlow)
  symbol 1 .key

/-- A colon between a key and its value. -/
def valueMark : Scanner Unit := do
  let s ← get
  match s.possibleKey with
  | some k =>
    emitAt k.token .key
    openBlock k.column k.token .blockMappingStart
    modify fun s => { s with possibleKey := none, isKeyAllowed := false }
  | none =>
    guard (s.inFlow || s.isKeyAllowed)
    openBlock s.column s.tokens.size .blockMappingStart
    allowKey (!s.inFlow)
  symbol 1 .value

/-- Whether a text without quotes begins with `c`. -/
def startsPlain (inFlow : Bool) (c : Char) (behind? : Option Char) : Bool :=
  if c = '-' then !behind?.any isBlank
  else if c = '?' || c = ':' then !inFlow && !isGap behind?
  else !("-?:,[]\x7b\x7d#&*!|>'\"%@\x60".toList.contains c)

def token (fuel : Nat) : Scanner Bool := do
  toNextToken fuel
  dropStaleKeys
  closeBlocks (← get).column
  let s ← get
  let c :: cs := s.rest | return false
  let isAtEnd := isGap cs.head?
  if s.column = 0 && c = '%' then
    leaveDocument
    emit (← directive)
  else if s.isAtMark then
    leaveDocument
    symbol 3 (if c = '-' then .documentStart else .documentEnd)
  else if c = '[' then openFlow .flowSequenceStart
  else if c = '\x7b' then openFlow .flowMappingStart
  else if c = ']' then closeFlow .flowSequenceEnd
  else if c = '\x7d' then closeFlow .flowMappingEnd
  else if c = ',' then
    dropKey
    allowKey true
    symbol 1 .flowEntry
  else if c = '-' && isAtEnd then blockEntry
  else if c = '?' && (s.inFlow || isAtEnd) then keyMark
  else if c = ':' && (s.inFlow || isAtEnd) then valueMark
  else if c = '*' then
    markKey
    allowKey false
    emit (.alias (← anchorName))
  else if c = '&' then
    markKey
    allowKey false
    emit (.anchor (← anchorName))
  else if c = '!' then
    markKey
    allowKey false
    emit (← tag)
  else if (c = '|' || c = '>') && !s.inFlow then
    dropKey
    allowKey true
    emit (.scalar (← blockText (c = '|') fuel) false)
  else if c = '\'' || c = '"' then scalarToken false (quotedText c fuel)
  else
    guard (startsPlain s.inFlow c cs.head?)
    scalarToken true (plainText fuel)
  return true

def allTokens (limit : Nat) : Nat → Scanner Unit
  | 0 => failure
  | fuel + 1 => do
    if ← token limit then allTokens limit fuel
    else
      closeBlocks (-1)
      dropKey

def tokens? (text : String) : Option (List Token) := do
  guard (text.toList.all isAllowed)
  let limit := text.length + 2
  let (_, s) ← (allTokens limit limit).run { rest := text.toList }
  return s.tokens.toList

end SourceModel.Yaml
