/-!
# Tokens of YAML

The indentation of a document shows in its tokens as starts and ends of blocks. Positions matter for
reading tokens only, so a token has none.
-/

namespace SourceModel.Yaml

inductive Token where
  | version (major minor : Nat)
  | tagHandle (handle : String)
  | documentStart
  | documentEnd
  | blockSequenceStart
  | blockMappingStart
  | blockEnd
  | flowSequenceStart
  | flowSequenceEnd
  | flowMappingStart
  | flowMappingEnd
  | blockEntry
  | flowEntry
  | key
  | value
  | alias (name : String)
  | anchor (name : String)
  | tag (handle : String)
  | scalar (text : String) (isPlain : Bool)
deriving DecidableEq, Repr, Inhabited

/-- Whether a character ends a line. -/
def isBreak (c : Char) : Bool :=
  c = '\n' || c = '\r' || c = '\u0085' || c = '\u2028' || c = '\u2029'

def isBlank (c : Char) : Bool := c = ' ' || c = '\t'

/-- Whether a word ends where this character or the end of the text is next. -/
def isGap (next? : Option Char) : Bool := next?.all fun c => isBlank c || isBreak c

/-- Whether a document may contain a character. -/
def isAllowed (c : Char) : Bool :=
  let n := c.toNat
  n = 9 || n = 10 || n = 13 || (0x20 ≤ n && n ≤ 0x7E) || n = 0x85 || (0xA0 ≤ n && n ≤ 0xFFFD) ||
    0x10000 ≤ n

/-- Whether a character may stand in the name of an anchor, a handle or a directive. -/
def isNameChar (c : Char) : Bool := c.isAlphanum || c = '_' || c = '-'

/-- Whether the text begins with a line that separates documents. -/
def isDocumentMark (mark : String) (cs : List Char) : Bool :=
  mark.toList.isPrefixOf cs && isGap cs[3]?

end SourceModel.Yaml
