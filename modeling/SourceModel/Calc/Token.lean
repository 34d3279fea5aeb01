import SourceModel.Text.Bytes

/-!
# Tokens of calc

Calc is a small language of assignments and arithmetic in which templates may be embedded. Its
tokens keep everything that is written, so blanks and comments are tokens as well; they are called
trivia.
-/

namespace SourceModel.Calc

inductive TokenKind where
  | blank
  | newline
  | comment
  | ident
  | number
  | string
  | template
  | equals
  | semicolon
  | plus
  | minus
  | star
  | slash
  | openParen
  | closeParen
  | unknown
deriving DecidableEq, Repr, Inhabited

def TokenKind.name : TokenKind → String
  | blank => "Whitespace"
  | newline => "Newline"
  | comment => "Comment"
  | ident => "Ident"
  | number => "Number"
  | string => "String"
  | template => "TemplateChunk"
  | equals => "Eq"
  | semicolon => "Semicolon"
  | plus => "Plus"
  | minus => "Minus"
  | star => "Star"
  | slash => "Slash"
  | openParen => "LParen"
  | closeParen => "RParen"
  | unknown => "Error"

/-- Whether a token of this kind has no meaning for the grammar. -/
def TokenKind.isTrivia : TokenKind → Bool
  | blank | newline | comment => true
  | _ => false

/-- Whether a token of this kind joins two operands. -/
def TokenKind.isOperator : TokenKind → Bool
  | plus | minus | star | slash => true
  | _ => false

/-- A token with the bytes that it takes in the source. -/
structure Token where
  kind : TokenKind
  text : String
  start : Nat
  stop : Nat
deriving DecidableEq, Repr, Inhabited

/-- Whether a token has no meaning for the grammar. -/
def Token.isTrivia (t : Token) : Bool := t.kind.isTrivia

/-- Where a fault of the source comes from: from the form of a token, or from the order of the
tokens. -/
inductive Origin where
  | lexical
  | grammar
deriving DecidableEq, Repr, Inhabited

/-- A fault of the source and the bytes that it is about. -/
structure Diagnostic where
  origin : Origin
  message : String
  start : Nat
  stop : Nat
deriving DecidableEq, Repr, Inhabited

end SourceModel.Calc
