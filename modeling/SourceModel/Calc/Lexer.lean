import SourceModel.Calc.Token
import SourceModel.Text.Alphabetic
import SourceModel.Text.Blank
import SourceModel.Text.Numeric

/-!
# Reading tokens

The next token is determined by the first character and takes at least that character; the
characters behind it are read on their own. So tokens lie side by side and lose nothing.
-/

namespace SourceModel.Calc

/-- What is wrong with a token. -/
inductive LexicalFault where
  | unterminatedString
  | unterminatedTemplate
  | unexpected (c : Char)
deriving DecidableEq, Repr

def LexicalFault.message : LexicalFault → String
  | unterminatedString => "unterminated string literal"
  | unterminatedTemplate => "unterminated template chunk"
  | unexpected c => "unexpected character '" ++ String.singleton c ++ "'"

/-- The part of a string literal behind its opening quote, and what follows the literal. The
literal ends at a quote that is not escaped or, unfinished, before the end of the line. -/
def splitString (escaped : Bool) : List Char → List Char × List Char × Bool
  | [] => ([], [], false)
  | c :: cs =>
    if c = '\n' then ([], c :: cs, false)
    else if c = '"' ∧ escaped = false then ([c], cs, true)
    else
      let (inner, rest, closed) := splitString (c == '\\' && !escaped) cs
      (c :: inner, rest, closed)

/-- The part of a template behind its opening mark, and what follows the template. The template
ends at the first closing mark or, unfinished, with the text. -/
def splitTemplate : List Char → List Char × List Char × Bool
  | [] => ([], [], false)
  | '%' :: '}' :: cs => (['%', '}'], cs, true)
  | c :: cs =>
    let (inner, rest, closed) := splitTemplate cs
    (c :: inner, rest, closed)

/-- A token as it is cut off the text: what it takes behind its first character, what follows it,
and what is wrong with it. -/
structure Lexeme where
  kind : TokenKind
  tail : List Char
  rest : List Char
  fault : Option LexicalFault := none
deriving DecidableEq, Repr

/-- A lexeme that goes on while the characters belong to a class. -/
def Lexeme.run (kind : TokenKind) (belongs : Char → Bool) (cs : List Char) : Lexeme :=
  ⟨kind, cs.takeWhile belongs, cs.dropWhile belongs, none⟩

/-- Whether a character may stand inside a name. -/
def isNameChar (c : Char) : Bool := Text.isAlphabetic c || Text.isNumeric c || c == '_'

def isNameStart (c : Char) : Bool := Text.isAlphabetic c || c == '_'

/-- The kind of the token that a single character makes up. -/
def symbol? : Char → Option TokenKind
  | '=' => some .equals
  | ';' => some .semicolon
  | '+' => some .plus
  | '-' => some .minus
  | '*' => some .star
  | '/' => some .slash
  | '(' => some .openParen
  | ')' => some .closeParen
  | _ => none

/-- The lexeme whose first character is `c`. -/
def lexeme (c : Char) (cs : List Char) : Lexeme :=
  if c = '\n' then ⟨.newline, [], cs, none⟩
  else if Text.isBlank c then .run .blank (fun d => Text.isBlank d && d != '\n') cs
  else if c = '#' then .run .comment (· != '\n') cs
  else if c = '"' then
    let (inner, rest, closed) := splitString false cs
    ⟨.string, inner, rest, if closed then none else some .unterminatedString⟩
  else if c = '{' ∧ cs.head? = some '%' then
    let (inner, rest, closed) := splitTemplate (cs.drop 1)
    ⟨.template, cs.take 1 ++ inner, rest, if closed then none else some .unterminatedTemplate⟩
  else if Text.isDecimalDigit c then .run .number (fun d => Text.isDecimalDigit d || d == '.') cs
  else if isNameStart c then .run .ident isNameChar cs
  else
    match symbol? c with
    | some kind => ⟨kind, [], cs, none⟩
    | none => ⟨.unknown, [], cs, some (.unexpected c)⟩

theorem splitString_append (escaped : Bool) (cs : List Char) :
    (splitString escaped cs).1 ++ (splitString escaped cs).2.1 = cs := by
  fun_induction splitString escaped cs <;> simp_all

theorem splitTemplate_append (cs : List Char) :
    (splitTemplate cs).1 ++ (splitTemplate cs).2.1 = cs := by
  fun_induction splitTemplate cs <;> simp_all

def Lexeme.Splits (l : Lexeme) (cs : List Char) : Prop := l.tail ++ l.rest = cs

theorem Lexeme.run_splits (kind : TokenKind) (belongs : Char → Bool) (cs : List Char) :
    (Lexeme.run kind belongs cs).Splits cs := List.takeWhile_append_dropWhile

theorem lexeme_splits (c : Char) (cs : List Char) : (lexeme c cs).Splits cs := by
  unfold lexeme
  split
  · exact rfl
  split
  · exact Lexeme.run_splits ..
  split
  · exact Lexeme.run_splits ..
  split
  · exact splitString_append false cs
  split
  · simp only [Lexeme.Splits, List.append_assoc, splitTemplate_append, List.take_append_drop]
  split
  · exact Lexeme.run_splits ..
  split
  · exact Lexeme.run_splits ..
  split <;> exact rfl

theorem lexeme_append (c : Char) (cs : List Char) :
    (lexeme c cs).tail ++ (lexeme c cs).rest = cs := lexeme_splits c cs

theorem lexeme_rest_length (c : Char) (cs : List Char) :
    (lexeme c cs).rest.length ≤ cs.length := by
  have h := congrArg List.length (lexeme_append c cs)
  rw [List.length_append] at h
  omega

/-- The tokens of a text and what is wrong with them. -/
structure Lexed where
  tokens : List Token := []
  faults : List Diagnostic := []
deriving DecidableEq, Repr

/-- The tokens of a text that starts at `offset`. -/
def lexFrom (offset : Nat) : List Char → Lexed
  | [] => {}
  | c :: cs =>
    let l := lexeme c cs
    let stop := offset + Text.byteCount (c :: l.tail)
    let token : Token := ⟨l.kind, String.ofList (c :: l.tail), offset, stop⟩
    let later := lexFrom stop l.rest
    let faults := l.fault.toList.map fun fault => ⟨.lexical, fault.message, offset, stop⟩
    ⟨token :: later.tokens, faults ++ later.faults⟩
termination_by cs => cs.length
decreasing_by
  have := lexeme_rest_length c cs
  simp only [List.length_cons]
  omega

/-- The tokens of a text, blanks and comments included. -/
def lex (source : String) : Lexed := lexFrom 0 source.toList

end SourceModel.Calc
