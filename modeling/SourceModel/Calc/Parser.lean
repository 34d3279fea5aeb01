import SourceModel.Calc.Cst
import SourceModel.Calc.Lexer

/-!
# Parsing

The grammar is

```text
program    = statement*
statement  = assignment | template ";"? | expr ";"
assignment = IDENT "=" expr ";"
expr       = term (("+" | "-") term)*
term       = factor (("*" | "/") factor)*
factor     = NUMBER | STRING | IDENT | TEMPLATE | "(" expr ")"
```

Every text has a tree. Where the tokens do not fit the grammar, the parser reports a fault and puts
an error node into the tree: an empty one where something is missing, or one around the token that
has no place. Error nodes and faults come in the same order.

A parser takes a cursor and never leaves more tokens than it was given, which is why the recursion
ends: an operand is read behind an operator or an opening parenthesis.
-/

namespace SourceModel.Calc

/-- The tokens that are still to be read, and where the last significant token before them ends. -/
structure Cursor where
  rest : List Token
  lastStop : Nat := 0
deriving DecidableEq, Repr

namespace Cursor

def peek? (c : Cursor) : Option TokenKind := (c.rest.find? (!·.isTrivia)).map Token.kind

def peekSecond? (c : Cursor) : Option TokenKind :=
  (c.rest.filter (!·.isTrivia))[1]?.map Token.kind

def trivia (c : Cursor) : List Cst := (c.rest.takeWhile Token.isTrivia).map Token.leaf

def skipTrivia (c : Cursor) : Cursor := { c with rest := c.rest.dropWhile Token.isTrivia }

/-- The leaves of the trivia that come next and of the token behind them. -/
def leaves (c : Cursor) : List Cst := c.trivia ++ c.skipTrivia.rest.head?.toList.map Token.leaf

def next (c : Cursor) : Cursor :=
  match c.skipTrivia.rest with
  | [] => c.skipTrivia
  | t :: rest => ⟨rest, t.stop⟩

theorem skipTrivia_suffix (c : Cursor) : c.skipTrivia.rest <:+ c.rest := List.dropWhile_suffix _

theorem next_suffix (c : Cursor) : c.next.rest <:+ c.rest := by
  have h := c.skipTrivia_suffix
  unfold next
  split
  · exact h
  · rename_i t rest e
    rw [e] at h
    exact (List.suffix_cons t rest).trans h

theorem dropWhile_isTrivia_eq_nil {ts : List Token} (h : ts.dropWhile Token.isTrivia = []) :
    ts.find? (!·.isTrivia) = none := by
  induction ts with
  | nil => rfl
  | cons t ts ih => by_cases ht : t.isTrivia = true <;> simp_all

theorem next_length_lt {c : Cursor} (h : c.peek? ≠ none) : c.next.rest.length < c.rest.length := by
  have hs := c.skipTrivia_suffix.length_le
  unfold next
  split
  · rename_i e
    exact absurd (by simp [peek?, dropWhile_isTrivia_eq_nil e]) h
  · rename_i e
    rw [e] at hs
    exact hs

@[simp] theorem peek?_skipTrivia (c : Cursor) : c.skipTrivia.peek? = c.peek? := by
  obtain ⟨rest, stop⟩ := c
  simp only [peek?, skipTrivia]
  induction rest with
  | nil => rfl
  | cons t ts ih =>
    by_cases h : t.isTrivia = true
    · simp [h, ih]
    · simp [h]

end Cursor

/-- What a parser makes of the tokens at a cursor. It leaves a final part of them. -/
structure Parsed (c : Cursor) where
  items : List Cst
  faults : List Diagnostic := []
  after : Cursor
  suffix : after.rest <:+ c.rest

namespace Parsed

/-- Reports that something is missing, by an empty error node at the cursor. -/
def missing (message : String) (c : Cursor) : Parsed c where
  items := [.node .error []]
  faults := [⟨.grammar, message, c.lastStop, c.lastStop⟩]
  after := c
  suffix := List.suffix_rfl

/-- Reports the next token, by an error node around it. The text of an unknown token is shown. -/
def unexpected (message : String) (c : Cursor) : Parsed c :=
  match c.skipTrivia.rest.head? with
  | none =>
    { items := c.trivia ++ [.node .error []]
      faults := [⟨.grammar, message, c.lastStop, c.lastStop⟩]
      after := c.skipTrivia
      suffix := c.skipTrivia_suffix }
  | some t =>
    let shown := if t.kind = .unknown then s!"{message} '{t.text}'" else message
    { items := c.trivia ++ [.node .error [t.leaf]]
      faults := [⟨.grammar, shown, t.start, t.stop⟩]
      after := c.next
      suffix := c.next_suffix }

/-- Takes the next token into a node of its own. -/
def single (kind : CstKind) (c : Cursor) : Parsed c where
  items := c.trivia ++ [.node kind (c.skipTrivia.rest.head?.toList.map Token.leaf)]
  after := c.next
  suffix := c.next_suffix

/-- Takes the next token, which has to be of the given kind. -/
def expect (kind : TokenKind) (message : String) (c : Cursor) : Parsed c :=
  if c.peek? = some kind then { items := c.leaves, after := c.next, suffix := c.next_suffix }
  else missing message c

end Parsed

def joinsTerms (kind : TokenKind) : Bool := kind == .plus || kind == .minus

def joinsFactors (kind : TokenKind) : Bool := kind == .star || kind == .slash

theorem Cursor.peek?_ne_none {c : Cursor} {belongs : TokenKind → Bool}
    (h : c.peek?.any belongs = true) : c.peek? ≠ none := by
  intro e
  simp [e] at h

theorem lex_of_le {a b r s : Nat} (h : a ≤ b) (k : r < s) :
    Prod.Lex (· < ·) (· < ·) (a, r) (b, s) := by
  rcases Nat.lt_or_eq_of_le h with h | rfl
  · exact Prod.Lex.left _ _ h
  · exact Prod.Lex.right _ k

mutual
def factor (c : Cursor) : Parsed c :=
  match _h : c.peek? with
  | some .number | some .string => .single .literal c
  | some .ident => .single .nameRef c
  | some .template => .single .templateExpr c
  | some .openParen =>
    let inner := expr c.next
    let close := Parsed.expect .closeParen "expected ')'" inner.after
    { items := c.trivia ++
        [.node .paren (c.skipTrivia.leaves ++ inner.items ++ close.items)]
      faults := inner.faults ++ close.faults
      after := close.after
      suffix := close.suffix.trans (inner.suffix.trans c.next_suffix) }
  | some .unknown => .unexpected "unexpected character" c
  | some .semicolon | some .closeParen | none => .missing "expected expression" c
  | some _ => .unexpected "expected expression" c
termination_by (c.rest.length, 0)
decreasing_by
  exact Prod.Lex.left _ _ (Cursor.next_length_lt (by simp [_h]))

def term (c : Cursor) : Parsed c :=
  let first := factor c.skipTrivia
  let all := termRest first.items first.after
  { items := c.trivia ++ all.items
    faults := first.faults ++ all.faults
    after := all.after
    suffix := all.suffix.trans (first.suffix.trans c.skipTrivia_suffix) }
termination_by (c.rest.length, 1)
decreasing_by
  · exact lex_of_le c.skipTrivia_suffix.length_le (by decide)
  · exact lex_of_le ((Parsed.suffix _).trans c.skipTrivia_suffix).length_le (by decide)

/-- Parses what follows the operand `lhs` of a term: it becomes the left operand of the operator
that comes next. -/
def termRest (lhs : List Cst) (c : Cursor) : Parsed c :=
  if _h : c.peek?.any joinsFactors then
    let rhs := factor c.next
    let all := termRest [.node .binary (lhs ++ c.leaves ++ rhs.items)] rhs.after
    { items := all.items
      faults := rhs.faults ++ all.faults
      after := all.after
      suffix := all.suffix.trans (rhs.suffix.trans c.next_suffix) }
  else { items := lhs, after := c, suffix := List.suffix_rfl }
termination_by (c.rest.length, 0)
decreasing_by
  · exact Prod.Lex.left _ _ (Cursor.next_length_lt (Cursor.peek?_ne_none _h))
  · exact Prod.Lex.left _ _
      (Nat.lt_of_le_of_lt (Parsed.suffix _).length_le
        (Cursor.next_length_lt (Cursor.peek?_ne_none _h)))

def expr (c : Cursor) : Parsed c :=
  let first := term c.skipTrivia
  let all := exprRest first.items first.after
  { items := c.trivia ++ all.items
    faults := first.faults ++ all.faults
    after := all.after
    suffix := all.suffix.trans (first.suffix.trans c.skipTrivia_suffix) }
termination_by (c.rest.length, 3)
decreasing_by
  · exact lex_of_le c.skipTrivia_suffix.length_le (by decide)
  · exact lex_of_le ((Parsed.suffix _).trans c.skipTrivia_suffix).length_le (by decide)

/-- Parses what follows the operand `lhs` of an expression. -/
def exprRest (lhs : List Cst) (c : Cursor) : Parsed c :=
  if _h : c.peek?.any joinsTerms then
    let rhs := term c.next
    let all := exprRest [.node .binary (lhs ++ c.leaves ++ rhs.items)] rhs.after
    { items := all.items
      faults := rhs.faults ++ all.faults
      after := all.after
      suffix := all.suffix.trans (rhs.suffix.trans c.next_suffix) }
  else { items := lhs, after := c, suffix := List.suffix_rfl }
termination_by (c.rest.length, 2)
decreasing_by
  · exact Prod.Lex.left _ _ (Cursor.next_length_lt (Cursor.peek?_ne_none _h))
  · exact Prod.Lex.left _ _
      (Nat.lt_of_le_of_lt (Parsed.suffix _).length_le
        (Cursor.next_length_lt (Cursor.peek?_ne_none _h)))
end

/-- Parses an expression and the semicolon behind it. -/
def closedExpr (c : Cursor) : Parsed c :=
  let inner := expr c
  let close := Parsed.expect .semicolon "expected ';'" inner.after
  { items := inner.items ++ close.items
    faults := inner.faults ++ close.faults
    after := close.after
    suffix := close.suffix.trans inner.suffix }

/-- Parses an assignment, of which the name and the equals sign are known to come next. -/
def assignment (c : Cursor) : Parsed c :=
  let value := closedExpr c.next.next
  { items := [.node .assignment (c.leaves ++ c.next.leaves ++ value.items)]
    faults := value.faults
    after := value.after
    suffix := value.suffix.trans (c.next.next_suffix.trans c.next_suffix) }

/-- Parses a template that stands as a statement, with the semicolon behind it if there is one. -/
def templateStatement (c : Cursor) : Parsed c :=
  if c.next.peek? = some .semicolon then
    { items := [.node .templateStatement (c.leaves ++ c.next.leaves)]
      after := c.next.next
      suffix := c.next.next_suffix.trans c.next_suffix }
  else
    { items := [.node .templateStatement c.leaves]
      after := c.next
      suffix := c.next_suffix }

def emptyStatement (c : Cursor) : Parsed c :=
  let lack := Parsed.missing "expected expression" c
  { items := [.node .exprStatement (lack.items ++ c.leaves)]
    faults := lack.faults
    after := c.next
    suffix := c.next_suffix }

def exprStatement (c : Cursor) : Parsed c :=
  let inner := closedExpr c
  { items := [.node .exprStatement inner.items]
    faults := inner.faults
    after := inner.after
    suffix := inner.suffix }

/-- Parses a statement. What kind of statement it is shows in the next two tokens. -/
def statement (c : Cursor) : Parsed c :=
  match c.peek?, c.peekSecond? with
  | some .ident, some .equals => assignment c
  | some .template, second =>
    if second.any TokenKind.isOperator then exprStatement c else templateStatement c
  | some .semicolon, _ => emptyStatement c
  | _, _ => exprStatement c

/-- Parses a statement, and puts the next token into an error node if the statement has taken
none. -/
def statementOrToken (c : Cursor) : Parsed c :=
  let s := statement c
  if s.after.rest.length < c.rest.length then s
  else
    let u := Parsed.unexpected "unexpected token" s.after
    { items := s.items ++ u.items
      faults := s.faults ++ u.faults
      after := u.after
      suffix := u.suffix.trans s.suffix }

theorem unexpected_length_lt (message : String) {c : Cursor} (h : c.peek? ≠ none) :
    (Parsed.unexpected message c).after.rest.length < c.rest.length := by
  unfold Parsed.unexpected
  split
  · rename_i e
    exact absurd (by
      simp [Cursor.peek?, Cursor.dropWhile_isTrivia_eq_nil (List.head?_eq_none_iff.1 e)]) h
  · exact Cursor.next_length_lt h

theorem statementOrToken_length_lt {c : Cursor} (h : c.peek? ≠ none) :
    (statementOrToken c).after.rest.length < c.rest.length := by
  unfold statementOrToken
  simp only
  split
  · assumption
  · rename_i hs
    have e : (statement c).after.rest = c.rest :=
      (statement c).suffix.eq_of_length_le (Nat.le_of_not_lt hs)
    have hp : (statement c).after.peek? ≠ none := by simpa [Cursor.peek?, e] using h
    have hl := unexpected_length_lt "unexpected token" hp
    rw [e] at hl
    exact hl

/-- Parses statements up to the end of the tokens. -/
def statements (c : Cursor) : Parsed c :=
  if _h : c.peek? = none then
    { items := c.trivia, after := c.skipTrivia, suffix := c.skipTrivia_suffix }
  else
    let s := statementOrToken c.skipTrivia
    let later := statements s.after
    { items := c.trivia ++ s.items ++ later.items
      faults := s.faults ++ later.faults
      after := later.after
      suffix := later.suffix.trans (s.suffix.trans c.skipTrivia_suffix) }
termination_by c.rest.length
decreasing_by
  exact Nat.lt_of_lt_of_le (statementOrToken_length_lt (by simpa using _h))
    c.skipTrivia_suffix.length_le

/-- The concrete tree of a text and its faults in source order. -/
structure Parse where
  tree : Cst
  faults : List Diagnostic
deriving Repr

/-- Faults of the grammar, which have an error node each. -/
def Parse.grammarFaults (p : Parse) : List Diagnostic := p.faults.filter (·.origin = .grammar)

def Parse.hasFaults (p : Parse) : Bool := !p.faults.isEmpty

/-- Parses a text. An unknown token is reported where the parser meets it, and not once more as a
lexical fault. -/
def parse (source : String) : Parse :=
  let lexed := lex source
  let program := statements ⟨lexed.tokens, 0⟩
  let lexical := lexed.faults.filter fun fault =>
    !lexed.tokens.any fun t =>
      t.kind = .unknown && t.start == fault.start && t.stop == fault.stop
  { tree := .node .program program.items
    faults := (lexical ++ program.faults).mergeSort fun p q => p.start ≤ q.start }

end SourceModel.Calc
