import SourceModel.Calc.Token

/-!
# Concrete syntax trees

The concrete tree holds every token of the source at its leaves. It has no positions of its own:
a position is the number of bytes in front.
-/

namespace SourceModel.Calc

/-- The kinds of inner node. -/
inductive CstKind where
  | program
  | assignment
  | exprStatement
  | templateStatement
  | binary
  | paren
  | nameRef
  | literal
  | templateExpr
  | error
deriving DecidableEq, Repr, Inhabited

def CstKind.name : CstKind → String
  | program => "Program"
  | assignment => "Assignment"
  | exprStatement => "ExprStatement"
  | templateStatement => "TemplateStatement"
  | binary => "BinaryExpr"
  | paren => "ParenExpr"
  | nameRef => "NameRef"
  | literal => "Literal"
  | templateExpr => "TemplateExpr"
  | error => "ErrorNode"

/-- A concrete tree. -/
inductive Cst where
  | token (kind : TokenKind) (text : String)
  | node (kind : CstKind) (children : List Cst)
deriving Repr

namespace Cst

instance : Inhabited Cst := ⟨.node .program []⟩

mutual
/-- Number of bytes that a tree takes. -/
def width : Cst → Nat
  | .token _ text => Text.size text
  | .node _ children => widths children

/-- Number of bytes that several trees take. -/
def widths : List Cst → Nat
  | [] => 0
  | c :: cs => c.width + widths cs
end

mutual
def leaves : Cst → List (TokenKind × String)
  | .token kind text => [(kind, text)]
  | .node _ children => leavesAmong children

/-- The tokens at the leaves of several trees. -/
def leavesAmong : List Cst → List (TokenKind × String)
  | [] => []
  | c :: cs => c.leaves ++ leavesAmong cs
end

def text (c : Cst) : String := String.join (c.leaves.map Prod.snd)

/-- The first token of a kind that stands directly in the list, with its position; the list
starts at `offset`. -/
def findToken? (kind : TokenKind) (offset : Nat) : List Cst → Option (Nat × String)
  | [] => none
  | .token k text :: cs =>
    if k = kind then some (offset, text) else findToken? kind (offset + Text.size text) cs
  | .node k children :: cs => findToken? kind (offset + (Cst.node k children).width) cs

def firstSignificant? : List Cst → Option String
  | [] => none
  | .token k text :: cs => if k.isTrivia then firstSignificant? cs else some text
  | .node _ _ :: cs => firstSignificant? cs

end Cst

def Token.leaf (t : Token) : Cst := .token t.kind t.text

end SourceModel.Calc
