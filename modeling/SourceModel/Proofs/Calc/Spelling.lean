import SourceModel.Proofs.Calc.Brackets
import SourceModel.Proofs.Calc.Grouping

/-!
# Trees in order

Read from the left to the right, an operator between its operands and everything with its
punctuation, the tree of a statement gives back the significant tokens of the statement, if the text
breaks no rule of the grammar.
-/

namespace SourceModel.Calc

open Draft (trees)

/-! ## Reading a tree in order -/

def TokenKind.ofNode? (kind : SyntaxKind) : Option TokenKind :=
  [.ident, .number, .string, .template].find? fun k => k.nodeKinds.contains kind

def TokenKind.ofOperator? (text : String) : Option TokenKind :=
  [.plus, .minus, .star, .slash].find? fun k => k.mark?.map (String.ofList [·]) = some text

def tokenOf (kind : Option TokenKind) (text : Option String) : List (TokenKind × String) :=
  (kind.bind fun k => text.map fun s => (k, s)).toList

/-- The tokens that a node reads in order, where its children read `parts`. -/
def inOrder (kind : SyntaxKind) (text : Option String) (parts : List (List (TokenKind × String))) :
    List (TokenKind × String) :=
  if kind = Kind.binary then
    List.intercalate (tokenOf (text.bind TokenKind.ofOperator?) text) parts
  else if kind = Kind.paren then (.openParen, "(") :: (parts.flatten ++ [(.closeParen, ")")])
  else if kind = Kind.assignment then
    List.intercalate [(.equals, "=")] parts ++ [(.semicolon, ";")]
  else if kind = Kind.exprStatement then parts.flatten ++ [(.semicolon, ";")]
  else tokenOf (TokenKind.ofNode? kind) text ++ parts.flatten

mutual
/-- The tokens that a tree reads in order. -/
def spelling : Tree → List (TokenKind × String)
  | .node data children _ => inOrder data.kind data.text (spellings children)

def spellings : List Tree → List (List (TokenKind × String))
  | [] => []
  | t :: ts => spelling t :: spellings ts
end

section Spelling

variable {t l r n e : Tree} {kind : TokenKind} {text : String}

private theorem spellings_eq_map (ts : List Tree) : spellings ts = ts.map spelling := by
  induction ts with
  | nil => rfl
  | cons t ts ih => rw [spellings, ih, List.map_cons]

private theorem spelling_eq (t : Tree) :
    spelling t = inOrder t.kind t.text (t.children.map spelling) := by
  cases t
  rw [spelling, spellings_eq_map]
  rfl

theorem spelling_binary (hk : t.kind = Kind.binary) (ht : t.text = some text)
    (ho : TokenKind.ofOperator? text = some kind) (hc : t.children = [l, r]) :
    spelling t = spelling l ++ (kind, text) :: spelling r := by
  rw [spelling_eq, hk, ht, hc, inOrder, if_pos rfl, Option.bind_some, ho]
  simp [tokenOf, List.intercalate]

theorem spelling_paren (hk : t.kind = Kind.paren) (hc : t.children = [e]) :
    spelling t = (.openParen, "(") :: (spelling e ++ [(.closeParen, ")")]) := by
  have hne : Kind.paren ≠ Kind.binary := by decide
  rw [spelling_eq, hk, hc, inOrder, if_neg hne, if_pos rfl]
  simp

theorem spelling_assignment (hk : t.kind = Kind.assignment) (hc : t.children = [n, e]) :
    spelling t = spelling n ++ (.equals, "=") :: (spelling e ++ [(.semicolon, ";")]) := by
  have hne : Kind.assignment ≠ Kind.binary ∧ Kind.assignment ≠ Kind.paren := by decide
  rw [spelling_eq, hk, hc, inOrder, if_neg hne.1, if_neg hne.2, if_pos rfl]
  simp [List.intercalate]

theorem spelling_exprStatement (hk : t.kind = Kind.exprStatement) (hc : t.children = [e]) :
    spelling t = spelling e ++ [(.semicolon, ";")] := by
  have hne : Kind.exprStatement ≠ Kind.binary ∧ Kind.exprStatement ≠ Kind.paren ∧
      Kind.exprStatement ≠ Kind.assignment := by decide
  rw [spelling_eq, hk, hc, inOrder, if_neg hne.1, if_neg hne.2.1, if_neg hne.2.2, if_pos rfl]
  simp

theorem spelling_leaf (hk : t.kind ∈ kind.nodeKinds) (ht : t.text = some text)
    (hc : t.children = []) : spelling t = [(kind, text)] := by
  have hkinds : ∀ k ∈ kind.nodeKinds, TokenKind.ofNode? k = some kind ∧ k ≠ Kind.binary ∧
      k ≠ Kind.paren ∧ k ≠ Kind.assignment ∧ k ≠ Kind.exprStatement := by
    cases kind <;> decide
  obtain ⟨hof, hb, hp, ha, he⟩ := hkinds _ hk
  rw [spelling_eq, ht, hc, inOrder, if_neg hb, if_neg hp, if_neg ha, if_neg he, hof]
  rfl

end Spelling

/-! ## Trees of expressions and statements -/

/-- Whether a tree is made as an expression is, error nodes excluded. -/
inductive IsExpression : Tree → Prop where
  | value {t : Tree} {text : String} (kind : isValueKind t.kind = true)
      (hasText : t.text = some text) (children : t.children = []) : IsExpression t
  | paren {t e : Tree} (kind : t.kind = Kind.paren) (plain : t.text = none)
      (children : t.children = [e]) : IsExpression e → IsExpression t
  | binary {t l r : Tree} (kind : t.kind = Kind.binary) (children : t.children = [l, r]) :
      IsExpression l → IsExpression r → IsExpression t

/-- Whether a tree is made as an assignment or a statement that is an expression is. -/
inductive IsClause : Tree → Prop where
  | assignment {t n e : Tree} {name : String} (kind : t.kind = Kind.assignment)
      (plain : t.text = none) (children : t.children = [n, e]) (kind' : n.kind = Kind.name)
      (hasText : n.text = some name) (children' : n.children = []) :
      IsExpression e → IsClause t
  | exprStatement {t e : Tree} (kind : t.kind = Kind.exprStatement) (plain : t.text = none)
      (children : t.children = [e]) : IsExpression e → IsClause t

/-! ## Readings -/

def significantTokens (ts : List Token) : List (TokenKind × String) :=
  (ts.filter (!·.isTrivia)).map Token.content

section Significant

variable {blanks ts us : List Token} {t : Token}

private theorem significantTokens_append (ts us : List Token) :
    significantTokens (ts ++ us) = significantTokens ts ++ significantTokens us := by
  rw [significantTokens, List.filter_append, List.map_append, significantTokens, significantTokens]

private theorem significantTokens_trivia (h : ∀ t ∈ ts, t.isTrivia) :
    significantTokens ts = [] := by
  simpa [significantTokens, List.filter_eq_nil_iff] using h

private theorem significantTokens_cons (ht : ¬ t.isTrivia) (ts : List Token) :
    significantTokens (t :: ts) = t.content :: significantTokens ts := by
  simp [significantTokens, ht]

private theorem significantTokens_next (hb : ∀ b ∈ blanks, b.isTrivia) (ht : ¬ t.isTrivia)
    (ts : List Token) :
    significantTokens (blanks ++ t :: ts) = t.content :: significantTokens ts := by
  rw [significantTokens_append, significantTokens_trivia hb, significantTokens_cons ht,
    List.nil_append]

private theorem content_of_mark? {kind : TokenKind} {d : Char} (hs : t.Spelled) (hk : t.kind = kind)
    (hd : kind.mark? = some d) : t.content = (kind, String.ofList [d]) := by
  subst hk
  rw [Token.content, hs d hd]

private theorem Reads.closing_spelled {kind : TokenKind} {message : String} {stop : Nat}
    {is : List Cst} {d : Char} (h : Reads (.closing kind message) stop ts is [])
    (hs : ∀ t ∈ ts, t.Spelled) (hd : kind.mark? = some d) :
    significantTokens ts = [(kind, String.ofList [d])] ∧ ∀ lo, draftsAmong lo is = [] := by
  obtain ⟨blanks, t, rfl, hb, hk, rfl⟩ := h.closing_found rfl rfl
  have hsignificant : kind.isTrivia = false := by cases kind <;> first | rfl | cases hd
  refine ⟨?_, fun lo => draftsAmong_leaves lo _⟩
  rw [significantTokens_next hb (significant_of_kind hk hsignificant),
    content_of_mark? (hs t (by simp)) hk hd]
  rfl

end Significant

/-- Whether a tree is an expression that reads the significant ones among some tokens. -/
structure Spells (ts : List Token) (t : Tree) : Prop where
  expression : IsExpression t
  spelling_eq : spelling t = significantTokens ts

def Phrase.isOperand : Phrase → Bool
  | factor | term | expr => true
  | _ => false

private theorem Phrase.isOperand_operand (p : Phrase) : p.operand.isOperand := by
  cases p <;> rfl

section Readings

variable {p : Phrase} {blanks ts us : List Token} {t o : Token} {e l r u : Tree}

private theorem Spells.behind (hb : ∀ b ∈ blanks, b.isTrivia) (h : Spells ts u) :
    Spells (blanks ++ ts) u := by
  refine ⟨h.expression, ?_⟩
  rw [significantTokens_append, significantTokens_trivia hb]
  exact h.spelling_eq

private theorem IsValueOf.spells (h : IsValueOf t u) (ht : ¬ t.isTrivia) : Spells [t] u := by
  refine ⟨.value h.value h.text_eq h.children_eq, ?_⟩
  rw [spelling_leaf h.kind_mem h.text_eq h.children_eq, significantTokens_cons ht]
  rfl

private theorem ofOperator?_of_joins (hs : o.Spelled) (hj : p.joins o.kind) :
    TokenKind.ofOperator? o.text = some o.kind := by
  have hkinds : ∀ kind : TokenKind, p.joins kind → ∃ d, kind.mark? = some d ∧
      TokenKind.ofOperator? (String.ofList [d]) = some kind := by
    intro kind hj
    cases p <;> cases kind <;> first | exact ⟨_, rfl, rfl⟩ | cases hj
  obtain ⟨d, hmark, hof⟩ := hkinds _ hj
  rw [hs d hmark, hof]

private theorem Spells.join (hs : o.Spelled) (hj : p.joins o.kind) (hb : ∀ b ∈ blanks, b.isTrivia)
    (hl : Spells ts l) (hr : Spells us r) (hk : u.kind = Kind.binary) (ht : u.text = some o.text)
    (hc : u.children = [l, r]) : Spells (ts ++ (blanks ++ o :: us)) u := by
  have ho : ¬ o.isTrivia := by simp [Token.isTrivia, isTrivia_of_joins hj]
  refine ⟨.binary hk hc hl.expression hr.expression, ?_⟩
  rw [spelling_binary hk ht (ofOperator?_of_joins hs hj) hc, significantTokens_append,
    significantTokens_next hb ho, hl.spelling_eq, hr.spelling_eq]
  rfl

private theorem Spells.paren (hs : o.Spelled) (ho : o.kind = .openParen) (he : Spells ts e)
    (hus : significantTokens us = [(.closeParen, ")")]) (hk : u.kind = Kind.paren)
    (ht : u.text = none) (hc : u.children = [e]) : Spells (o :: (ts ++ us)) u := by
  refine ⟨.paren hk ht hc he.expression, ?_⟩
  rw [spelling_paren hk hc, significantTokens_cons (significant_of_kind ho rfl),
    content_of_mark? hs ho rfl, significantTokens_append, hus, he.spelling_eq]

/-- Without faults an operand is one expression, which reads the significant tokens. -/
theorem Reads.spells {stop : Nat} {is : List Cst} {fs : List Diagnostic} (h : Reads p stop ts is fs)
    (hp : p.isOperand) (hs : ∀ t ∈ ts, t.Spelled) (hf : fs = []) : IsOperand (Spells ts) is := by
  induction h with
  | skip blank _ ih =>
    have hinner := ih hp (fun t ht => hs t (List.mem_append_right _ ht)) hf
    exact (hinner.behind blank).imp fun u hu => hu.behind blank
  | literal kind =>
    refine (isOperand_literal kind).imp fun u hu => hu.spells ?_
    rcases kind with kind | kind <;> exact significant_of_kind kind rfl
  | nameRef kind =>
    exact (isOperand_nameRef kind).imp fun u hu => hu.spells (significant_of_kind kind rfl)
  | template kind =>
    exact (isOperand_templateExpr kind).imp fun u hu => hu.spells (significant_of_kind kind rfl)
  | @paren _ o ts us is js _ _ kind _ hc ih _ =>
    obtain ⟨rfl, rfl⟩ := List.append_eq_nil_iff.1 hf
    have hinner := ih rfl (fun t ht => hs t (by simp [ht])) rfl
    obtain ⟨hus, hjs⟩ := hc.closing_spelled (fun t ht => hs t (by simp [ht])) rfl
    refine .branch fun lo => ⟨_, _, rfl, fun u hk ht hchildren => ?_⟩
    obtain ⟨e, he, hspells⟩ := hinner.single (lo + o.leaf.width)
    refine hspells.paren (hs o List.mem_cons_self) kind hus hk ht (hchildren.trans ?_)
    rw [draftsAmong, draftsAmong_append, hjs, List.append_nil]
    exact he
  | lift chain _ ih => exact ih (Phrase.isOperand_operand _) hs hf
  | @join p _ _ _ _ o _ _ _ _ blank joins _ _ ih ih' =>
    obtain ⟨rfl, rfl⟩ := List.append_eq_nil_iff.1 hf
    have hl := ih hp (fun t ht => hs t (by simp [ht])) rfl
    have hr := ih' p.isOperand_operand (fun t ht => hs t (by simp [ht])) rfl
    have ho : ¬ o.isTrivia := by simp [Token.isTrivia, isTrivia_of_joins joins]
    exact hl.binary hr blank ho fun u l r hl hr hk ht hc =>
      hl.join (hs o (by simp)) joins blank hr hk ht hc
  | lacking | misplaced => cases hf
  | _ => cases hp

end Readings

/-! ## Statements among tokens -/

def tokensIn (r : Region) (ts : List Token) : List Token :=
  ts.filter fun t => r.offset ≤ t.start ∧ t.stop ≤ r.stop

/-- Whether a tree is a statement with the significant tokens that lie within it. -/
structure SpellsOwn (ts : List Token) (t : Tree) : Prop where
  clause : IsClause t
  spelling_eq : spelling t = significantTokens (tokensIn t.region ts)

section Within

variable {lo mid hi : Nat} {r : Region} {ts us : List Token} {t : Tree} {c : Cst} {cs ds : List Cst}

private theorem tokensIn_append (r : Region) (ts us : List Token) :
    tokensIn r (ts ++ us) = tokensIn r ts ++ tokensIn r us := List.filter_append ts us

private theorem tokensIn_before (h : Laid lo hi ts) (hr : r.stop ≤ lo) : tokensIn r ts = [] := by
  refine List.filter_eq_nil_iff.2 fun t ht hin => ?_
  have hmem := h.tiles.mem ht
  have hin := of_decide_eq_true hin
  omega

private theorem tokensIn_behind (h : Laid lo hi ts) (hr : hi ≤ r.offset) : tokensIn r ts = [] := by
  refine List.filter_eq_nil_iff.2 fun t ht hin => ?_
  have hmem := h.tiles.mem ht
  have hin := of_decide_eq_true hin
  omega

/-- The statements that are made of some items have the tokens that lie within them. Template blocks
are left aside. -/
def StatesOwn (ts : List Token) (cs : List Cst) : Prop :=
  ∀ lo hi, Laid lo hi ts → ∀ t ∈ trees (draftsAmong lo cs), t.kind = Kind.templateBlock ∨
    lo ≤ t.region.offset ∧ t.region.stop ≤ hi ∧ SpellsOwn ts t

namespace StatesOwn

private theorem leaves (ts : List Token) : StatesOwn ts (ts.map Token.leaf) := by
  intro lo hi _
  rw [draftsAmong_leaves]
  exact List.forall_mem_nil _

private theorem append (h : StatesOwn ts cs) (h' : StatesOwn us ds)
    (hw : Cst.widths cs = Cst.widths (ts.map Token.leaf)) : StatesOwn (ts ++ us) (cs ++ ds) := by
  intro lo hi hlaid
  obtain ⟨mid, hts, hus, hmid⟩ := hlaid.split
  have hlo := hts.tiles.le
  have hhi := hus.tiles.le
  rw [draftsAmong_append, Draft.trees_append, hw, hmid]
  refine List.forall_mem_append.2 ⟨fun t ht => ?_, fun t ht => ?_⟩
  · refine (h lo mid hts t ht).imp_right fun ⟨hstart, hstop, hclause, hspelling⟩ => ?_
    refine ⟨hstart, by omega, hclause, ?_⟩
    rw [tokensIn_append, tokensIn_before hus hstop, List.append_nil]
    exact hspelling
  · refine (h' mid hi hus t ht).imp_right fun ⟨hstart, hstop, hclause, hspelling⟩ => ?_
    refine ⟨by omega, hstop, hclause, ?_⟩
    rw [tokensIn_append, tokensIn_behind hts hstart, List.nil_append]
    exact hspelling

private theorem templateStatement (ts : List Token) (cs : List Cst) :
    StatesOwn ts [.node .templateStatement cs] := by
  intro lo hi _ t ht
  rw [draftsAmong, draftsAmong, List.append_nil] at ht
  exact .inl (leaf_of_mem_chunkDrafts ht).1

private theorem single
    (hd : ∀ lo, ∃ t : Tree, trees (draftsAmong lo [c]) = [t] ∧ t.region = place lo c ∧
      IsClause t ∧ spelling t = significantTokens ts)
    (hc : Cst.leavesAmong [c] = ts.map Token.content) (hne : significantTokens ts ≠ []) :
    StatesOwn ts [c] := by
  intro lo hi hlaid
  obtain ⟨t, ht, hregion, hclause, hspelling⟩ := hd lo
  have hleaves : c.leaves = ts.map Token.content := by simpa [Cst.leavesAmong] using hc
  have hcovers := fun u hu hs => @place_covers lo hi c u ts hlaid hleaves hu hs
  obtain ⟨_, hmem⟩ := List.exists_mem_of_ne_nil _ hne
  obtain ⟨u, hu, -⟩ := List.mem_map.1 hmem
  obtain ⟨hu, hs⟩ := List.mem_filter.1 hu
  obtain ⟨hlo, -, -, hhi⟩ := hcovers u hu (by simpa using hs)
  rw [ht]
  refine List.forall_mem_singleton.2 (.inr ⟨hregion ▸ hlo, hregion ▸ hhi, hclause, ?_⟩)
  rw [hspelling, hregion, significantTokens, significantTokens, tokensIn, List.filter_filter]
  congr 1
  refine List.filter_congr fun u hu => ?_
  cases hs : u.isTrivia with
  | true => simp
  | false =>
    obtain ⟨-, hstart, hstop, -⟩ := hcovers u hu (by simp [hs])
    simp [hstart, hstop]

end StatesOwn

end Within

section Statements

variable {stop : Nat} {ts us blanks later : List Token} {is js : List Cst} {name eq : Token}

private theorem statesOwn_value (hv : Reads .expr stop ts is [])
    (hc : Reads (.closing .semicolon "expected ';'") (lastStop stop ts) us js [])
    (hs : ∀ t ∈ ts ++ us, t.Spelled) : StatesOwn (ts ++ us) [.node .exprStatement (is ++ js)] := by
  have hvalue := hv.spells rfl (fun t ht => hs t (List.mem_append_left _ ht)) rfl
  obtain ⟨hus, hjs⟩ := hc.closing_spelled (fun t ht => hs t (List.mem_append_right _ ht)) rfl
  have htokens : significantTokens (ts ++ us) = significantTokens ts ++ [(.semicolon, ";")] := by
    rw [significantTokens_append, hus]
  refine .single (fun lo => ?_) (Reads.value hv hc).leavesAmong_eq (by simp [htokens])
  obtain ⟨e, he, hspells⟩ := hvalue.single lo
  obtain ⟨t, ht, hk, hregion, htext, hc⟩ := exists_tree_branch
    (rfl : drafts lo (.node .exprStatement (is ++ js)) = [_])
  rw [draftsAmong_append, hjs, List.append_nil, he] at hc
  refine ⟨t, ht, hregion, .exprStatement hk htext hc hspells.expression, ?_⟩
  rw [spelling_exprStatement hk hc, hspells.spelling_eq, htokens]

private theorem statesOwn_assignment (hb : ∀ b ∈ blanks, b.isTrivia) (hl : ∀ b ∈ later, b.isTrivia)
    (hname : name.kind = .ident) (heq : eq.kind = .equals) (hv : Reads .expr eq.stop ts is [])
    (hc : Reads (.closing .semicolon "expected ';'") (lastStop eq.stop ts) us js [])
    (hs : ∀ t ∈ blanks ++ name :: (later ++ eq :: (ts ++ us)), t.Spelled) :
    StatesOwn (blanks ++ name :: (later ++ eq :: (ts ++ us)))
      [.node .assignment ((blanks ++ [name]).map Token.leaf ++ (later ++ [eq]).map Token.leaf ++
        (is ++ js))] := by
  have hvalue := hv.spells rfl (fun t ht => hs t (by simp [ht])) rfl
  obtain ⟨hus, hjs⟩ := hc.closing_spelled (fun t ht => hs t (by simp [ht])) rfl
  have htokens : significantTokens (blanks ++ name :: (later ++ eq :: (ts ++ us))) =
      (.ident, name.text) :: (.equals, "=") :: (significantTokens ts ++ [(.semicolon, ";")]) := by
    rw [significantTokens_next hb (significant_of_kind hname rfl),
      significantTokens_next hl (significant_of_kind heq rfl), significantTokens_append, hus,
      content_of_mark? (hs eq (by simp)) heq rfl, Token.content, hname]
  have hread : Reads .statement 0 _ _ _ := .assignment hb hl hname heq hv hc
  refine .single (fun lo => ?_) hread.leavesAmong_eq (by simp [htokens])
  obtain ⟨e, he, hspells⟩ := hvalue.single (lo +
    Cst.widths ((blanks ++ [name]).map Token.leaf ++ (later ++ [eq]).map Token.leaf))
  have hfind : Cst.findToken? .ident lo ((blanks ++ [name]).map Token.leaf ++
      (later ++ [eq]).map Token.leaf ++ (is ++ js)) =
        some (lo + Cst.widths (blanks.map Token.leaf), name.text) := by
    rw [← @findToken?_startsWith .ident name.text blanks rfl hb lo
      ((later ++ [eq]).map Token.leaf ++ (is ++ js))]
    simp [Token.leaf, hname]
  obtain ⟨t, ht, hk, hregion, htext, hc⟩ := exists_tree_branch
    (rfl : drafts lo (.node .assignment ((blanks ++ [name]).map Token.leaf ++
      (later ++ [eq]).map Token.leaf ++ (is ++ js))) = [_])
  rw [nameDrafts, hfind, draftsAmong_append, draftsAmong_append, draftsAmong_append, hjs,
    draftsAmong_leaves, draftsAmong_leaves, List.append_nil, List.nil_append, List.append_nil,
    Draft.trees_append, he] at hc
  refine ⟨t, ht, hregion, .assignment hk htext hc rfl rfl rfl hspells.expression, ?_⟩
  rw [spelling_assignment hk hc, hspells.spelling_eq, htokens]
  rfl

/-- Without faults the statements of a program have the tokens that lie within them. -/
theorem Reads.statesOwn {p : Phrase} {fs : List Diagnostic} (h : Reads p stop ts is fs)
    (hp : p = .statement ∨ p = .program) (hs : ∀ t ∈ ts, t.Spelled) (hf : fs = []) :
    StatesOwn ts is := by
  induction h with
  | skip blank _ ih =>
    exact (StatesOwn.leaves _).append (ih hp (fun t ht => hs t (List.mem_append_right _ ht)) hf) rfl
  | lift chain => rcases hp with rfl | rfl <;> cases chain
  | join _ joins => rcases hp with rfl | rfl <;> cases joins
  | assignment blank blank' kind kind' hv hc _ _ =>
    obtain ⟨rfl, rfl⟩ := List.append_eq_nil_iff.1 hf
    exact statesOwn_assignment blank blank' kind kind' hv hc hs
  | chunk => exact .templateStatement _ _
  | closedChunk => exact .templateStatement _ _
  | value hv hc _ _ =>
    obtain ⟨rfl, rfl⟩ := List.append_eq_nil_iff.1 hf
    exact statesOwn_value hv hc hs
  | stray => simp at hf
  | done => exact .leaves _
  | later _ hr _ ih ih' =>
    obtain ⟨rfl, rfl⟩ := List.append_eq_nil_iff.1 hf
    have hfirst := ih (.inl rfl) (fun t ht => hs t (List.mem_append_left _ ht)) rfl
    have hlater := ih' (.inr rfl) (fun t ht => hs t (List.mem_append_right _ ht)) rfl
    exact hfirst.append hlater hr.widths_eq
  | empty => cases hf
  | _ => rcases hp with hp | hp <;> cases hp

end Statements

/-! ## Syntax trees -/

section Lowered

mutual
private theorem spelling_sketch : ∀ t : Tree, spelling (t.sketch NodeData.bare) = spelling t
  | .node data children foreign => by
    rw [Tree.sketch, spelling, spelling, spellings_sketches children]
    rfl

private theorem spellings_sketches : ∀ ts : List Tree,
    spellings (Tree.sketches NodeData.bare ts) = spellings ts
  | [] => rfl
  | t :: ts => by rw [Tree.sketches, spellings, spellings, spelling_sketch t, spellings_sketches ts]
end

variable {source : String} {level : AstLevel} {ast : Ast} {t u : Tree} {ts : List Token}

private theorem IsExpression.of_sketch (hu : IsExpression u)
    (h : t.sketch NodeData.bare = u.sketch NodeData.bare) : IsExpression t := by
  induction hu generalizing t with
  | value kind hasText children =>
    rw [← Tree.kind_of_sketch h] at kind
    exact .value kind ((Tree.text_of_sketch h).trans hasText)
      (Tree.children_eq_nil_of_sketch h children)
  | paren kind plain children _ ih =>
    obtain ⟨e, hc, he⟩ := Tree.exists_child_of_sketch h children
    exact .paren ((Tree.kind_of_sketch h).trans kind) ((Tree.text_of_sketch h).trans plain) hc
      (ih he)
  | binary kind children _ _ ih ih' =>
    obtain ⟨l, r, hc, hl, hr⟩ := Tree.exists_children_of_sketch h children
    exact .binary ((Tree.kind_of_sketch h).trans kind) hc (ih hl) (ih' hr)

private theorem IsClause.of_sketch (hu : IsClause u)
    (h : t.sketch NodeData.bare = u.sketch NodeData.bare) : IsClause t := by
  cases hu with
  | assignment kind plain children kind' hasText children' value =>
    obtain ⟨n, e, hc, hn, he⟩ := Tree.exists_children_of_sketch h children
    exact .assignment ((Tree.kind_of_sketch h).trans kind) ((Tree.text_of_sketch h).trans plain) hc
      ((Tree.kind_of_sketch hn).trans kind') ((Tree.text_of_sketch hn).trans hasText)
      (Tree.children_eq_nil_of_sketch hn children') (value.of_sketch he)
  | exprStatement kind plain children value =>
    obtain ⟨e, hc, he⟩ := Tree.exists_child_of_sketch h children
    exact .exprStatement ((Tree.kind_of_sketch h).trans kind)
      ((Tree.text_of_sketch h).trans plain) hc (value.of_sketch he)

private theorem SpellsOwn.of_sketch (hu : SpellsOwn ts u)
    (h : t.sketch NodeData.bare = u.sketch NodeData.bare) : SpellsOwn ts t := by
  refine ⟨hu.clause.of_sketch h, ?_⟩
  rw [← spelling_sketch, h, spelling_sketch, hu.spelling_eq, ← u.region_sketch, ← h,
    t.region_sketch]

/-- If a text breaks no rule of the grammar, its statements have the tokens that lie within them. -/
theorem spellsOwn_of_lower (h : lower (parse source) level = .ok ast)
    (hf : (parse source).grammarFaults = []) :
    ∀ t ∈ ast.root.children, t.kind = Kind.templateBlock ∨ SpellsOwn (lex source).tokens t := by
  obtain ⟨hlt, hl⟩ := lowered_of_lower h
  have hsize : Text.size source < naOffset := by
    rw [← width_parse]
    exact hlt
  have hitems := (statements_reads (lex source).tokens).statesOwn (.inr rfl)
    (spelled_lexFrom 0 source.toList) (grammarFaults_eq_nil.1 hf) 0 _ (laid_lex hsize)
  refine Tree.forall_of_map_sketch (fun t u htu hu => ?_) (Tree.map_children_sketch hl.sketch_eq)
    fun u hu => (hitems u hu).imp_right fun hown => hown.2.2
  exact hu.imp (Tree.kind_of_sketch htu).trans fun hown => hown.of_sketch htu

end Lowered

end SourceModel.Calc
