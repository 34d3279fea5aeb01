import SourceModel.Proofs.Calc.Spelling
import SourceModel.Proofs.Calc.Statements
import SourceModel.Proofs.Related

/-!
# The parse of a statement

Trees whose operators are grouped from the left, and products within sums, are determined by the
tokens that they read in order. So the tree of a statement without faults is the one parse of its
tokens. Trees are compared from their last token on, for there a tree that is grouped from the left
splits at its topmost operator.
-/

namespace SourceModel.Calc

/-- What a node is, without its place and without what is said about it. -/
def label (data : NodeData) : NodeData where
  kind := data.kind
  region := default
  text := data.text

/-- Whether a tree is a left-associative parse of tokens: a statement whose operators are grouped,
and that reads the tokens in order. -/
structure IsParse (ts : List (TokenKind × String)) (t : Tree) : Prop where
  clause : IsClause t
  grouped : AllGrouped t
  spelling_eq : spelling t = ts

/-! ## Trees of phrases -/

/-- Trees as the rules of the grammar make them: an operator has the phrase that it joins on its
left, and an operand of the phrase on its right. -/
inductive Phrased : Phrase → Tree → Prop where
  | value {t : Tree} {text : String} (kind : isValueKind t.kind = true)
      (hasText : t.text = some text) (children : t.children = []) : Phrased .factor t
  | paren {t e : Tree} (kind : t.kind = Kind.paren) (plain : t.text = none)
      (children : t.children = [e]) : Phrased .expr e → Phrased .factor t
  | lift {p : Phrase} {t : Tree} (chain : p.isChain) : Phrased p.operand t → Phrased p t
  | join {p : Phrase} {o : TokenKind} {text : String} {t l r : Tree} (joins : p.joins o)
      (kind : t.kind = Kind.binary) (hasText : t.text = some text)
      (operator : TokenKind.ofOperator? text = some o) (children : t.children = [l, r]) :
      Phrased p l → Phrased p.operand r → Phrased p t

section Phrased

variable {p : Phrase} {t u : Tree}

private theorem Phrased.of_factor (hp : p.isOperand) (h : Phrased .factor t) : Phrased p t := by
  cases p with
  | factor => exact h
  | term => exact .lift rfl h
  | expr => exact .lift rfl (.lift rfl h)
  | closing | statement | program => cases hp

private theorem IsSum.exists_joins (h : IsSum t) :
    ∃ o text, Phrase.expr.joins o ∧ t.text = some text ∧ TokenKind.ofOperator? text = some o := by
  rcases h.2 with ht | ht
  · exact ⟨.plus, _, rfl, ht, rfl⟩
  · exact ⟨.minus, _, rfl, ht, rfl⟩

private theorem IsProduct.exists_joins (h : IsProduct t) :
    ∃ o text, Phrase.term.joins o ∧ t.text = some text ∧ TokenKind.ofOperator? text = some o := by
  rcases h.2 with ht | ht
  · exact ⟨.star, _, rfl, ht, rfl⟩
  · exact ⟨.slash, _, rfl, ht, rfl⟩

private theorem phrased_of_grouped (he : IsExpression t) (hg : AllGrouped t) (hp : p.isOperand)
    (hf : p.Fits t) : Phrased p t := by
  induction he generalizing p with
  | value kind hasText children => exact .of_factor hp (.value kind hasText children)
  | paren kind plain children _ ih =>
    have hinner := (allGrouped_iff.1 hg).2
    rw [children] at hinner
    exact .of_factor hp (.paren kind plain children
      (ih (hinner _ (List.mem_singleton_self _)) rfl trivial))
  | @binary t l r kind children _ _ ih ih' =>
    obtain ⟨hself, hinner⟩ := allGrouped_iff.1 hg
    obtain ⟨hoperator, l', r', hc, hsum, hproduct⟩ := hself kind
    rw [children] at hc hinner
    obtain ⟨rfl, rfl⟩ : l = l' ∧ r = r' := by simpa using hc
    have hl := hinner l (by simp)
    have hr := hinner r (by simp)
    rcases hoperator with hs | hm
    · obtain ⟨o, text, hj, ht, ho⟩ := hs.exists_joins
      have hexpr : Phrased .expr t :=
        .join hj kind ht ho children (ih hl rfl trivial) (ih' hr rfl (hsum hs))
      cases p with
      | factor => exact absurd kind hf
      | term => exact absurd hs hf
      | expr => exact hexpr
      | closing | statement | program => cases hp
    · obtain ⟨o, text, hj, ht, ho⟩ := hm.exists_joins
      have hterm : Phrased .term t :=
        .join hj kind ht ho children (ih hl rfl (hproduct hm).1) (ih' hr rfl (hproduct hm).2)
      cases p with
      | factor => exact absurd kind hf
      | term => exact hterm
      | expr => exact .lift rfl hterm
      | closing | statement | program => cases hp

end Phrased

/-! ## Comparing trees by their tokens -/

/-- Whether an operator of this kind can stand in a phrase outside of parentheses. -/
def Phrase.spans : Phrase → TokenKind → Bool
  | term, kind => joinsFactors kind
  | expr, kind => kind.isOperator
  | _, _ => false

/-- Whether a phrase cannot reach into the tokens in front of it. -/
def Phrase.Stops (p : Phrase) (ts : List (TokenKind × String)) : Prop :=
  ∀ x ∈ ts.getLast?, p.spans x.1 = false

section Stops

variable {p : Phrase} {o : TokenKind} {x : TokenKind × String} {ts us : List (TokenKind × String)}
  {t u l r : Tree} {text : String}

private theorem Phrase.stops_concat : p.Stops (ts ++ [x]) ↔ p.spans x.1 = false := by
  simp [Phrase.Stops]

private theorem Phrase.spans_of_joins (h : p.joins o) : p.spans o := by
  cases p <;> cases o <;> first | rfl | cases h

private theorem Phrase.spans_operand_of_joins (h : p.joins o) : p.operand.spans o = false := by
  cases p <;> cases o <;> first | rfl | cases h

private theorem Phrase.not_stops_of_joins (h : p.joins o) : ¬ p.Stops (ts ++ [(o, text)]) :=
  fun hstops => Bool.eq_false_iff.1 (Phrase.stops_concat.1 hstops) (spans_of_joins h)

private theorem Phrase.spans_of_operand (hp : p.isChain) (h : p.operand.spans o) : p.spans o := by
  cases p <;> cases o <;> first | rfl | cases h

private theorem Phrase.Stops.operand (hp : p.isChain) (h : p.Stops ts) : p.operand.Stops ts :=
  fun x hx => Bool.eq_false_iff.2 fun hs => Bool.eq_false_iff.1 (h x hx) (spans_of_operand hp hs)

private theorem sketch_label_eq (hk : t.kind = u.kind) (ht : t.text = u.text)
    (hc : t.children.map (Tree.sketch label) = u.children.map (Tree.sketch label)) :
    t.sketch label = u.sketch label := by
  have hlabel : label t.data = label u.data := by
    simp only [label, NodeData.mk.injEq, and_self, and_true]
    exact ⟨hk, trivial, trivial, ht⟩
  rw [Tree.sketch_eq, Tree.sketch_eq, hlabel, Tree.sketches_eq_map, Tree.sketches_eq_map, hc]

private theorem exists_spelling_value (hk : isValueKind t.kind = true) (ht : t.text = some text)
    (hc : t.children = []) :
    ∃ kind : TokenKind, t.kind ∈ kind.nodeKinds ∧ spelling t = [(kind, text)] := by
  have hkinds : ∀ k ∈ [Kind.nameRef, Kind.number, Kind.string, Kind.templateExpr],
      ∃ kind ∈ [TokenKind.ident, .number, .string, .template], k ∈ kind.nodeKinds := by decide
  obtain ⟨kind, -, hmem⟩ := hkinds _ (List.contains_iff_mem.1 hk)
  exact ⟨kind, hmem, spelling_leaf hmem ht hc⟩

private theorem kind_eq_of_value {kind : TokenKind} (hk : isValueKind t.kind = true)
    (hk' : isValueKind u.kind = true) (hm : t.kind ∈ kind.nodeKinds)
    (hm' : u.kind ∈ kind.nodeKinds) : t.kind = u.kind := by
  have hkinds : ∀ a ∈ kind.nodeKinds, ∀ b ∈ kind.nodeKinds, isValueKind a = true →
      isValueKind b = true → a = b := by
    cases kind <;> decide
  exact hkinds _ hm _ hm' hk hk'

private theorem value_ne_paren {e : Tree} (hk : isValueKind t.kind = true) (ht : t.text = some text)
    (hc : t.children = []) (hk' : u.kind = Kind.paren) (hc' : u.children = [e]) :
    ts ++ spelling t ≠ us ++ spelling u := by
  intro heq
  obtain ⟨kind, hmem, hspelling⟩ := exists_spelling_value hk ht hc
  rw [hspelling, spelling_paren hk' hc', ← List.cons_append, ← List.append_assoc] at heq
  have hlast := (List.append_inj' heq rfl).2
  obtain ⟨hkind, -⟩ := Prod.mk.injEq .. ▸ List.singleton_inj.1 hlast
  rw [hkind] at hmem
  cases hmem

private theorem spelling_join (hk : t.kind = Kind.binary) (ht : t.text = some text)
    (ho : TokenKind.ofOperator? text = some o) (hc : t.children = [l, r])
    (ts : List (TokenKind × String)) :
    ts ++ spelling t = ts ++ spelling l ++ [(o, text)] ++ spelling r := by
  rw [spelling_binary hk ht ho hc]
  simp

private theorem Phrased.unique (h : Phrased p t) (h' : Phrased p u) (hts : p.Stops ts)
    (hus : p.Stops us) (heq : ts ++ spelling t = us ++ spelling u) :
    t.sketch label = u.sketch label ∧ ts = us := by
  -- By induction on the rules that make the first tree. The case of the second one splits off the
  -- same last operand, or else finds an operator in front of a phrase that stops there.
  induction h generalizing u ts us with
  | value kind hasText children =>
    cases h' with
    | value kind' hasText' children' =>
      obtain ⟨k, hmem, hspelling⟩ := exists_spelling_value kind hasText children
      obtain ⟨k', hmem', hspelling'⟩ := exists_spelling_value kind' hasText' children'
      rw [hspelling, hspelling'] at heq
      obtain ⟨hfront, hlast⟩ := List.append_inj' heq rfl
      obtain ⟨rfl, rfl⟩ : k = k' ∧ _ = _ := by simpa using hlast
      refine ⟨sketch_label_eq (kind_eq_of_value kind kind' hmem hmem') ?_ ?_, hfront⟩
      · rw [hasText, hasText']
      · rw [children, children']
    | paren kind' _ children' =>
      exact absurd heq (value_ne_paren kind hasText children kind' children')
    | lift chain => cases chain
    | join joins => cases joins
  | paren kind plain children _ ih =>
    cases h' with
    | value kind' hasText' children' =>
      exact absurd heq.symm (value_ne_paren kind' hasText' children' kind children)
    | paren kind' plain' children' inner =>
      rw [spelling_paren kind children, spelling_paren kind' children', List.append_cons,
        List.append_cons us, ← List.append_assoc, ← List.append_assoc] at heq
      have hinner := (List.append_inj' heq rfl).1
      obtain ⟨he, hfront⟩ := ih inner (Phrase.stops_concat.2 rfl) (Phrase.stops_concat.2 rfl) hinner
      refine ⟨sketch_label_eq (kind.trans kind'.symm) (plain.trans plain'.symm) ?_, ?_⟩
      · rw [children, children', List.map_singleton, List.map_singleton, he]
      · exact (List.append_inj' hfront rfl).1
    | lift chain => cases chain
    | join joins => cases joins
  | @lift p t chain ht ih =>
    cases h' with
    | value => cases chain
    | paren => cases chain
    | lift _ hu => exact ih hu (hts.operand chain) (hus.operand chain) heq
    | @join _ o text _ l r joins kind hasText operator children _ hr =>
      rw [spelling_join kind hasText operator children us] at heq
      have hstop : p.operand.Stops (us ++ spelling l ++ [(o, text)]) :=
        Phrase.stops_concat.2 (Phrase.spans_operand_of_joins joins)
      obtain ⟨-, rfl⟩ := ih hr (hts.operand chain) hstop heq
      exact absurd hts (Phrase.not_stops_of_joins joins)
  | @join p o text t l r joins kind hasText operator children hl hr ih ih' =>
    have hstop : p.operand.Stops (ts ++ spelling l ++ [(o, text)]) :=
      Phrase.stops_concat.2 (Phrase.spans_operand_of_joins joins)
    rw [spelling_join kind hasText operator children ts] at heq
    cases h' with
    | value => cases joins
    | paren => cases joins
    | lift chain hu =>
      obtain ⟨-, rfl⟩ := ih' hu hstop (hus.operand chain) heq
      exact absurd hus (Phrase.not_stops_of_joins joins)
    | @join _ o' text' _ l' r' joins' kind' hasText' operator' children' hl' hr' =>
      have hstop' : p.operand.Stops (us ++ spelling l' ++ [(o', text')]) :=
        Phrase.stops_concat.2 (Phrase.spans_operand_of_joins joins')
      rw [spelling_join kind' hasText' operator' children' us] at heq
      obtain ⟨hright, hoperators⟩ := ih' hr' hstop hstop' heq
      obtain ⟨hlefts, hoperator⟩ := List.append_inj' hoperators rfl
      obtain ⟨rfl, rfl⟩ : o = o' ∧ text = text' := by simpa using hoperator
      obtain ⟨hleft, hfront⟩ := ih hl' hts hus hlefts
      refine ⟨sketch_label_eq (kind.trans kind'.symm) (hasText.trans hasText'.symm) ?_, hfront⟩
      simp only [children, children', List.map_cons, List.map_nil, hleft, hright]

end Stops

/-! ## Statements -/

section Statements

variable {t u e : Tree} {ts : List (TokenKind × String)}

private theorem phrased_of_child (hg : AllGrouped t) (he : IsExpression e) (hc : e ∈ t.children) :
    Phrased .expr e := phrased_of_grouped he ((allGrouped_iff.1 hg).2 e hc) rfl trivial

private theorem Phrase.stops_nil (p : Phrase) : p.Stops [] := fun _ hx => nomatch hx

private theorem sketch_eq_of_spelling {e' : Tree} (h : Phrased .expr e) (h' : Phrased .expr e')
    (heq : spelling e = spelling e') : e.sketch label = e'.sketch label :=
  (h.unique h' (Phrase.stops_nil _) (Phrase.stops_nil _) (congrArg ([] ++ ·) heq)).1

private theorem assignment_ne_expression {e' : Tree} {x : TokenKind × String} (h : Phrased .expr e)
    (h' : Phrased .expr e') : x :: (.equals, "=") :: spelling e ≠ spelling e' := by
  intro heq
  have hequals : Phrase.expr.Stops ([x] ++ [(.equals, "=")]) := Phrase.stops_concat.2 rfl
  have hwords : [x] ++ [(.equals, "=")] ++ spelling e = [] ++ spelling e' := heq
  exact List.cons_ne_nil _ _ (h.unique h' hequals (Phrase.stops_nil _) hwords).2

private theorem spelling_target {n : Tree} {name : String} (hk : n.kind = Kind.name)
    (ht : n.text = some name) (hc : n.children = []) : spelling n = [(.ident, name)] := by
  refine spelling_leaf ?_ ht hc
  rw [hk]
  exact (by decide : Kind.name ∈ TokenKind.ident.nodeKinds)

/-- There is no more than one parse of the tokens of a statement. -/
theorem IsParse.unique (h : IsParse ts t) (h' : IsParse ts u) :
    t.sketch label = u.sketch label := by
  have heq := h.spelling_eq.trans h'.spelling_eq.symm
  obtain ⟨hclause, hg, -⟩ := h
  obtain ⟨hclause', hg', -⟩ := h'
  cases hclause with
  | assignment kind plain children target hasText leaf value =>
    have he := phrased_of_child hg value (by simp [children])
    rw [spelling_assignment kind children, spelling_target target hasText leaf] at heq
    cases hclause' with
    | assignment kind' plain' children' target' hasText' leaf' value' =>
      have he' := phrased_of_child hg' value' (by simp [children'])
      rw [spelling_assignment kind' children', spelling_target target' hasText' leaf'] at heq
      simp only [List.singleton_append, List.cons.injEq, Prod.mk.injEq, true_and,
        List.append_cancel_right_eq] at heq
      obtain ⟨rfl, hvalue⟩ := heq
      have hsame := sketch_eq_of_spelling he he' hvalue
      have hname := sketch_label_eq (target.trans target'.symm) (hasText.trans hasText'.symm)
        (by rw [leaf, leaf'])
      refine sketch_label_eq (kind.trans kind'.symm) (plain.trans plain'.symm) ?_
      simp only [children, children', List.map_cons, List.map_nil, hsame, hname]
    | exprStatement kind' plain' children' value' =>
      have he' := phrased_of_child hg' value' (by simp [children'])
      rw [spelling_exprStatement kind' children', List.singleton_append, ← List.cons_append,
        ← List.cons_append] at heq
      exact absurd (List.append_cancel_right heq) (assignment_ne_expression he he')
  | exprStatement kind plain children value =>
    have he := phrased_of_child hg value (by simp [children])
    rw [spelling_exprStatement kind children] at heq
    cases hclause' with
    | assignment kind' plain' children' target' hasText' leaf' value' =>
      have he' := phrased_of_child hg' value' (by simp [children'])
      rw [spelling_assignment kind' children', spelling_target target' hasText' leaf',
        List.singleton_append, ← List.cons_append, ← List.cons_append] at heq
      exact absurd (List.append_cancel_right heq).symm (assignment_ne_expression he' he)
    | exprStatement kind' plain' children' value' =>
      have he' := phrased_of_child hg' value' (by simp [children'])
      rw [spelling_exprStatement kind' children'] at heq
      have hsame := sketch_eq_of_spelling he he' (List.append_cancel_right heq)
      refine sketch_label_eq (kind.trans kind'.symm) (plain.trans plain'.symm) ?_
      simp only [children, children', List.map_cons, List.map_nil, hsame]

def isClauseKind (kind : SyntaxKind) : Bool := [Kind.assignment, Kind.exprStatement].contains kind

private theorem isClauseKind_of_value {kind : SyntaxKind} (h : isValueKind kind = true) :
    isClauseKind kind = false := by
  have hkinds : ∀ k ∈ [Kind.nameRef, Kind.number, Kind.string, Kind.templateExpr],
      isClauseKind k = false := by decide
  exact hkinds kind (List.contains_iff_mem.1 h)

private theorem IsExpression.isClauseKind_eq (h : IsExpression t) :
    ∀ u ∈ t.preorder, isClauseKind u.kind = false := by
  induction h with
  | value kind _ children =>
    rw [Tree.preorder_eq, children]
    exact List.forall_mem_singleton.2 (isClauseKind_of_value kind)
  | paren kind _ children _ ih =>
    rw [Tree.preorder_eq, List.forall_mem_cons, Tree.forall_mem_preorders, children, kind]
    exact ⟨by decide, List.forall_mem_singleton.2 ih⟩
  | binary kind children _ _ ih ih' =>
    rw [Tree.preorder_eq, List.forall_mem_cons, Tree.forall_mem_preorders, children, kind]
    exact ⟨by decide, List.forall_mem_cons.2 ⟨ih, List.forall_mem_singleton.2 ih'⟩⟩

private theorem IsClause.isClauseKind_eq (h : IsClause t) : isClauseKind t.kind = true := by
  cases h with
  | assignment kind => rw [kind]; decide
  | exprStatement kind => rw [kind]; decide

private theorem IsClause.eq_of_mem (h : IsClause t) (hu : u ∈ t.preorder)
    (hk : isClauseKind u.kind = true) : u = t := by
  rw [Tree.preorder_eq] at hu
  rcases List.mem_cons.1 hu with rfl | hu
  · rfl
  · have hinner : ∀ v ∈ Tree.preorders t.children, isClauseKind v.kind = false := by
      rw [Tree.forall_mem_preorders]
      cases h with
      | assignment _ _ children target _ leaf value =>
        rw [children]
        refine List.forall_mem_cons.2 ⟨?_, List.forall_mem_singleton.2 value.isClauseKind_eq⟩
        rw [Tree.preorder_eq, leaf]
        refine List.forall_mem_singleton.2 ?_
        rw [target]
        decide
      | exprStatement _ _ children value =>
        rw [children]
        exact List.forall_mem_singleton.2 value.isClauseKind_eq
    rw [hinner u hu] at hk
    cases hk

end Statements

/-! ## Syntax trees -/

section Lowered

variable {source : String} {level : AstLevel} {ast : Ast} {s : Tree}

private theorem exists_statement_of_mem {u : Tree} (h : lower (parse source) level = .ok ast)
    (hu : u ∈ ast.root.preorder) (hk : u.kind ≠ Kind.program) :
    ∃ t ∈ ast.root.children, u ∈ t.preorder := by
  obtain ⟨hlt, hl⟩ := lowered_of_lower h
  have hroot : ast.root.kind = Kind.program := Tree.kind_of_sketch hl.sketch_eq
  rw [Tree.preorder_eq] at hu
  rcases List.mem_cons.1 hu with rfl | hu
  · exact absurd hroot hk
  · exact Tree.mem_preorders.1 hu

/-- The tree of an assignment or of a statement that is an expression is a parse of the tokens that
lie within it. -/
theorem isParse_of_lower (h : lower (parse source) level = .ok ast)
    (hf : (parse source).grammarFaults = []) (hs : s ∈ ast.root.preorder)
    (hk : isClauseKind s.kind = true) :
    IsParse (significantTokens (tokensIn s.region (lex source).tokens)) s := by
  have hprogram : s.kind ≠ Kind.program := by
    intro he
    rw [he] at hk
    exact absurd hk (by decide)
  obtain ⟨t, ht, hst⟩ := exists_statement_of_mem h hs hprogram
  have hown : SpellsOwn (lex source).tokens s := by
    rcases spellsOwn_of_lower h hf t ht with hblock | hown
    · have hleaf := (isStatement_of_lower h t ht).block hblock
      rw [Tree.preorder_eq, hleaf] at hst
      rw [List.mem_singleton.1 hst, hblock] at hk
      exact absurd hk (by decide)
    · exact hown.clause.eq_of_mem hst hk ▸ hown
  refine ⟨hown.clause, fun u hu => ?_, hown.spelling_eq⟩
  exact allGrouped_of_lower h u (Tree.mem_preorder_trans hs hu)

private theorem exists_clause {t : Token} (h : lower (parse source) level = .ok ast)
    (hf : (parse source).grammarFaults = []) (ht : t ∈ (lex source).tokens)
    (ho : t.kind.isOperand = true) (hne : t.kind ≠ .template) :
    ∃ s ∈ ast.root.preorder, isClauseKind s.kind = true := by
  have hmem : t ∈ (lex source).tokens.filter (·.kind.isOperand) := List.mem_filter.2 ⟨ht, ho⟩
  obtain ⟨u, hu, hstands⟩ := exists_of_mem_forall₂ (standsFor_of_lower h).flip hmem
  have hkind : u.kind ≠ Kind.program ∧ u.kind ≠ Kind.templateBlock := by
    have hkinds : t.kind ≠ .template → ∀ k ∈ t.kind.nodeKinds,
        k ≠ Kind.program ∧ k ≠ Kind.templateBlock := by
      cases t.kind <;> decide
    exact hkinds hne _ hstands.kind_mem
  obtain ⟨s, hs, hus⟩ := exists_statement_of_mem h (List.mem_filter.1 hu).1 hkind.1
  refine ⟨s, Tree.mem_preorder_of_child hs, ?_⟩
  rcases spellsOwn_of_lower h hf s hs with hblock | hown
  · have hleaf := (isStatement_of_lower h s hs).block hblock
    rw [Tree.preorder_eq, hleaf] at hus
    rw [List.mem_singleton.1 hus] at hkind
    exact absurd hblock hkind.2
  · exact hown.clause.isClauseKind_eq

/-- Whatever faults a text has, the operators of its syntax tree are grouped from the left, and
products within sums. If it breaks no rule of the grammar, the tree of an assignment or of a
statement that is an expression is the one parse of the significant tokens that lie within it. The
lowering gives a tree for every text within the limits for sizes. -/
theorem existsUnique_parse (source : String) (level : AstLevel) :
    (Text.size source < halfWordLimit → (parse source).tree.nodeCount ≤ TreeBuilder.maxNodes →
      ∃ ast, lower (parse source) level = .ok ast) ∧
      ∀ ast, lower (parse source) level = .ok ast →
        (∀ u ∈ ast.root.preorder, u.kind = Kind.binary → Grouped u) ∧
        ((parse source).grammarFaults = [] → ∀ s ∈ ast.root.preorder,
          s.kind = Kind.assignment ∨ s.kind = Kind.exprStatement →
            IsParse (significantTokens (tokensIn s.region (lex source).tokens)) s ∧
            ∀ u, IsParse (significantTokens (tokensIn s.region (lex source).tokens)) u →
              u.sketch label = s.sketch label) := by
  refine ⟨fun hsize hcount => exists_lower hsize hcount level, fun ast h =>
    ⟨allGrouped_of_lower h, fun hf s hs hk => ?_⟩⟩
  have hparse := isParse_of_lower h hf hs (by simpa [isClauseKind] using hk)
  exact ⟨hparse, fun u hu => hu.unique hparse⟩

/-- Differences and a product, with parentheses. -/
def chained : String := "x = a - b * (1 + c) - 2;"

private theorem grammarFaults_chained : (parse chained).grammarFaults = [] := by
  have hident : (Rule.ref .factor).Derives [.ident] :=
    Rule.derives_factor_iff.2 (.inr (.inr (.inl rfl)))
  have hnumber : (Rule.ref .factor).Derives [.number] := Rule.derives_factor_iff.2 (.inl rfl)
  have hterm : ∀ {ks}, (Rule.ref .factor).Derives ks → (Rule.ref .term).Derives ks :=
    fun h => derives_lift (p := .term) rfl h
  have hexpr : ∀ {ks}, (Rule.ref .factor).Derives ks → (Rule.ref .expr).Derives ks :=
    fun h => derives_lift (p := .expr) rfl (hterm h)
  have hsum := @derives_join .expr .plus _ _ rfl (hexpr hnumber) (hterm hident)
  have hparen := Rule.derives_factor_iff.2 (.inr (.inr (.inr (.inr ⟨_, hsum, rfl⟩))))
  have hproduct := @derives_join .term .star _ _ rfl (hterm hident) hparen
  have hfirst := @derives_join .expr .minus _ _ rfl (hexpr hident) hproduct
  have hsecond := @derives_join .expr .minus _ _ rfl hfirst (hterm hnumber)
  have hstatement := Rule.derives_statement_iff.2 (.inl ⟨_, hsecond, rfl⟩)
  have hkinds : significantKinds (lex chained).tokens =
      [.ident, .equals, .ident, .minus, .ident, .star, .openParen, .number, .plus, .ident,
        .closeParen, .minus, .number, .semicolon] := by
    decide +kernel
  rw [grammarFaults_eq_nil_iff_derives, hkinds]
  exact .ref (.more hstatement .stop)

/-- There is a statement, and its tree is the one parse of what it says. -/
theorem existsUnique_parse_chained :
    (parse chained).grammarFaults = [] ∧
      ∃ ast, lower (parse chained) .full = .ok ast ∧ AllGrouped ast.root ∧
        ∃ s ∈ ast.root.preorder, isClauseKind s.kind = true ∧
          IsParse (significantTokens (tokensIn s.region (lex chained).tokens)) s ∧
          ∀ u, IsParse (significantTokens (tokensIn s.region (lex chained).tokens)) u →
            u.sketch label = s.sketch label := by
  obtain ⟨hexists, hall⟩ := existsUnique_parse chained .full
  obtain ⟨ast, h⟩ := hexists (by decide) (Nat.le_trans (nodeCount_parse_le _) (by decide))
  obtain ⟨hgrouped, hparses⟩ := hall ast h
  have hname : ∃ t ∈ (lex chained).tokens, t.kind = .ident := by decide +kernel
  obtain ⟨t, ht, hk⟩ := hname
  obtain ⟨s, hs, hclause⟩ :=
    exists_clause h grammarFaults_chained ht (by rw [hk]; rfl) (by rw [hk]; decide)
  have hkind : s.kind = Kind.assignment ∨ s.kind = Kind.exprStatement := by
    simpa [isClauseKind] using hclause
  obtain ⟨hparse, hunique⟩ := hparses grammarFaults_chained s hs hkind
  exact ⟨grammarFaults_chained, ast, h, hgrouped, s, hs, hclause, hparse, hunique⟩

end Lowered

end SourceModel.Calc
