import SourceModel.Proofs.Calc.Grammar
import SourceModel.Proofs.Calc.Reading

/-!
# What the parser accepts

The parser reports no fault on a text exactly when the grammar derives the kinds of its significant
tokens. One direction is an induction on the reading of the text. For the other one, a parser that
meets what its rule derives is shown to report nothing and to leave what comes behind; there the
tokens behind a phrase have to be such that they do not go on with it.
-/

namespace SourceModel.Calc

def Phrase.rule : Phrase → Rule
  | factor => .ref .factor
  | term => .ref .term
  | expr => .ref .expr
  | closing kind _ => .token kind
  | statement => .ref .statement
  | program => .ref .program

/-! ## Soundness -/

theorem derives_lift {p : Phrase} {ks : List TokenKind} (chain : p.isChain)
    (h : p.operand.rule.Derives ks) : p.rule.Derives ks := by
  cases p with
  | term => exact Rule.derives_term_iff.2 ⟨ks, [], by simp, h, .stop⟩
  | expr => exact Rule.derives_expr_iff.2 ⟨ks, [], by simp, h, .stop⟩
  | _ => cases chain

theorem derives_join {p : Phrase} {kind : TokenKind} {ks ls : List TokenKind}
    (joins : p.joins kind) (h : p.rule.Derives ks) (h' : p.operand.rule.Derives ls) :
    p.rule.Derives (ks ++ kind :: ls) := by
  cases p with
  | term =>
    obtain ⟨fs, rs, rfl, hf, hr⟩ := Rule.derives_term_iff.1 h
    refine Rule.derives_term_iff.2 ⟨fs, rs ++ kind :: ls, List.append_assoc .., hf, hr.snoc ?_⟩
    have ho : kind = .star ∨ kind = .slash := by simpa [Phrase.joins, joinsFactors] using joins
    refine Rule.derives_seq_iff.2 ⟨[kind], ls, rfl, ?_, h'⟩
    rcases ho with rfl | rfl
    · exact .first (.token _)
    · exact .second (.token _)
  | expr =>
    obtain ⟨ts, rs, rfl, ht, hr⟩ := Rule.derives_expr_iff.1 h
    refine Rule.derives_expr_iff.2 ⟨ts, rs ++ kind :: ls, List.append_assoc .., ht, hr.snoc ?_⟩
    have ho : kind = .plus ∨ kind = .minus := by simpa [Phrase.joins, joinsTerms] using joins
    refine Rule.derives_seq_iff.2 ⟨[kind], ls, rfl, ?_, h'⟩
    rcases ho with rfl | rfl
    · exact .first (.token _)
    · exact .second (.token _)
  | _ => cases joins

private theorem Reads.derives {p : Phrase} {stop : Nat} {ts : List Token} {is : List Cst}
    {fs : List Diagnostic} (h : Reads p stop ts is fs) (hf : fs = []) :
    p.rule.Derives (significantKinds ts) := by
  induction h with
  | skip blank _ ih =>
    rw [significantKinds_append, significantKinds_trivia blank]
    exact ih hf
  | literal kind =>
    rcases kind with kind | kind
    · rw [significantKinds_cons kind rfl]
      exact Rule.derives_factor_iff.2 (.inl rfl)
    · rw [significantKinds_cons kind rfl]
      exact Rule.derives_factor_iff.2 (.inr (.inl rfl))
  | nameRef kind =>
    rw [significantKinds_cons kind rfl]
    exact Rule.derives_factor_iff.2 (.inr (.inr (.inl rfl)))
  | template kind =>
    rw [significantKinds_cons kind rfl]
    exact Rule.derives_factor_iff.2 (.inr (.inr (.inr (.inl rfl))))
  | paren kind _ _ ih ih' =>
    obtain ⟨rfl, rfl⟩ := List.append_eq_nil_iff.1 hf
    rw [significantKinds_cons kind rfl, significantKinds_append,
      Rule.derives_token_iff.1 (ih' rfl)]
    exact Rule.derives_factor_iff.2 (.inr (.inr (.inr (.inr ⟨_, ih rfl, rfl⟩))))
  | lacking => cases hf
  | misplaced => cases hf
  | lift chain _ ih => exact derives_lift chain (ih hf)
  | join blank joins _ _ ih ih' =>
    obtain ⟨rfl, rfl⟩ := List.append_eq_nil_iff.1 hf
    rw [significantKinds_append, significantKinds_next blank rfl (isTrivia_of_joins joins)]
    exact derives_join joins (ih rfl) (ih' rfl)
  | found blank closing same =>
    rcases closing with rfl | rfl
    · rw [significantKinds_next blank same rfl]
      exact .token _
    · rw [significantKinds_next blank same rfl]
      exact .token _
  | missing => cases hf
  | assignment blank blank' kind kind' _ _ ih ih' =>
    obtain ⟨rfl, rfl⟩ := List.append_eq_nil_iff.1 hf
    rw [significantKinds_next blank kind rfl, significantKinds_next blank' kind' rfl,
      significantKinds_append, Rule.derives_token_iff.1 (ih' rfl)]
    exact Rule.derives_statement_iff.2 (.inl ⟨_, ih rfl, rfl⟩)
  | chunk blank kind =>
    rw [significantKinds_next blank kind rfl]
    exact Rule.derives_statement_iff.2 (.inr (.inl rfl))
  | closedChunk blank blank' kind kind' =>
    rw [significantKinds_next blank kind rfl, significantKinds_next blank' kind' rfl]
    exact Rule.derives_statement_iff.2 (.inr (.inr (.inl rfl)))
  | empty => cases hf
  | value _ _ ih ih' =>
    obtain ⟨rfl, rfl⟩ := List.append_eq_nil_iff.1 hf
    rw [significantKinds_append, Rule.derives_token_iff.1 (ih' rfl)]
    exact Rule.derives_statement_iff.2 (.inr (.inr (.inr ⟨_, ih rfl, rfl⟩)))
  | stray => exact absurd (List.append_eq_nil_iff.1 hf).2 (List.cons_ne_nil _ _)
  | done blank =>
    rw [significantKinds_trivia blank]
    exact .ref .stop
  | later _ _ _ ih ih' =>
    obtain ⟨rfl, rfl⟩ := List.append_eq_nil_iff.1 hf
    rw [significantKinds_append]
    exact .ref (.more (ih rfl) (Rule.derives_ref_iff.1 (ih' rfl)))

/-! ## How derived sequences start -/

def TokenKind.isStart (kind : TokenKind) : Bool :=
  kind == .number || kind == .string || kind == .ident || kind == .template || kind == .openParen

/-- An expression starts with an operand, which an operator follows unless it is in parentheses. -/
def Leads (ks : List TokenKind) : Prop :=
  ∃ kind ls, ks = kind :: ls ∧ kind.isStart ∧
    (kind = .openParen ∨ ls.head?.all TokenKind.isOperator)

private theorem Leads.append {ks ls : List TokenKind} (h : Leads ks)
    (hl : ls.head?.all TokenKind.isOperator) : Leads (ks ++ ls) := by
  obtain ⟨kind, ms, rfl, hs, hm⟩ := h
  refine ⟨kind, ms ++ ls, rfl, hs, hm.imp_right fun hm => ?_⟩
  cases ms with
  | nil => exact hl
  | cons m ms => exact hm

private theorem factor_leads {ks : List TokenKind} (h : (Rule.ref .factor).Derives ks) :
    Leads ks := by
  rcases Rule.derives_factor_iff.1 h with rfl | rfl | rfl | rfl | ⟨es, _, rfl⟩
  · exact ⟨_, _, rfl, rfl, .inr rfl⟩
  · exact ⟨_, _, rfl, rfl, .inr rfl⟩
  · exact ⟨_, _, rfl, rfl, .inr rfl⟩
  · exact ⟨_, _, rfl, rfl, .inr rfl⟩
  · exact ⟨_, _, rfl, rfl, .inl rfl⟩

private theorem factorTail_cases {ks : List TokenKind} (h : Rule.factorTail.Derives ks) :
    ∃ kind fs, ks = kind :: fs ∧ joinsFactors kind ∧ (Rule.ref .factor).Derives fs := by
  obtain ⟨_, fs, rfl, ho, hf⟩ := Rule.derives_seq_iff.1 h
  rcases Rule.derives_either_iff.1 ho with ho | ho
  · exact ⟨.star, fs, by rw [Rule.derives_token_iff.1 ho]; rfl, rfl, hf⟩
  · exact ⟨.slash, fs, by rw [Rule.derives_token_iff.1 ho]; rfl, rfl, hf⟩

private theorem termTail_cases {ks : List TokenKind} (h : Rule.termTail.Derives ks) :
    ∃ kind ts, ks = kind :: ts ∧ joinsTerms kind ∧ (Rule.ref .term).Derives ts := by
  obtain ⟨_, ts, rfl, ho, ht⟩ := Rule.derives_seq_iff.1 h
  rcases Rule.derives_either_iff.1 ho with ho | ho
  · exact ⟨.plus, ts, by rw [Rule.derives_token_iff.1 ho]; rfl, rfl, ht⟩
  · exact ⟨.minus, ts, by rw [Rule.derives_token_iff.1 ho]; rfl, rfl, ht⟩

private theorem many_head {rule : Rule} {ks : List TokenKind} {belongs : TokenKind → Bool}
    (hb : ∀ ks, rule.Derives ks → ks.head?.any belongs) (h : (Rule.many rule).Derives ks) :
    ks.head?.all belongs := by
  cases h with
  | stop => rfl
  | more hf _ =>
    have hk := hb _ hf
    rename_i ks _ _
    cases ks with
    | nil => cases hk
    | cons k ks => exact hk

private theorem factors_head {ks : List TokenKind} (h : (Rule.many Rule.factorTail).Derives ks) :
    ks.head?.all joinsFactors := by
  refine many_head (fun ks hk => ?_) h
  obtain ⟨kind, fs, rfl, ho, _⟩ := factorTail_cases hk
  exact ho

private theorem terms_head {ks : List TokenKind} (h : (Rule.many Rule.termTail).Derives ks) :
    ks.head?.all joinsTerms := by
  refine many_head (fun ks hk => ?_) h
  obtain ⟨kind, ts, rfl, ho, _⟩ := termTail_cases hk
  exact ho

private theorem isOperator_of_joinsFactors {kind : TokenKind} (h : joinsFactors kind) :
    kind.isOperator := by
  cases kind <;> first | rfl | cases h

private theorem isOperator_of_joinsTerms {kind : TokenKind} (h : joinsTerms kind) :
    kind.isOperator := by
  cases kind <;> first | rfl | cases h

theorem all_of_imp {o : Option TokenKind} {p q : TokenKind → Bool} (hpq : ∀ k, p k → q k)
    (h : o.all p) : o.all q := by
  cases o with
  | none => rfl
  | some k => exact hpq k h

private theorem expr_leads {ks : List TokenKind} (h : (Rule.ref .expr).Derives ks) : Leads ks := by
  obtain ⟨ts, rs, rfl, ht, hr⟩ := Rule.derives_expr_iff.1 h
  obtain ⟨fs, qs, rfl, hf, hq⟩ := Rule.derives_term_iff.1 ht
  have hq' := all_of_imp (fun _ => isOperator_of_joinsFactors) (factors_head hq)
  have hr' := all_of_imp (fun _ => isOperator_of_joinsTerms) (terms_head hr)
  exact ((factor_leads hf).append hq').append hr'

private theorem statement_head {ks : List TokenKind} (h : (Rule.ref .statement).Derives ks) :
    ks.head?.any TokenKind.isStart := by
  rcases Rule.derives_statement_iff.1 h with ⟨es, _, rfl⟩ | rfl | rfl | ⟨es, he, rfl⟩
  · rfl
  · rfl
  · rfl
  · obtain ⟨kind, ls, rfl, hs, _⟩ := expr_leads he
    exact hs

/-! ## Completeness -/

/-- A parser reports nothing and leaves significant tokens of the given kinds. -/
structure Clean {c : Cursor} (parsed : Parsed c) (rest : List TokenKind) : Prop where
  faults_eq : parsed.faults = []
  kinds_eq : parsed.after.kinds = rest

section Clean

variable {c : Cursor} {ks rest : List TokenKind} {n : Nat}

private theorem peek?_of_kinds {kind : TokenKind} (h : c.kinds = kind :: rest) :
    c.peek? = some kind := by
  rw [c.peek?_eq_head?, h, List.head?_cons]

private theorem next_kinds {kind : TokenKind} (h : c.kinds = kind :: rest) :
    c.next.kinds = rest := by
  rw [c.kinds_next, h, List.tail_cons]

private theorem single_clean {kind : TokenKind} {node : CstKind} (h : c.kinds = kind :: rest) :
    Clean (Parsed.single node c) rest := ⟨rfl, next_kinds h⟩

private theorem expect_clean {kind : TokenKind} (message : String) (h : c.kinds = kind :: rest) :
    Clean (Parsed.expect kind message c) rest := by
  rw [Parsed.expect, if_pos (peek?_of_kinds h)]
  exact ⟨rfl, next_kinds h⟩

/-- Factors of at most `n` tokens are read without a fault. -/
def FactorsClean (n : Nat) : Prop := ∀ ks, ks.length ≤ n → (Rule.ref .factor).Derives ks →
  ∀ (c : Cursor) (rest : List TokenKind), c.kinds = ks ++ rest → Clean (factor c) rest

private theorem termRest_clean (hn : FactorsClean n) (h : (Rule.many Rule.factorTail).Derives ks)
    (hlen : ks.length ≤ n) (lhs : List Cst) (hk : c.kinds = ks ++ rest)
    (stop : rest.head?.any joinsFactors = false) : Clean (termRest lhs c) rest := by
  generalize hr : Rule.many Rule.factorTail = r at h
  induction h generalizing c lhs with
  | stop =>
    have hp : c.peek? = rest.head? := by rw [c.peek?_eq_head?, hk, List.nil_append]
    rw [termRest, dif_neg (by rw [hp, stop]; exact Bool.false_ne_true)]
    exact ⟨rfl, hk⟩
  | @more _ as bs ha _ _ ih =>
    cases hr
    obtain ⟨kind, fs, rfl, ho, hf⟩ := factorTail_cases ha
    simp only [List.cons_append, List.length_cons, List.length_append] at hlen
    have hk' : c.kinds = kind :: (fs ++ (bs ++ rest)) := by rw [hk, List.append_assoc]; rfl
    have hfac := hn fs (by omega) hf c.next (bs ++ rest) (next_kinds hk')
    have hrest := ih (by omega) [.node .binary (lhs ++ c.leaves ++ (factor c.next).items)]
      hfac.kinds_eq rfl
    rw [termRest, dif_pos (by rw [peek?_of_kinds hk']; exact ho)]
    refine ⟨?_, hrest.kinds_eq⟩
    simp only [hfac.faults_eq, hrest.faults_eq, List.append_nil]
  | _ => cases hr

private theorem term_clean (hn : FactorsClean n) (h : (Rule.ref .term).Derives ks)
    (hlen : ks.length ≤ n) (hk : c.kinds = ks ++ rest)
    (stop : rest.head?.any joinsFactors = false) : Clean (term c) rest := by
  obtain ⟨fs, rs, rfl, hf, hr⟩ := Rule.derives_term_iff.1 h
  rw [List.length_append] at hlen
  have hk' : c.skipTrivia.kinds = fs ++ (rs ++ rest) := by
    rw [c.kinds_skipTrivia, hk, List.append_assoc]
  have hfac := hn fs (by omega) hf c.skipTrivia (rs ++ rest) hk'
  have hrest := termRest_clean hn hr (by omega) (factor c.skipTrivia).items hfac.kinds_eq stop
  rw [term]
  refine ⟨?_, hrest.kinds_eq⟩
  simp only [hfac.faults_eq, hrest.faults_eq, List.append_nil]

private theorem head?_append_any {p q : TokenKind → Bool} (hks : ks.head?.all p)
    (hpq : ∀ k, p k → q k = false) (hrest : rest.head?.any q = false) :
    (ks ++ rest).head?.any q = false := by
  cases ks with
  | nil => exact hrest
  | cons k ks => exact hpq k hks

private theorem joinsFactors_of_joinsTerms {kind : TokenKind} (h : joinsTerms kind) :
    joinsFactors kind = false := by
  cases kind <;> first | rfl | cases h

private theorem exprRest_clean (hn : FactorsClean n) (h : (Rule.many Rule.termTail).Derives ks)
    (hlen : ks.length ≤ n) (lhs : List Cst) (hk : c.kinds = ks ++ rest)
    (stop : rest.head?.any TokenKind.isOperator = false) : Clean (exprRest lhs c) rest := by
  generalize hr : Rule.many Rule.termTail = r at h
  have hstop : rest.head?.any joinsTerms = false ∧ rest.head?.any joinsFactors = false := by
    cases hd : rest.head? with
    | none => exact ⟨rfl, rfl⟩
    | some k => rw [hd] at stop; cases k <;> first | exact ⟨rfl, rfl⟩ | cases stop
  induction h generalizing c lhs with
  | stop =>
    have hp : c.peek? = rest.head? := by rw [c.peek?_eq_head?, hk, List.nil_append]
    rw [exprRest, dif_neg (by rw [hp, hstop.1]; exact Bool.false_ne_true)]
    exact ⟨rfl, hk⟩
  | @more _ as bs ha hb _ ih =>
    cases hr
    obtain ⟨kind, ts, rfl, ho, ht⟩ := termTail_cases ha
    simp only [List.cons_append, List.length_cons, List.length_append] at hlen
    have hk' : c.kinds = kind :: (ts ++ (bs ++ rest)) := by rw [hk, List.append_assoc]; rfl
    have hb' := head?_append_any (terms_head hb) (fun _ => joinsFactors_of_joinsTerms) hstop.2
    have hterm := term_clean hn ht (by omega) (next_kinds hk') hb'
    have hrest := ih (by omega) [.node .binary (lhs ++ c.leaves ++ (term c.next).items)]
      hterm.kinds_eq rfl
    rw [exprRest, dif_pos (by rw [peek?_of_kinds hk']; exact ho)]
    refine ⟨?_, hrest.kinds_eq⟩
    simp only [hterm.faults_eq, hrest.faults_eq, List.append_nil]
  | _ => cases hr

private theorem expr_clean (hn : FactorsClean n) (h : (Rule.ref .expr).Derives ks)
    (hlen : ks.length ≤ n) (hk : c.kinds = ks ++ rest)
    (stop : rest.head?.any TokenKind.isOperator = false) : Clean (expr c) rest := by
  obtain ⟨ts, rs, rfl, ht, hr⟩ := Rule.derives_expr_iff.1 h
  rw [List.length_append] at hlen
  have hk' : c.skipTrivia.kinds = ts ++ (rs ++ rest) := by
    rw [c.kinds_skipTrivia, hk, List.append_assoc]
  have hstop : rest.head?.any joinsFactors = false := by
    cases hd : rest.head? with
    | none => rfl
    | some k => rw [hd] at stop; cases k <;> first | rfl | cases stop
  have hr' := head?_append_any (terms_head hr) (fun _ => joinsFactors_of_joinsTerms) hstop
  have hterm := term_clean hn ht (by omega) hk' hr'
  have hrest := exprRest_clean hn hr (by omega) (term c.skipTrivia).items hterm.kinds_eq stop
  rw [expr]
  refine ⟨?_, hrest.kinds_eq⟩
  simp only [hterm.faults_eq, hrest.faults_eq, List.append_nil]

private theorem factors_clean (n : Nat) : FactorsClean n := by
  induction n with
  | zero =>
    intro ks hlen h
    obtain ⟨kind, ls, rfl, _⟩ := factor_leads h
    cases hlen
  | succ n ih =>
    intro ks hlen h c rest hk
    rcases Rule.derives_factor_iff.1 h with rfl | rfl | rfl | rfl | ⟨es, he, rfl⟩
    · rw [factor, peek?_of_kinds hk]
      exact single_clean hk
    · rw [factor, peek?_of_kinds hk]
      exact single_clean hk
    · rw [factor, peek?_of_kinds hk]
      exact single_clean hk
    · rw [factor, peek?_of_kinds hk]
      exact single_clean hk
    · simp only [List.cons_append, List.length_cons, List.length_append] at hlen
      have hk' : c.kinds = .openParen :: (es ++ .closeParen :: rest) := by
        rw [hk, List.cons_append, List.cons_append, List.append_assoc]
        rfl
      have hexpr := expr_clean ih he (by omega) (next_kinds hk') rfl
      have hclose := expect_clean "expected ')'" hexpr.kinds_eq
      rw [factor, peek?_of_kinds hk']
      refine ⟨?_, hclose.kinds_eq⟩
      simp only [hexpr.faults_eq, hclose.faults_eq, List.append_nil]

private theorem closedExpr_clean {es : List TokenKind} (he : (Rule.ref .expr).Derives es)
    (hk : c.kinds = es ++ .semicolon :: rest) : Clean (closedExpr c) rest := by
  have hexpr := expr_clean (factors_clean es.length) he (Nat.le_refl _) hk rfl
  have hclose := expect_clean "expected ';'" hexpr.kinds_eq
  refine ⟨?_, hclose.kinds_eq⟩
  simp only [closedExpr, hexpr.faults_eq, hclose.faults_eq, List.append_nil]

private theorem exprStatement_clean {es : List TokenKind} (he : (Rule.ref .expr).Derives es)
    (hk : c.kinds = es ++ .semicolon :: rest) : Clean (exprStatement c) rest :=
  ⟨(closedExpr_clean he hk).faults_eq, (closedExpr_clean he hk).kinds_eq⟩

private theorem assignment_clean {es : List TokenKind} (he : (Rule.ref .expr).Derives es)
    (hk : c.kinds = .ident :: .equals :: (es ++ .semicolon :: rest)) :
    Clean (assignment c) rest := by
  have hvalue := closedExpr_clean he (next_kinds (next_kinds hk))
  exact ⟨hvalue.faults_eq, hvalue.kinds_eq⟩

private theorem templateStatement_clean {ls : List TokenKind} (hl : ls = [] ∨ ls = [.semicolon])
    (hk : c.kinds = .template :: (ls ++ rest)) (next : rest.head?.all TokenKind.isStart) :
    Clean (templateStatement c) rest := by
  unfold templateStatement
  rcases hl with rfl | rfl
  · have hp : c.next.peek? = rest.head? := by
      rw [c.next.peek?_eq_head?, next_kinds hk, List.nil_append]
    have hne : ¬ c.next.peek? = some .semicolon := by
      intro h
      rw [← hp, h] at next
      cases next
    rw [if_neg hne]
    exact ⟨rfl, next_kinds hk⟩
  · rw [if_pos (peek?_of_kinds (next_kinds hk))]
    exact ⟨rfl, next_kinds (next_kinds hk)⟩

private theorem statement_eq_templateStatement (h : c.peek? = some .template)
    (h' : c.peekSecond?.any TokenKind.isOperator = false) : statement c = templateStatement c := by
  unfold statement
  rw [h]
  simp only [h', Bool.false_eq_true, if_false]

private theorem statement_eq_exprStatement {kind second : TokenKind} (h : c.peek? = some kind)
    (h' : c.peekSecond? = some second) (start : kind.isStart)
    (name : kind = .ident → second ≠ .equals) (chunk : kind = .template → second.isOperator) :
    statement c = exprStatement c := by
  unfold statement
  rw [h, h']
  cases kind
  case ident => cases second <;> first | rfl | exact absurd rfl (name rfl)
  case template => simp only [Option.any_some, chunk rfl, if_true]
  all_goals first | rfl | cases start

private theorem chunk_clean {ls : List TokenKind} (hl : ls = [] ∨ ls = [.semicolon])
    (hk : c.kinds = .template :: (ls ++ rest)) (next : rest.head?.all TokenKind.isStart) :
    Clean (statement c) rest := by
  have hs : c.peekSecond?.any TokenKind.isOperator = false := by
    rw [c.peekSecond?_eq_getElem?, hk]
    rcases hl with rfl | rfl
    · cases rest with
      | nil => rfl
      | cons k rest => cases k <;> first | rfl | cases next
    · rfl
  rw [statement_eq_templateStatement (peek?_of_kinds hk) hs]
  exact templateStatement_clean hl hk next

private theorem value_clean {es : List TokenKind} (he : (Rule.ref .expr).Derives es)
    (hk : c.kinds = es ++ .semicolon :: rest) (next : rest.head?.all TokenKind.isStart) :
    Clean (statement c) rest := by
  have hexpr := exprStatement_clean he hk
  obtain ⟨kind, ls, rfl, hstart, hfollow⟩ := expr_leads he
  have hp : c.peek? = some kind := peek?_of_kinds hk
  cases ls with
  | nil =>
    by_cases ht : kind = .template
    · subst ht
      exact chunk_clean (.inr rfl) hk next
    · have hs : c.peekSecond? = some .semicolon := by rw [c.peekSecond?_eq_getElem?, hk]; rfl
      rw [statement_eq_exprStatement hp hs hstart (fun _ => by decide) fun h => absurd h ht]
      exact hexpr
  | cons l ls =>
    have hs : c.peekSecond? = some l := by rw [c.peekSecond?_eq_getElem?, hk]; rfl
    have hl : kind ≠ .openParen → l.isOperator := hfollow.resolve_left
    have hname : kind = .ident → l ≠ .equals := by
      rintro rfl rfl
      cases hl (by decide)
    rw [statement_eq_exprStatement hp hs hstart hname fun h => hl (by rw [h]; decide)]
    exact hexpr

private theorem statement_clean (h : (Rule.ref .statement).Derives ks) (hk : c.kinds = ks ++ rest)
    (next : rest.head?.all TokenKind.isStart) : Clean (statement c) rest := by
  rcases Rule.derives_statement_iff.1 h with ⟨es, he, rfl⟩ | rfl | rfl | ⟨es, he, rfl⟩
  · have hk' : c.kinds = .ident :: .equals :: (es ++ .semicolon :: rest) := by
      rw [hk]
      simp only [List.cons_append, List.append_assoc, List.nil_append]
    have hs : c.peekSecond? = some .equals := by rw [c.peekSecond?_eq_getElem?, hk']; rfl
    unfold statement
    rw [peek?_of_kinds hk', hs]
    exact assignment_clean he hk'
  · exact chunk_clean (.inl rfl) hk next
  · exact chunk_clean (.inr rfl) hk next
  · exact value_clean he (by rw [hk, List.append_assoc]; rfl) next

private theorem statementOrToken_clean (h : (Rule.ref .statement).Derives ks)
    (hk : c.kinds = ks ++ rest) (next : rest.head?.all TokenKind.isStart) :
    Clean (statementOrToken c) rest := by
  have hst := statement_clean h hk next
  have hlt : (statement c).after.rest.length < c.rest.length := by
    refine Decidable.byContradiction fun hle => ?_
    have he := (statement c).suffix.eq_of_length_le (Nat.le_of_not_lt hle)
    have hr : c.kinds = rest := by rw [← hst.kinds_eq, Cursor.kinds, Cursor.kinds, he]
    have hnil : ks = [] := List.self_eq_append_left.1 (hr.symm.trans hk)
    have hhead := statement_head h
    rw [hnil] at hhead
    cases hhead
  unfold statementOrToken
  simp only [hlt, if_true]
  exact hst

theorem statements_clean (h : (Rule.many (.ref .statement)).Derives ks) (hk : c.kinds = ks) :
    Clean (statements c) [] := by
  generalize hr : Rule.many (.ref .statement) = r at h
  induction h generalizing c with
  | stop =>
    rw [statements, dif_pos (by rw [c.peek?_eq_head?, hk]; rfl)]
    exact ⟨rfl, by rw [c.kinds_skipTrivia, hk]⟩
  | @more _ as bs ha hb _ ih =>
    cases hr
    have hne : ¬ c.peek? = none := by
      have hhead := statement_head ha
      rw [c.peek?_eq_head?, hk]
      cases as with
      | nil => cases hhead
      | cons a as => exact Option.some_ne_none a
    have hst := statementOrToken_clean ha ((c.kinds_skipTrivia).trans hk)
      (many_head (fun _ => statement_head) hb)
    have hlater := ih hst.kinds_eq rfl
    rw [statements, dif_neg hne]
    refine ⟨?_, hlater.kinds_eq⟩
    simp only [hst.faults_eq, hlater.faults_eq, List.append_nil]
  | _ => cases hr

end Clean

/-! ## The faults of a text -/

theorem Reads.origin_eq {p : Phrase} {stop : Nat} {ts : List Token} {is : List Cst}
    {fs : List Diagnostic} (h : Reads p stop ts is fs) : ∀ f ∈ fs, f.origin = .grammar := by
  induction h with
  | skip _ _ ih | lift _ _ ih => exact ih
  | literal | nameRef | template | found | chunk | closedChunk | done =>
    exact List.forall_mem_nil _
  | lacking | misplaced | missing | empty => exact List.forall_mem_singleton.2 rfl
  | paren _ _ _ ih ih' | join _ _ _ _ ih ih' | assignment _ _ _ _ _ _ ih ih' | value _ _ ih ih'
  | later _ _ _ ih ih' => exact List.forall_mem_append.2 ⟨ih, ih'⟩
  | stray _ _ _ ih => exact List.forall_mem_append.2 ⟨ih, List.forall_mem_singleton.2 rfl⟩

theorem lexFrom_origin (offset : Nat) (cs : List Char) :
    ∀ f ∈ (lexFrom offset cs).faults, f.origin = .lexical := by
  fun_induction lexFrom offset cs with
  | case1 => simp
  | case2 offset c cs l stop token later faults ih =>
    intro f hf
    rcases List.mem_append.1 hf with hf | hf
    · obtain ⟨fault, _, rfl⟩ := List.mem_map.1 hf
      rfl
    · exact ih f hf

/-- The faults of the grammar are those that the parser reports. -/
theorem grammarFaults_eq_nil {source : String} :
    (parse source).grammarFaults = [] ↔ (statements ⟨(lex source).tokens, 0⟩).faults = [] := by
  have hgrammar := (statements_reads (lex source).tokens).origin_eq
  have hlexical := lexFrom_origin 0 source.toList
  simp only [Parse.grammarFaults, parse, List.filter_eq_nil_iff, List.mem_mergeSort,
    List.mem_append, List.mem_filter, decide_eq_true_eq]
  constructor
  · intro h
    exact List.eq_nil_iff_forall_not_mem.2 fun f hf => h f (.inr hf) (hgrammar f hf)
  · rintro h f (⟨hf, _⟩ | hf)
    · rw [hlexical f hf]
      decide
    · rw [h] at hf
      cases hf

/-- The parser reports no fault exactly on the texts that the grammar derives. -/
theorem grammarFaults_eq_nil_iff_derives (source : String) :
    (parse source).grammarFaults = [] ↔
      (Rule.ref .program).Derives (significantKinds (lex source).tokens) := by
  rw [grammarFaults_eq_nil]
  constructor
  · exact (statements_reads _).derives
  · intro h
    exact (statements_clean (Rule.derives_ref_iff.1 h) rfl).faults_eq

end SourceModel.Calc
