import SourceModel.Proofs.Calc.Moving
import SourceModel.Proofs.Calc.SourceOrder

/-!
# Recovery stops at semicolons

No part of a statement takes a semicolon except as the end of the statement, and the parser decides
nothing about the tokens before a semicolon by what comes behind it. So it makes of tokens that end
with a semicolon the same items whatever follows, and goes on behind them as from the start. Moving
all tokens moves what is reported.
-/

namespace SourceModel.Calc

private theorem leaf_moved (n : Nat) (ts : List Token) :
    (ts.map (Token.moved n)).map Token.leaf = ts.map Token.leaf := by
  rw [List.map_map]
  rfl

private theorem significantKinds_moved (n : Nat) (ts : List Token) :
    significantKinds (ts.map (Token.moved n)) = significantKinds ts := by
  rw [significantKinds, List.filter_map, List.map_map]
  rfl

namespace Cursor

/-- The cursor with its tokens `n` bytes further on and `us` behind them. -/
def followed (n : Nat) (us : List Token) (c : Cursor) : Cursor :=
  ⟨c.rest.map (Token.moved n) ++ us, c.lastStop + n⟩

/-- Whether a semicolon is still to be read before `us` comes, unless `us` is empty. -/
def Fenced (us : List Token) (c : Cursor) : Prop := us = [] ∨ c.rest ≠ [] ∧ Closed c.rest

variable {n : Nat} {us blanks rest : List Token} {t : Token} {c a : Cursor}

private theorem kinds_followed (n : Nat) (us : List Token) (c : Cursor) :
    (c.followed n us).kinds = c.kinds ++ significantKinds us := by
  rw [kinds, followed, significantKinds_append, significantKinds_moved, kinds]

private theorem Split.followed (h : c.Split blanks t rest) (n : Nat) (us : List Token) :
    (c.followed n us).Split (blanks.map (Token.moved n)) (t.moved n)
      (rest.map (Token.moved n) ++ us) where
  rest_eq := by simp [Cursor.followed, h.rest_eq]
  blank := List.forall_mem_map.2 h.blank
  significant := h.significant

section Split

variable (h : c.Split blanks t rest)
include h

private theorem Split.next_followed (n : Nat) (us : List Token) :
    (c.followed n us).next = c.next.followed n us := by
  rw [(h.followed n us).next_eq, h.next_eq]
  rfl

private theorem Split.leaves_followed (n : Nat) (us : List Token) :
    (c.followed n us).leaves = c.leaves := by
  rw [(h.followed n us).leaves_eq, h.leaves_eq, List.map_append, List.map_append, leaf_moved]
  rfl

end Split

namespace Fenced

private theorem eq_nil (h : c.Fenced us) (hp : c.peek? = none) : us = [] := by
  rcases h with h | ⟨hne, hclosed⟩
  · exact h
  · have hkind := hclosed.kind_getLast hne
    have htrivia := (trivia_of_peek?_eq_none hp).1 _ (List.getLast_mem hne)
    rw [Token.isTrivia, hkind] at htrivia
    cases htrivia

private theorem of_suffix (h : c.Fenced us) (hsuffix : a.rest <:+ c.rest) (hne : a.rest ≠ []) :
    a.Fenced us :=
  h.imp id fun hc => ⟨hne, hc.2.of_suffix hsuffix⟩

private theorem of_takes {p : Phrase} {is : List Cst} {fs : List Diagnostic} (h : c.Fenced us)
    (ht : Takes p c is fs a) (hp : p.spares) : a.Fenced us := by
  obtain ⟨ts, hr, -, hreads⟩ := ht
  by_cases hend : a.rest = []
  · rcases h with h | ⟨hne, hclosed⟩
    · exact .inl h
    · have hmem : c.rest.getLast hne ∈ ts := by
        rw [hend, List.append_nil] at hr
        exact hr ▸ List.getLast_mem hne
      exact absurd (hclosed.kind_getLast hne) (hreads.kind_ne_semicolon hp _ hmem)
  · exact h.of_suffix ⟨ts, hr.symm⟩ hend

private theorem peek?_followed (h : c.Fenced us) (n : Nat) : (c.followed n us).peek? = c.peek? := by
  cases hp : c.peek? with
  | none =>
    rw [peek?_eq_head?, kinds_followed, h.eq_nil hp, ← hp, peek?_eq_head?]
    simp [significantKinds]
  | some kind =>
    obtain ⟨blanks, t, rest, hs, rfl⟩ := exists_split hp
    exact (hs.followed n us).peek?_eq

private theorem skipTrivia (h : c.Fenced us) : c.skipTrivia.Fenced us := by
  cases hp : c.peek? with
  | none => exact .inl (h.eq_nil hp)
  | some kind =>
    obtain ⟨blanks, t, rest, hs, -⟩ := exists_split hp
    refine h.of_suffix c.skipTrivia_suffix ?_
    rw [hs.skipTrivia_eq]
    exact List.cons_ne_nil _ _

private theorem next (h : c.Fenced us) (hp : c.peek? ≠ some .semicolon) : c.next.Fenced us := by
  cases hk : c.peek? with
  | none => exact .inl (h.eq_nil hk)
  | some kind =>
    obtain ⟨blanks, t, rest, hs, ht⟩ := exists_split hk
    by_cases hend : c.next.rest = []
    · rcases h with h | ⟨-, hclosed⟩
      · exact .inl h
      · have hrest : rest = [] := by simpa [hs.next_eq] using hend
        have hlast : c.rest.getLast? = some t := by
          rw [hs.rest_eq, hrest, List.getLast?_concat]
        exact absurd (by rw [hk, ← ht, hclosed t hlast]) hp
    · exact h.of_suffix c.next_suffix hend

private theorem peekSecond?_followed (h : c.Fenced us) (hp : c.peek? ≠ some .semicolon) (n : Nat) :
    (c.followed n us).peekSecond? = c.peekSecond? := by
  cases hk : c.peek? with
  | none =>
    rw [peekSecond?_eq_getElem?, kinds_followed, h.eq_nil hk, peekSecond?_eq_getElem?]
    simp [significantKinds]
  | some kind =>
    obtain ⟨blanks, t, rest, hs, -⟩ := exists_split hk
    rw [← next_peek?_eq, hs.next_followed, (h.next hp).peek?_followed, next_peek?_eq]

private theorem trivia_followed (h : c.Fenced us) (n : Nat) :
    (c.followed n us).trivia = c.trivia := by
  cases hp : c.peek? with
  | none =>
    have hp' := (h.peek?_followed n).trans hp
    rw [(trivia_of_peek?_eq_none hp).2.1, (trivia_of_peek?_eq_none hp').2.1, h.eq_nil hp]
    rw [followed, List.append_nil, leaf_moved]
  | some kind =>
    obtain ⟨blanks, t, rest, hs, -⟩ := exists_split hp
    rw [hs.trivia_eq, (hs.followed n us).trivia_eq, leaf_moved]

private theorem skipTrivia_followed (h : c.Fenced us) (n : Nat) :
    (c.followed n us).skipTrivia = c.skipTrivia.followed n us := by
  cases hp : c.peek? with
  | none =>
    have hp' := (h.peek?_followed n).trans hp
    have hrest := (trivia_of_peek?_eq_none hp).2.2
    have hrest' := (trivia_of_peek?_eq_none hp').2.2
    simp only [followed, hrest, h.eq_nil hp] at hrest' ⊢
    simp only [Cursor.skipTrivia] at hrest' ⊢
    rw [hrest']
    rfl
  | some kind =>
    obtain ⟨blanks, t, rest, hs, -⟩ := exists_split hp
    rw [hs.skipTrivia_eq, (hs.followed n us).skipTrivia_eq]
    rfl

end Fenced

end Cursor

/-- What a parser makes of a cursor it makes of the same tokens `n` bytes further on with `us`
behind them. -/
structure Carries (n : Nat) (us : List Token) {c d : Cursor} (r : Parsed c) (r' : Parsed d) :
    Prop where
  items_eq : r'.items = r.items
  faults_eq : r'.faults = r.faults.map (Diagnostic.moved n)
  after_eq : r'.after = r.after.followed n us

section Carries

open Cursor

variable {n : Nat} {us blanks rest : List Token} {t : Token} {c : Cursor}

private theorem carries_missing (n : Nat) (us : List Token) (message : String) (c : Cursor) :
    Carries n us (Parsed.missing message c) (Parsed.missing message (c.followed n us)) :=
  ⟨rfl, rfl, rfl⟩

private theorem carries_single (hs : c.Split blanks t rest) (n : Nat) (us : List Token)
    (kind : CstKind) :
    Carries n us (Parsed.single kind c) (Parsed.single kind (c.followed n us)) := by
  have hs' := hs.followed n us
  refine ⟨?_, rfl, hs.next_followed n us⟩
  simp only [Parsed.single, hs.trivia_eq, hs'.trivia_eq, hs.skipTrivia_eq, hs'.skipTrivia_eq,
    leaf_moved]
  rfl

private theorem carries_unexpected (hs : c.Split blanks t rest) (n : Nat) (us : List Token)
    (message : String) :
    Carries n us (Parsed.unexpected message c) (Parsed.unexpected message (c.followed n us)) := by
  obtain ⟨hi, hf, ha⟩ := unexpected_eq message hs
  obtain ⟨hi', hf', ha'⟩ := unexpected_eq message (hs.followed n us)
  refine ⟨?_, ?_, ?_⟩
  · rw [hi, hi', leaf_moved]
    rfl
  · rw [hf, hf']
    rfl
  · rw [ha, ha', hs.next_followed]

private theorem carries_expect (h : c.Fenced us) (n : Nat) (kind : TokenKind) (message : String) :
    Carries n us (Parsed.expect kind message c) (Parsed.expect kind message (c.followed n us)) := by
  unfold Parsed.expect
  rw [h.peek?_followed n]
  split
  · rename_i hp
    obtain ⟨blanks, t, rest, hs, -⟩ := exists_split hp
    exact ⟨hs.leaves_followed n us, rfl, hs.next_followed n us⟩
  · exact carries_missing n us message c

private theorem factor_carries (h : c.Fenced us)
    (inner : c.peek? = some .openParen →
      Carries n us (expr c.next) (expr (c.next.followed n us))) :
    Carries n us (factor c) (factor (c.followed n us)) := by
  have hp' := h.peek?_followed n
  cases hp : c.peek? with
  | none =>
    rw [hp] at hp'
    rw [factor, factor, hp, hp']
    exact carries_missing n us _ c
  | some kind =>
    obtain ⟨blanks, t, rest, hs, ht⟩ := exists_split hp
    have htrivia : kind.isTrivia = false := by simpa [Token.isTrivia, ht] using hs.significant
    rw [hp] at hp'
    cases kind with
    | openParen =>
      have hinner := inner hp
      have hfence : (expr c.next).after.Fenced us :=
        (h.next (by simp [hp])).of_takes (expr_takes c.next) rfl
      have hclose := carries_expect hfence n .closeParen "expected ')'"
      rw [← hinner.after_eq, ← hs.next_followed] at hclose
      rw [← hs.next_followed] at hinner
      rw [factor, factor, hp, hp']
      refine ⟨?_, ?_, hclose.after_eq⟩
      · have hleaves := hs.skipTrivia_split.leaves_followed n us
        rw [← h.skipTrivia_followed] at hleaves
        simp only [hinner.items_eq, hclose.items_eq, h.trivia_followed, hleaves]
      · simp only [hinner.faults_eq, hclose.faults_eq, List.map_append]
    | number | string | ident | template =>
      rw [factor, factor, hp, hp']
      exact carries_single hs n us _
    | semicolon | closeParen =>
      rw [factor, factor, hp, hp']
      exact carries_missing n us _ c
    | plus | minus | star | slash | equals | unknown =>
      rw [factor, factor, hp, hp']
      exact carries_unexpected hs n us _
    | _ => cases htrivia

section Chains

variable (resume : List Cst → (c : Cursor) → Parsed c)

private theorem Carries.chain (h : c.Fenced us) {r : Parsed c.skipTrivia}
    {r' : Parsed (c.followed n us).skipTrivia} (first : Carries n us r r')
    (all : Carries n us (resume r.items r.after) (resume r.items (r.after.followed n us)))
    {s : (resume r.items r.after).after.rest <:+ c.rest}
    {s' : (resume r'.items r'.after).after.rest <:+ (c.followed n us).rest} :
    Carries n us
      { items := c.trivia ++ (resume r.items r.after).items
        faults := r.faults ++ (resume r.items r.after).faults
        after := (resume r.items r.after).after
        suffix := s }
      { items := (c.followed n us).trivia ++ (resume r'.items r'.after).items
        faults := r'.faults ++ (resume r'.items r'.after).faults
        after := (resume r'.items r'.after).after
        suffix := s' } := by
  have hall : Carries n us (resume r.items r.after) (resume r'.items r'.after) := by
    rw [first.items_eq, first.after_eq]
    exact all
  refine ⟨?_, ?_, hall.after_eq⟩
  · simp only [h.trivia_followed, hall.items_eq]
  · simp only [first.faults_eq, hall.faults_eq, List.map_append]

private theorem Carries.join (hs : c.Split blanks t rest) (lhs : List Cst) {r : Parsed c.next}
    {r' : Parsed (c.followed n us).next} (rhs : Carries n us r r')
    (all : Carries n us (resume [.node .binary (lhs ++ c.leaves ++ r.items)] r.after)
      (resume [.node .binary (lhs ++ c.leaves ++ r.items)] (r.after.followed n us)))
    {s : (resume [.node .binary (lhs ++ c.leaves ++ r.items)] r.after).after.rest <:+ c.rest}
    {s' : (resume [.node .binary (lhs ++ (c.followed n us).leaves ++ r'.items)]
      r'.after).after.rest <:+ (c.followed n us).rest} :
    let later := resume [.node .binary (lhs ++ c.leaves ++ r.items)] r.after
    let later' := resume [.node .binary (lhs ++ (c.followed n us).leaves ++ r'.items)] r'.after
    Carries n us
      { items := later.items
        faults := r.faults ++ later.faults
        after := later.after
        suffix := s }
      { items := later'.items
        faults := r'.faults ++ later'.faults
        after := later'.after
        suffix := s' } := by
  intro later later'
  have hall : Carries n us later later' := by
    simp only [later, later']
    rw [hs.leaves_followed, rhs.items_eq, rhs.after_eq]
    exact all
  refine ⟨hall.items_eq, ?_, hall.after_eq⟩
  simp only [rhs.faults_eq, hall.faults_eq, List.map_append]

end Chains

private theorem ne_semicolon_of_joins {p : Phrase} (hs : c.Split blanks t rest)
    (joins : p.joins t.kind) : c.peek? ≠ some .semicolon := by
  rw [hs.peek?_eq]
  rintro he
  rw [Option.some.inj he] at joins
  cases p <;> cases joins

/-- What the parsers of operands make of tokens before a fence does not depend on what comes behind
it. The induction is on their recursion. -/
theorem operands_carry (n : Nat) (us : List Token) :
    (∀ c, c.Fenced us → Carries n us (factor c) (factor (c.followed n us))) ∧
      (∀ c, c.Fenced us → Carries n us (expr c) (expr (c.followed n us))) ∧
      (∀ lhs c, c.Fenced us → Carries n us (exprRest lhs c) (exprRest lhs (c.followed n us))) ∧
      (∀ c, c.Fenced us → Carries n us (term c) (term (c.followed n us))) ∧
      ∀ lhs c, c.Fenced us → Carries n us (termRest lhs c) (termRest lhs (c.followed n us)) := by
  apply factor.mutual_induct
  case case5 =>
    intro c hp ih h
    exact factor_carries h fun _ => ih (h.next (by simp [hp]))
  case case1 | case2 | case3 | case4 | case6 | case7 | case8 | case9 =>
    intro c hp h
    refine factor_carries h fun hp' => ?_
    rw [hp] at hp'
    cases hp'
  case case10 =>
    intro c kind _ _ _ _ hparen _ _ _ hp h
    refine factor_carries h fun hp' => ?_
    rw [hp] at hp'
    cases hp'
    exact absurd rfl hparen
  case case11 =>
    intro c first ih ih' _ h
    have hfirst := ih h.skipTrivia
    rw [← h.skipTrivia_followed] at hfirst
    have hfence : first.after.Fenced us := h.skipTrivia.of_takes (operands_take.2.2.2.1 _) rfl
    rw [expr, expr]
    exact hfirst.chain exprRest h (ih' hfence)
  case case12 =>
    intro lhs c hp rhs ih ih' _ h
    obtain ⟨blanks, t, rest, hs, ht⟩ := peek?_any hp
    have hp' : (c.followed n us).peek?.any joinsTerms = true := by rwa [h.peek?_followed]
    have hnext := h.next (ne_semicolon_of_joins (p := .expr) hs ht)
    have hrhs := ih hnext
    rw [← hs.next_followed] at hrhs
    have hfence : rhs.after.Fenced us := hnext.of_takes (operands_take.2.2.2.1 _) rfl
    rw [exprRest, dif_pos hp, exprRest, dif_pos hp']
    exact hrhs.join exprRest hs lhs (ih' hfence)
  case case13 =>
    intro lhs c hp h
    have hp' : ¬ (c.followed n us).peek?.any joinsTerms = true := by rwa [h.peek?_followed]
    rw [exprRest, dif_neg hp, exprRest, dif_neg hp']
    exact ⟨rfl, rfl, rfl⟩
  case case14 =>
    intro c first ih ih' _ h
    have hfirst := ih h.skipTrivia
    rw [← h.skipTrivia_followed] at hfirst
    have hfence : first.after.Fenced us := h.skipTrivia.of_takes (operands_take.1 _) rfl
    rw [term, term]
    exact hfirst.chain termRest h (ih' hfence)
  case case15 =>
    intro lhs c hp rhs ih ih' _ h
    obtain ⟨blanks, t, rest, hs, ht⟩ := peek?_any hp
    have hp' : (c.followed n us).peek?.any joinsFactors = true := by rwa [h.peek?_followed]
    have hnext := h.next (ne_semicolon_of_joins (p := .term) hs ht)
    have hrhs := ih hnext
    rw [← hs.next_followed] at hrhs
    have hfence : rhs.after.Fenced us := hnext.of_takes (operands_take.1 _) rfl
    rw [termRest, dif_pos hp, termRest, dif_pos hp']
    exact hrhs.join termRest hs lhs (ih' hfence)
  case case16 =>
    intro lhs c hp h
    have hp' : ¬ (c.followed n us).peek?.any joinsFactors = true := by rwa [h.peek?_followed]
    rw [termRest, dif_neg hp, termRest, dif_neg hp']
    exact ⟨rfl, rfl, rfl⟩

private theorem closedExpr_carries (h : c.Fenced us) (n : Nat) :
    Carries n us (closedExpr c) (closedExpr (c.followed n us)) := by
  have hinner := (operands_carry n us).2.1 c h
  have hclose := carries_expect (h.of_takes (expr_takes c) rfl) n .semicolon "expected ';'"
  rw [← hinner.after_eq] at hclose
  refine ⟨?_, ?_, hclose.after_eq⟩
  · simp only [closedExpr, hinner.items_eq, hclose.items_eq]
  · simp only [closedExpr, hinner.faults_eq, hclose.faults_eq, List.map_append]

/-! ## Statements -/

private theorem exprStatement_carries (h : c.Fenced us) (n : Nat) :
    Carries n us (exprStatement c) (exprStatement (c.followed n us)) := by
  have hinner := closedExpr_carries h n
  refine ⟨?_, hinner.faults_eq, hinner.after_eq⟩
  simp only [exprStatement, hinner.items_eq]

private theorem assignment_carries (h : c.Fenced us) (n : Nat) (hp : c.peek? = some .ident)
    (hp' : c.next.peek? = some .equals) :
    Carries n us (assignment c) (assignment (c.followed n us)) := by
  obtain ⟨_, _, _, hs, -⟩ := exists_split hp
  obtain ⟨_, _, _, hs', -⟩ := exists_split hp'
  have hfence : c.next.next.Fenced us := (h.next (by simp [hp])).next (by simp [hp'])
  have hvalue := closedExpr_carries hfence n
  rw [← hs'.next_followed, ← hs.next_followed] at hvalue
  refine ⟨?_, hvalue.faults_eq, hvalue.after_eq⟩
  have hleaves := hs'.leaves_followed n us
  rw [← hs.next_followed] at hleaves
  simp only [assignment, hs.leaves_followed, hleaves, hvalue.items_eq]

private theorem templateStatement_carries (h : c.Fenced us) (n : Nat)
    (hp : c.peek? = some .template) :
    Carries n us (templateStatement c) (templateStatement (c.followed n us)) := by
  obtain ⟨_, _, _, hs, -⟩ := exists_split hp
  have hpeek := (h.next (by simp [hp])).peek?_followed n
  rw [← hs.next_followed] at hpeek
  by_cases hp' : c.next.peek? = some .semicolon
  · obtain ⟨_, _, _, hs', -⟩ := exists_split hp'
    have hleaves := hs'.leaves_followed n us
    have hnext := hs'.next_followed n us
    rw [← hs.next_followed] at hleaves hnext
    rw [templateStatement, if_pos hp', templateStatement, if_pos (hpeek.trans hp')]
    refine ⟨?_, rfl, hnext⟩
    simp only [hs.leaves_followed, hleaves]
  · rw [templateStatement, if_neg hp', templateStatement, if_neg (by rwa [hpeek])]
    refine ⟨?_, rfl, hs.next_followed n us⟩
    simp only [hs.leaves_followed]

private theorem emptyStatement_carries (hp : c.peek? = some .semicolon) (n : Nat)
    (us : List Token) : Carries n us (emptyStatement c) (emptyStatement (c.followed n us)) := by
  obtain ⟨_, _, _, hs, -⟩ := exists_split hp
  refine ⟨?_, rfl, hs.next_followed n us⟩
  simp only [emptyStatement, hs.leaves_followed]
  rfl

private theorem statement_carries (h : c.Fenced us) (n : Nat) :
    Carries n us (statement c) (statement (c.followed n us)) := by
  by_cases hsemicolon : c.peek? = some .semicolon
  · have hp' := (h.peek?_followed n).trans hsemicolon
    unfold statement
    rw [hsemicolon, hp']
    exact emptyStatement_carries hsemicolon n us
  unfold statement
  rw [h.peek?_followed, h.peekSecond?_followed hsemicolon]
  split
  · rename_i hp hp'
    exact assignment_carries h n hp ((next_peek?_eq c).trans hp')
  · rename_i hp
    split
    · exact exprStatement_carries h n
    · exact templateStatement_carries h n hp
  · exact absurd ‹_› hsemicolon
  · exact exprStatement_carries h n

private theorem statementOrToken_carries (h : c.Fenced us) (n : Nat) (hp : c.peek? ≠ none) :
    Carries n us (statementOrToken c) (statementOrToken (c.followed n us)) := by
  have hs := statement_carries h n
  -- Progress is judged by what is left, and behind both cursors `us` is left over.
  have hlength : (statement (c.followed n us)).after.rest.length < (c.followed n us).rest.length ↔
      (statement c).after.rest.length < c.rest.length := by
    rw [hs.after_eq]
    simp [followed]
  unfold statementOrToken
  simp only [hlength]
  split
  · exact hs
  · rename_i hlt
    have hrest : (statement c).after.rest = c.rest :=
      (statement c).suffix.eq_of_length_le (Nat.le_of_not_lt hlt)
    obtain ⟨kind, hk⟩ := Option.ne_none_iff_exists'.1 hp
    have hpeek : (statement c).after.peek? = some kind := by rw [← hk, peek?, hrest, peek?]
    obtain ⟨_, _, _, hsplit, -⟩ := exists_split hpeek
    have hu := carries_unexpected hsplit n us "unexpected token"
    rw [← hs.after_eq] at hu
    refine ⟨?_, ?_, hu.after_eq⟩
    · simp only [hs.items_eq, hu.items_eq]
    · simp only [hs.faults_eq, hu.faults_eq, List.map_append]

end Carries

theorem statements_nil (stop : Nat) :
    (statements ⟨[], stop⟩).items = [] ∧ (statements ⟨[], stop⟩).faults = [] := by
  have hp : (⟨[], stop⟩ : Cursor).peek? = none := rfl
  rw [statements, dif_pos hp]
  exact ⟨rfl, rfl⟩

/-- Statements that end with a semicolon do not depend on what comes behind them, and what comes
behind them is parsed as from the start. -/
theorem statements_followed (n : Nat) {us : List Token} {c : Cursor} (h : us = [] ∨ Closed c.rest) :
    (statements (c.followed n us)).items = (statements c).items ++
        (statements ⟨us, (statements c).after.lastStop + n⟩).items ∧
      (statements (c.followed n us)).faults = (statements c).faults.map (Diagnostic.moved n) ++
        (statements ⟨us, (statements c).after.lastStop + n⟩).faults := by
  fun_induction statements c with
  -- The end is reached just before `us`. With no token in front `us` is parsed from the start, and
  -- with some left that are all trivia `us` is empty.
  | case1 c hp =>
    by_cases hnil : c.rest = []
    · have hbehind : c.followed n us = ⟨us, c.skipTrivia.lastStop + n⟩ := by
        simp [Cursor.followed, Cursor.skipTrivia, hnil]
      have htrivia : c.trivia = [] := by simp [Cursor.trivia, hnil]
      rw [hbehind, htrivia]
      exact ⟨rfl, rfl⟩
    · have hfence : c.Fenced us := h.imp id fun hclosed => ⟨hnil, hclosed⟩
      have hus := hfence.eq_nil hp
      have hp' : (c.followed n us).peek? = none := by rwa [hfence.peek?_followed]
      rw [statements, dif_pos hp', hus, (statements_nil _).1, (statements_nil _).2, ← hus]
      constructor
      · simp only [hfence.trivia_followed, List.append_nil]
      · rfl
  | case2 c hp s later ih =>
    have hne : c.rest ≠ [] := by
      rintro hnil
      exact hp (by simp [Cursor.peek?, hnil])
    have hfence : c.Fenced us := h.imp id fun hclosed => ⟨hne, hclosed⟩
    have hs := statementOrToken_carries hfence.skipTrivia n (by simpa using hp)
    rw [← hfence.skipTrivia_followed] at hs
    have hp' : ¬ (c.followed n us).peek? = none := by rwa [hfence.peek?_followed]
    have hsuffix := s.suffix.trans c.skipTrivia_suffix
    have hlater := ih (h.imp id fun hclosed => hclosed.of_suffix hsuffix)
    rw [← hs.after_eq] at hlater
    rw [statements, dif_neg hp']
    constructor
    · simp only [hfence.trivia_followed, hs.items_eq, hlater.1, List.append_assoc, s, later]
    · simp only [hs.faults_eq, hlater.2, List.map_append, List.append_assoc, s, later]

end SourceModel.Calc
