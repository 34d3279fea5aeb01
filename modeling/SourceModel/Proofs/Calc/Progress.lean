import SourceModel.Proofs.Calc.SourceOrder

/-!
# Progress of the parser

An operand takes nothing just before a semicolon, a closing parenthesis and the end, and a statement
that is begun takes nothing just before a closing parenthesis, which the loop over the statements
then takes itself. So each turn of the loop takes a significant token, and there are at most as many
turns as significant tokens. Among what is reported, each unknown token has one fault.
-/

namespace SourceModel.Calc

namespace Cursor

/-- Whether there is only trivia between two cursors. -/
def Skims (c a : Cursor) : Prop :=
  ∃ blanks, c.rest = blanks ++ a.rest ∧ ∀ b ∈ blanks, b.isTrivia

/-- Whether there is a significant token between two cursors. -/
def Advances (c a : Cursor) : Prop := ∃ ts, c.rest = ts ++ a.rest ∧ ∃ t ∈ ts, ¬ t.isTrivia

section Steps

variable {c a : Cursor}

private theorem Skims.refl (c : Cursor) : c.Skims c := ⟨[], rfl, List.forall_mem_nil _⟩

private theorem skims_skipTrivia (c : Cursor) : c.Skims c.skipTrivia := by
  obtain ⟨blanks, hb, hr, -⟩ := c.exists_trivia
  exact ⟨blanks, hr, hb⟩

private theorem Skims.kinds_eq (h : c.Skims a) : a.kinds = c.kinds := by
  obtain ⟨blanks, hr, hb⟩ := h
  rw [kinds, kinds, hr, significantKinds_append, significantKinds_trivia hb, List.nil_append]

private theorem Advances.kinds_length_lt (h : c.Advances a) : a.kinds.length < c.kinds.length := by
  obtain ⟨ts, hr, t, ht, hs⟩ := h
  have hmem : t.kind ∈ significantKinds ts :=
    List.mem_map_of_mem (List.mem_filter.2 ⟨ht, by simpa using hs⟩)
  have hpos := List.length_pos_of_mem hmem
  rw [kinds, kinds, hr, significantKinds_append, List.length_append]
  omega

private theorem Skims.not_advances (h : c.Skims a) : ¬ c.Advances a :=
  fun h' => Nat.ne_of_lt h'.kinds_length_lt (congrArg List.length h.kinds_eq)

private theorem Skims.rest_eq (h : c.skipTrivia.Skims a) (hp : c.peek? ≠ none) :
    a.rest = c.skipTrivia.rest := by
  obtain ⟨blanks, hr, hb⟩ := h
  obtain ⟨kind, hk⟩ := Option.ne_none_iff_exists'.1 hp
  obtain ⟨_, t, rest, hs, -⟩ := exists_split hk
  cases blanks with
  | nil => exact hr.symm
  | cons u blanks =>
    rw [hs.skipTrivia_eq] at hr
    have hu : u = t := (List.cons.inj hr).1.symm
    exact absurd (hu ▸ hb u List.mem_cons_self) hs.significant

private theorem advances_of_suffix_next (hp : c.peek? ≠ none) (h : a.rest <:+ c.next.rest) :
    c.Advances a := by
  obtain ⟨kind, hk⟩ := Option.ne_none_iff_exists'.1 hp
  obtain ⟨blanks, t, rest, hs, -⟩ := exists_split hk
  obtain ⟨ts, hr⟩ := h
  rw [hs.next_eq] at hr
  change ts ++ a.rest = rest at hr
  refine ⟨blanks ++ t :: ts, ?_, t, by simp, hs.significant⟩
  rw [hs.rest_eq, ← hr, List.append_assoc, List.cons_append]

end Steps

end Cursor

/-! ## Operands and statements -/

/-- A parser takes significant tokens except before those of certain kinds and at the end. -/
structure StallsBefore (stops : TokenKind → Bool) (parser : (c : Cursor) → Parsed c) : Prop where
  forward (c : Cursor) : (parser c).after.rest <:+ c.rest
  skims_iff (c : Cursor) : c.Skims (parser c).after ↔ c.peek?.all stops
  advances_iff (c : Cursor) : c.Advances (parser c).after ↔ c.peek?.all stops = false

section Parsers

variable {c : Cursor}

private theorem StallsBefore.of_suffix_next {stops : TokenKind → Bool}
    {parser : (c : Cursor) → Parsed c}
    (stalls : ∀ c : Cursor, c.peek?.all stops → c.Skims (parser c).after)
    (takes : ∀ (c : Cursor) (kind : TokenKind), c.peek? = some kind → stops kind = false →
      (parser c).after.rest <:+ c.next.rest) : StallsBefore stops parser := by
  have advances : ∀ c : Cursor, c.peek?.all stops = false → c.Advances (parser c).after := by
    intro c h
    cases hp : c.peek? with
    | none => simp [hp] at h
    | some kind =>
      have hkind : stops kind = false := by simpa [hp] using h
      exact Cursor.advances_of_suffix_next (by simp [hp]) (takes c kind hp hkind)
  refine ⟨fun c => (parser c).suffix, fun c => ⟨fun hskims => ?_, stalls c⟩,
    fun c => ⟨fun hadvances => ?_, advances c⟩⟩
  · exact Bool.of_not_eq_false fun h => hskims.not_advances (advances c h)
  · exact Bool.eq_false_iff.2 fun h => (stalls c h).not_advances hadvances

private theorem any_joins_of_closing {o : Option TokenKind} (h : o.all TokenKind.isClosing) :
    o.any joinsFactors = false ∧ o.any joinsTerms = false := by
  cases o with
  | none => exact ⟨rfl, rfl⟩
  | some kind => cases kind <;> first | exact ⟨rfl, rfl⟩ | cases h

private theorem factor_after_of_closing (h : c.peek?.all TokenKind.isClosing) :
    (factor c).after = c := by
  rw [factor]
  cases hp : c.peek? with
  | none => rfl
  | some kind =>
    rw [hp] at h
    cases kind <;> first | rfl | cases h

private theorem term_after_of_closing (h : c.peek?.all TokenKind.isClosing) :
    (term c).after = c.skipTrivia := by
  have hs : c.skipTrivia.peek?.all TokenKind.isClosing := by rwa [Cursor.peek?_skipTrivia]
  have hf := factor_after_of_closing hs
  have hend : ¬ (factor c.skipTrivia).after.peek?.any joinsFactors = true := by
    rw [hf, (any_joins_of_closing hs).1]
    exact Bool.false_ne_true
  rw [term]
  simp only
  rw [termRest, dif_neg hend, hf]

private theorem expr_after_of_closing (h : c.peek?.all TokenKind.isClosing) :
    (expr c).after = c.skipTrivia := by
  have hs : c.skipTrivia.peek?.all TokenKind.isClosing := by rwa [Cursor.peek?_skipTrivia]
  have ht := term_after_of_closing hs
  rw [Cursor.skipTrivia_skipTrivia] at ht
  have hend : ¬ (term c.skipTrivia).after.peek?.any joinsTerms = true := by
    rw [ht, (any_joins_of_closing hs).2]
    exact Bool.false_ne_true
  rw [expr]
  simp only
  rw [exprRest, dif_neg hend, ht]

private theorem factor_stalls : StallsBefore TokenKind.isClosing factor :=
  .of_suffix_next (fun c h => (factor_after_of_closing h).symm ▸ Cursor.Skims.refl c)
    fun _ _ => factor_suffix_next

private theorem term_stalls : StallsBefore TokenKind.isClosing term :=
  .of_suffix_next (fun c h => (term_after_of_closing h).symm ▸ c.skims_skipTrivia)
    fun _ _ => term_suffix_next

private theorem expr_stalls : StallsBefore TokenKind.isClosing expr :=
  .of_suffix_next (fun c h => (expr_after_of_closing h).symm ▸ c.skims_skipTrivia)
    fun _ _ => expr_suffix_next

private theorem statement_eq_of_stops (h : c.peek?.all (· == .closeParen)) :
    statement c = exprStatement c := by
  unfold statement
  cases hp : c.peek? with
  | none => rfl
  | some kind =>
    rw [hp] at h
    cases kind <;> first | rfl | cases h

private theorem statement_after_of_stops (h : c.peek?.all (· == .closeParen)) :
    (statement c).after = c.skipTrivia := by
  have hclosing : c.peek?.all TokenKind.isClosing := by
    refine all_of_imp (fun kind hk => ?_) h
    rw [beq_iff_eq.1 hk]
    rfl
  have hafter := expr_after_of_closing hclosing
  have hend : (expr c).after.peek? ≠ some .semicolon := by
    rw [hafter, Cursor.peek?_skipTrivia]
    intro hp
    rw [hp] at h
    cases h
  rw [statement_eq_of_stops h, exprStatement, closedExpr]
  simp only
  rw [Parsed.expect, if_neg hend]
  exact hafter

private theorem statement_stalls : StallsBefore (· == .closeParen) statement :=
  .of_suffix_next (fun c h => (statement_after_of_stops h).symm ▸ c.skims_skipTrivia)
    fun _ _ hp hk => statement_suffix_next hp (by simpa using hk)

private theorem statement_stays_iff (hp : c.peek? ≠ none) :
    (statement c.skipTrivia).after.rest = c.skipTrivia.rest ↔ c.peek? = some .closeParen := by
  have hstops : c.skipTrivia.peek?.all (· == .closeParen) ↔ c.peek? = some .closeParen := by
    obtain ⟨kind, hk⟩ := Option.ne_none_iff_exists'.1 hp
    simp [hk]
  rw [← hstops, ← statement_stalls.skims_iff]
  constructor
  · intro hr
    exact ⟨[], hr.symm, List.forall_mem_nil _⟩
  · intro hskims
    exact hskims.rest_eq hp

/-! ## The loop over the statements -/

private theorem statementOrToken_of_ne (hp : c.peek? ≠ none) (h : c.peek? ≠ some .closeParen) :
    statementOrToken c = statement c := by
  obtain ⟨kind, hk⟩ := Option.ne_none_iff_exists'.1 hp
  have hne : kind ≠ .closeParen := fun he => h (hk.trans (congrArg some he))
  have hlt := Nat.lt_of_le_of_lt (statement_suffix_next hk hne).length_le (Cursor.next_length_lt hp)
  rw [statementOrToken]
  simp only
  rw [if_pos hlt]

private theorem statementOrToken_closeParen {blanks rest : List Token} {t : Token}
    (hs : c.Split blanks t rest) (ht : t.kind = .closeParen) :
    (statementOrToken c.skipTrivia).items =
        (statement c.skipTrivia).items ++ [.node .error [t.leaf]] ∧
      (statementOrToken c.skipTrivia).faults =
        (statement c.skipTrivia).faults ++ [⟨.grammar, "unexpected token", t.start, t.stop⟩] ∧
      (statementOrToken c.skipTrivia).after = c.next := by
  have hk : c.peek? = some .closeParen := by rw [hs.peek?_eq, ht]
  have hstays := (statement_stays_iff (by simp [hk])).2 hk
  have hafter : (statement c.skipTrivia).after = c.skipTrivia := by
    rw [statement_after_of_stops (by simp [hk]), Cursor.skipTrivia_skipTrivia]
  have hs' : (statement c.skipTrivia).after.Split [] t rest := by
    rw [hafter]
    exact hs.skipTrivia_split
  obtain ⟨hi, hf, ha⟩ := unexpected_eq "unexpected token" hs'
  have hshown : rejection "unexpected token" t = "unexpected token" := by
    rw [rejection, ht, if_neg (by decide)]
  rw [statementOrToken]
  simp only
  rw [if_neg (by rw [hstays]; exact Nat.lt_irrefl _)]
  refine ⟨?_, ?_, ?_⟩
  · rw [hi]
    rfl
  · rw [hf, hshown]
  · rw [ha, hafter, Cursor.next_skipTrivia]

private theorem turn_advances (hp : c.peek? ≠ none) :
    c.Advances (statementOrToken c.skipTrivia).after := by
  refine Cursor.advances_of_suffix_next hp ?_
  obtain ⟨kind, hk⟩ := Option.ne_none_iff_exists'.1 hp
  obtain ⟨blanks, t, rest, hs, ht⟩ := Cursor.exists_split hk
  by_cases hparen : kind = .closeParen
  · have hafter := (statementOrToken_closeParen hs (ht.trans hparen)).2.2
    exact ⟨[], congrArg Cursor.rest hafter⟩
  · have hk' : c.skipTrivia.peek? = some kind := by simpa using hk
    rw [statementOrToken_of_ne (by simp [hk']) (by simpa [hk'] using hparen),
      ← Cursor.next_skipTrivia]
    exact statement_suffix_next hk' hparen

end Parsers

/-- The loop over the statements goes from a cursor to another one in a number of turns. -/
inductive Turns : Nat → Cursor → Cursor → Prop where
  | refl (c : Cursor) : Turns 0 c c
  | turn {n : Nat} {c d : Cursor} (more : c.peek? ≠ none) :
      Turns n (statementOrToken c.skipTrivia).after d → Turns (n + 1) c d

/-- There are no more turns than significant tokens are taken. The induction is on the turns. -/
theorem Turns.length_le {n : Nat} {c d : Cursor} (h : Turns n c d) :
    n + d.kinds.length ≤ c.kinds.length := by
  induction h with
  | refl c => exact Nat.le_of_eq (Nat.zero_add _)
  | turn more _ ih =>
    have hlt := (turn_advances more).kinds_length_lt
    omega

/-- The loop comes to the end of the tokens, where the parser of programs does. -/
theorem exists_turns (c : Cursor) :
    ∃ n d, Turns n c d ∧ d.peek? = none ∧ (statements c).after = d.skipTrivia := by
  fun_induction statements c with
  | case1 c h => exact ⟨0, c, .refl c, h, rfl⟩
  | case2 c h s later ih =>
    obtain ⟨n, d, hturns, hend, hafter⟩ := ih
    exact ⟨n + 1, d, .turn h hturns, hend, hafter⟩

/-! ## Unknown tokens -/

def Token.span (t : Token) : Nat × Nat := (t.start, t.stop)

def Diagnostic.span (f : Diagnostic) : Nat × Nat := (f.start, f.stop)

/-- Whether the faults are about tokens, each about one and in their order, with every unknown token
among them. Faults about something missing are empty and are left aside. -/
def Rejects (ts : List Token) (fs : List Diagnostic) : Prop :=
  ∃ us : List Token, us.Sublist ts ∧ (∀ t ∈ ts, t.kind = .unknown → t ∈ us) ∧
    (fs.filter fun f => f.start < f.stop).map Diagnostic.span = us.map Token.span

section Rejects

variable {ts us : List Token} {fs gs : List Diagnostic} {t : Token}

private theorem Rejects.append (h : Rejects ts fs) (h' : Rejects us gs) :
    Rejects (ts ++ us) (fs ++ gs) := by
  obtain ⟨vs, hsub, hmem, hspans⟩ := h
  obtain ⟨ws, hsub', hmem', hspans'⟩ := h'
  refine ⟨vs ++ ws, hsub.append hsub', ?_, ?_⟩
  · intro t ht hk
    rcases List.mem_append.1 ht with ht | ht
    · exact List.mem_append_left _ (hmem t ht hk)
    · exact List.mem_append_right _ (hmem' t ht hk)
  · rw [List.filter_append, List.map_append, List.map_append, hspans, hspans']

private theorem rejects_nil (h : ∀ t ∈ ts, t.kind ≠ .unknown) : Rejects ts [] :=
  ⟨[], List.nil_sublist _, fun t ht hk => absurd hk (h t ht), rfl⟩

private theorem rejects_missing (message : String) (stop : Nat) :
    Rejects [] [⟨.grammar, message, stop, stop⟩] :=
  ⟨[], .slnil, fun _ ht => absurd ht List.not_mem_nil, by simp⟩

private theorem rejects_single (message : String) (ht : t.start < t.stop) :
    Rejects [t] [⟨.grammar, message, t.start, t.stop⟩] :=
  ⟨[t], .refl _, fun _ hu _ => hu, by simp [ht, Diagnostic.span, Token.span]⟩

private theorem rejects_trivia (h : ∀ t ∈ ts, t.isTrivia) : Rejects ts [] := by
  refine rejects_nil fun t ht hk => ?_
  have htrivia := h t ht
  rw [Token.isTrivia, hk] at htrivia
  cases htrivia

private theorem rejects_known {kind : TokenKind} (h : t.kind = kind) (hk : kind ≠ .unknown) :
    Rejects [t] [] :=
  rejects_nil (List.forall_mem_singleton.2 (h ▸ hk))

/-- A reading reports the tokens that it rejects, each once and in order. -/
theorem Reads.rejects {p : Phrase} {stop : Nat} {is : List Cst} (h : Reads p stop ts is fs)
    (hts : ∀ t ∈ ts, t.start < t.stop) : Rejects ts fs := by
  induction h with
  | skip blank _ ih =>
    exact (rejects_trivia blank).append (ih (List.forall_mem_append.1 hts).2)
  | literal kind =>
    rcases kind with kind | kind <;> exact rejects_known kind (by decide)
  | nameRef kind | template kind => exact rejects_known kind (by decide)
  | paren kind _ _ ih ih' =>
    obtain ⟨-, hrest⟩ := List.forall_mem_cons.1 hts
    obtain ⟨hts, hus⟩ := List.forall_mem_append.1 hrest
    exact (rejects_known kind (by decide)).append ((ih hts).append (ih' hus))
  | lacking | missing => exact rejects_missing _ _
  | misplaced message kind => exact rejects_single _ (hts _ (List.mem_singleton_self _))
  | lift _ _ ih => exact ih hts
  | @join p _ _ _ _ o _ _ _ _ blank joins _ _ ih ih' =>
    obtain ⟨hts, hrest⟩ := List.forall_mem_append.1 hts
    obtain ⟨-, hlater⟩ := List.forall_mem_append.1 hrest
    obtain ⟨-, hus⟩ := List.forall_mem_cons.1 hlater
    have ho : o.kind ≠ .unknown := by
      intro hk
      rw [hk] at joins
      cases p <;> cases joins
    exact (ih hts).append ((rejects_trivia blank).append ((rejects_known rfl ho).append (ih' hus)))
  | found blank closing same =>
    refine (rejects_trivia blank).append (rejects_known same ?_)
    rcases closing with rfl | rfl <;> decide
  | assignment blank blank' kind kind' _ _ ih ih' =>
    obtain ⟨-, hrest⟩ := List.forall_mem_append.1 hts
    obtain ⟨-, hlater⟩ := List.forall_mem_cons.1 hrest
    obtain ⟨-, hvalue⟩ := List.forall_mem_append.1 hlater
    obtain ⟨-, hvalue⟩ := List.forall_mem_cons.1 hvalue
    obtain ⟨hts, hus⟩ := List.forall_mem_append.1 hvalue
    exact (rejects_trivia blank).append ((rejects_known kind (by decide)).append
      ((rejects_trivia blank').append ((rejects_known kind' (by decide)).append
        ((ih hts).append (ih' hus)))))
  | chunk blank kind => exact (rejects_trivia blank).append (rejects_known kind (by decide))
  | closedChunk blank blank' kind kind' =>
    exact (rejects_trivia blank).append ((rejects_known kind (by decide)).append
      ((rejects_trivia blank').append (rejects_known kind' (by decide))))
  | empty blank kind =>
    exact (rejects_missing _ _).append
      ((rejects_trivia blank).append (rejects_known kind (by decide)))
  | value _ _ ih ih' =>
    obtain ⟨hts, hus⟩ := List.forall_mem_append.1 hts
    exact (ih hts).append (ih' hus)
  | stray blank kind _ ih =>
    obtain ⟨-, ht⟩ := List.forall_mem_append.1 hts
    exact (ih (List.forall_mem_nil _)).append
      ((rejects_trivia blank).append (rejects_single _ (ht _ (List.mem_singleton_self _))))
  | done blank => exact rejects_trivia blank
  | later _ _ _ ih ih' =>
    obtain ⟨hts, hus⟩ := List.forall_mem_append.1 hts
    exact (ih hts).append (ih' hus)

private theorem Tiles.nodup_spans {lo hi : Nat} (h : Tiles lo hi ts) :
    (ts.map Token.span).Nodup := by
  refine List.pairwise_map.2 (h.pairwise.imp_of_mem fun ht _ hbefore heq => ?_)
  have hstart := (Prod.mk.inj heq).1
  have hlt := (h.mem ht).2.1
  omega

private theorem Rejects.filter_span {lo hi : Nat} (h : Rejects ts fs) (hts : Tiles lo hi ts)
    (ht : t ∈ ts) (hk : t.kind = .unknown) : ∃ f, fs.filter (·.span = t.span) = [f] := by
  obtain ⟨us, hsub, hmem, hspans⟩ := h
  have hnodup : (us.map Token.span).Nodup := hts.nodup_spans.sublist (hsub.map _)
  have hone : ((fs.filter fun f => f.start < f.stop).map Diagnostic.span).count t.span = 1 := by
    rw [hspans]
    exact List.count_eq_one_of_mem hnodup (List.mem_map_of_mem (hmem t ht hk))
  have hlt := (hts.mem ht).2.1
  have hsame : ∀ f : Diagnostic, f.span = t.span → f.start < f.stop := by
    intro f hf
    obtain ⟨hstart, hstop⟩ := Prod.mk.inj hf
    omega
  rw [List.count, List.countP_map, List.countP_filter, List.countP_eq_length_filter] at hone
  refine List.length_eq_one_iff.1 (hone ▸ congrArg List.length (List.filter_congr fun f _ => ?_))
  simp only [Function.comp_apply]
  by_cases hf : f.span = t.span
  · simp [hf, hsame f hf]
  · simp [hf]

end Rejects

private theorem span_lexicalFaults {source : String} {f : Diagnostic} {t : Token}
    (hf : f ∈ lexicalFaults source) (ht : t ∈ (lex source).tokens) (hk : t.kind = .unknown) :
    f.span ≠ t.span := by
  intro heq
  obtain ⟨hstart, hstop⟩ := Prod.mk.inj heq
  have hkept := (List.mem_filter.1 hf).2
  have hany : isUnknownAmong (lex source).tokens f = true :=
    List.any_eq_true.2 ⟨t, ht, by simp [hk, hstart, hstop]⟩
  rw [hany] at hkept
  cases hkept

/-- Each unknown token of a text is reported once, as a fault of the grammar. -/
theorem faults_unknown {source : String} {t : Token} (ht : t ∈ (lex source).tokens)
    (hk : t.kind = .unknown) :
    ∃ f, (parse source).faults.filter (·.span = t.span) = [f] ∧ f.origin = .grammar := by
  have hreads := statements_reads (lex source).tokens
  have htiles := tiles_lex source
  obtain ⟨f, hf⟩ := (hreads.rejects fun u hu => (htiles.mem hu).2.1).filter_span htiles ht hk
  have hlexical : (lexicalFaults source).filter (·.span = t.span) = [] :=
    List.filter_eq_nil_iff.2 fun g hg => by simpa using span_lexicalFaults hg ht hk
  refine ⟨f, ?_, hreads.origin_eq f (List.mem_of_mem_filter (hf ▸ List.mem_singleton_self f))⟩
  rw [faults_parse, filter_sortOn, List.filter_append, hlexical, hf, List.nil_append]
  exact List.perm_singleton.1 (sortOn_perm _ _)

/-! ## Whatever the tokens are -/

structure Progresses : Prop where
  factors : StallsBefore TokenKind.isClosing factor
  terms : StallsBefore TokenKind.isClosing term
  exprs : StallsBefore TokenKind.isClosing expr
  begun : StallsBefore (· == .closeParen) statement
  stays (c : Cursor) : c.peek? ≠ none →
    ((statement c.skipTrivia).after.rest = c.skipTrivia.rest ↔ c.peek? = some .closeParen)
  /-- Before other tokens a turn of the loop is a statement and nothing else. -/
  whole (c : Cursor) : c.peek? ≠ none → c.peek? ≠ some .closeParen →
    statementOrToken c.skipTrivia = statement c.skipTrivia
  /-- Before a closing parenthesis a turn of the loop takes just this token, as a fault. -/
  swallows (c : Cursor) (blanks rest : List Token) (t : Token) : c.Split blanks t rest →
    t.kind = .closeParen →
    (statementOrToken c.skipTrivia).items =
        (statement c.skipTrivia).items ++ [.node .error [t.leaf]] ∧
      (statementOrToken c.skipTrivia).faults =
        (statement c.skipTrivia).faults ++ [⟨.grammar, "unexpected token", t.start, t.stop⟩] ∧
      (statementOrToken c.skipTrivia).after = c.next
  turn (c : Cursor) : c.peek? ≠ none → c.Advances (statementOrToken c.skipTrivia).after
  turns_le (n : Nat) (c d : Cursor) : Turns n c d → n + d.kinds.length ≤ c.kinds.length
  ends (c : Cursor) : ∃ n d, Turns n c d ∧ d.peek? = none ∧
    (statements c).after = d.skipTrivia ∧ (statements c).after.rest = []
  reads (ts : List Token) :
    Reads .program 0 ts (statements ⟨ts, 0⟩).items (statements ⟨ts, 0⟩).faults
  reports (source : String) : ∀ t ∈ (lex source).tokens, t.kind = .unknown →
    ∃ f, (parse source).faults.filter (·.span = t.span) = [f] ∧ f.origin = .grammar

/-- The parser gets through all tokens, a significant one at each turn of the loop over the
statements, and reports each unknown one once. -/
theorem progresses : Progresses where
  factors := factor_stalls
  terms := term_stalls
  exprs := expr_stalls
  begun := statement_stalls
  stays _ := statement_stays_iff
  whole _ hp h := statementOrToken_of_ne (by simpa using hp) (by simpa using h)
  swallows _ _ _ _ := statementOrToken_closeParen
  turn _ := turn_advances
  turns_le _ _ _ := Turns.length_le
  ends c := by
    obtain ⟨n, d, hturns, hend, hafter⟩ := exists_turns c
    exact ⟨n, d, hturns, hend, hafter, (statements_takes c).2⟩
  reads := statements_reads
  reports _ _ := faults_unknown

end SourceModel.Calc
