import SourceModel.Proofs.Calc.Cursor

/-!
# Readings

The relation `Reads` says how a phrase reads tokens: which items of the concrete tree it makes of
them and which faults it reports. It has one rule for each form of the grammar and one for each way
in which the parser recovers. The parser follows it: `statements_reads` gives a reading of all the
tokens.
-/

namespace SourceModel.Calc

/-- What the parser reads at one place. -/
inductive Phrase where
  | factor
  | term
  | expr
  | closing (kind : TokenKind) (message : String)
  | statement
  | program
deriving DecidableEq, Repr

namespace Phrase

/-- The phrase on both sides of an operator. -/
def operand : Phrase → Phrase
  | expr => term
  | _ => factor

def joins : Phrase → TokenKind → Bool
  | term, kind => joinsFactors kind
  | expr, kind => joinsTerms kind
  | _, _ => false

def isChain : Phrase → Bool
  | term | expr => true
  | _ => false

end Phrase

/-- Where the last significant token ends once `ts` are read, where `stop` is its place before. -/
def lastStop (stop : Nat) (ts : List Token) : Nat :=
  ts.foldl (fun stop t => if t.isTrivia then stop else t.stop) stop

theorem lastStop_append (stop : Nat) (ts us : List Token) :
    lastStop stop (ts ++ us) = lastStop (lastStop stop ts) us := List.foldl_append

theorem lastStop_trivia {stop : Nat} {ts : List Token} (h : ∀ t ∈ ts, t.isTrivia) :
    lastStop stop ts = stop := by
  induction ts with
  | nil => rfl
  | cons t ts ih =>
    have ht : t.isTrivia = true := h t (by simp)
    simpa [lastStop, ht] using ih fun u hu => h u (by simp [hu])

theorem lastStop_cons {stop : Nat} {t : Token} {ts : List Token} (h : ¬ t.isTrivia) :
    lastStop stop (t :: ts) = lastStop t.stop ts := by
  simp [lastStop, h]

def rejection (message : String) (t : Token) : String :=
  if t.kind = .unknown then s!"{message} '{t.text}'" else message

/-- The kinds that cannot start an operand, the closing ones left aside. -/
def TokenKind.isMisplaced (kind : TokenKind) : Bool :=
  kind.isOperator || kind == .equals || kind == .unknown

theorem isTrivia_of_isMisplaced {kind : TokenKind} (h : kind.isMisplaced) :
    kind.isTrivia = false := by
  cases kind <;> first | rfl | cases h

theorem Phrase.isChain_of_joins {p : Phrase} {kind : TokenKind} (h : p.joins kind) :
    p.isChain := by
  cases p <;> first | rfl | cases h

theorem isTrivia_of_joins {p : Phrase} {kind : TokenKind} (joins : p.joins kind) :
    kind.isTrivia = false := by
  cases p <;> cases kind <;> first | rfl | cases joins

/-- `Reads phrase stop ts items faults`: behind a significant token that ends at `stop`, the phrase
reads the tokens `ts`, makes `items` of them and reports `faults`. -/
inductive Reads : Phrase → Nat → List Token → List Cst → List Diagnostic → Prop where
  | skip {p : Phrase} {stop : Nat} {blanks ts : List Token} {is : List Cst}
      {fs : List Diagnostic} (blank : ∀ b ∈ blanks, b.isTrivia) :
      Reads p stop ts is fs → Reads p stop (blanks ++ ts) (blanks.map Token.leaf ++ is) fs
  | literal {stop : Nat} {t : Token} (kind : t.kind = .number ∨ t.kind = .string) :
      Reads .factor stop [t] [.node .literal [t.leaf]] []
  | nameRef {stop : Nat} {t : Token} (kind : t.kind = .ident) :
      Reads .factor stop [t] [.node .nameRef [t.leaf]] []
  | template {stop : Nat} {t : Token} (kind : t.kind = .template) :
      Reads .factor stop [t] [.node .templateExpr [t.leaf]] []
  | paren {stop : Nat} {o : Token} {ts us : List Token} {is js : List Cst}
      {fs gs : List Diagnostic} (kind : o.kind = .openParen) :
      Reads .expr o.stop ts is fs →
      Reads (.closing .closeParen "expected ')'") (lastStop o.stop ts) us js gs →
      Reads .factor stop (o :: (ts ++ us)) [.node .paren (o.leaf :: (is ++ js))] (fs ++ gs)
  | lacking {stop : Nat} :
      Reads .factor stop [] [.node .error []] [⟨.grammar, "expected expression", stop, stop⟩]
  | misplaced {stop : Nat} {t : Token} (message : String) (kind : t.kind.isMisplaced) :
      Reads .factor stop [t] [.node .error [t.leaf]]
        [⟨.grammar, rejection message t, t.start, t.stop⟩]
  | lift {p : Phrase} {stop : Nat} {ts : List Token} {is : List Cst} {fs : List Diagnostic}
      (chain : p.isChain) : Reads p.operand stop ts is fs → Reads p stop ts is fs
  | join {p : Phrase} {stop : Nat} {ts blanks us : List Token} {o : Token} {is js : List Cst}
      {fs gs : List Diagnostic} (blank : ∀ b ∈ blanks, b.isTrivia) (joins : p.joins o.kind) :
      Reads p stop ts is fs → Reads p.operand o.stop us js gs →
      Reads p stop (ts ++ (blanks ++ o :: us))
        [.node .binary (is ++ (blanks ++ [o]).map Token.leaf ++ js)] (fs ++ gs)
  | found {kind : TokenKind} {message : String} {stop : Nat} {blanks : List Token} {t : Token}
      (blank : ∀ b ∈ blanks, b.isTrivia) (closing : kind = .closeParen ∨ kind = .semicolon)
      (same : t.kind = kind) :
      Reads (.closing kind message) stop (blanks ++ [t]) ((blanks ++ [t]).map Token.leaf) []
  | missing {kind : TokenKind} {message : String} {stop : Nat} :
      Reads (.closing kind message) stop [] [.node .error []] [⟨.grammar, message, stop, stop⟩]
  | assignment {stop : Nat} {blanks later ts us : List Token} {name eq : Token} {is js : List Cst}
      {fs gs : List Diagnostic} (blank : ∀ b ∈ blanks, b.isTrivia)
      (blank' : ∀ b ∈ later, b.isTrivia) (kind : name.kind = .ident) (kind' : eq.kind = .equals) :
      Reads .expr eq.stop ts is fs →
      Reads (.closing .semicolon "expected ';'") (lastStop eq.stop ts) us js gs →
      Reads .statement stop (blanks ++ name :: (later ++ eq :: (ts ++ us)))
        [.node .assignment ((blanks ++ [name]).map Token.leaf ++ (later ++ [eq]).map Token.leaf ++
          (is ++ js))] (fs ++ gs)
  | chunk {stop : Nat} {blanks : List Token} {t : Token} (blank : ∀ b ∈ blanks, b.isTrivia)
      (kind : t.kind = .template) :
      Reads .statement stop (blanks ++ [t])
        [.node .templateStatement ((blanks ++ [t]).map Token.leaf)] []
  | closedChunk {stop : Nat} {blanks later : List Token} {t s : Token}
      (blank : ∀ b ∈ blanks, b.isTrivia) (blank' : ∀ b ∈ later, b.isTrivia)
      (kind : t.kind = .template) (kind' : s.kind = .semicolon) :
      Reads .statement stop (blanks ++ t :: (later ++ [s]))
        [.node .templateStatement ((blanks ++ [t]).map Token.leaf ++ (later ++ [s]).map Token.leaf)]
        []
  | empty {stop : Nat} {blanks : List Token} {s : Token} (blank : ∀ b ∈ blanks, b.isTrivia)
      (kind : s.kind = .semicolon) :
      Reads .statement stop (blanks ++ [s])
        [.node .exprStatement (.node .error [] :: (blanks ++ [s]).map Token.leaf)]
        [⟨.grammar, "expected expression", stop, stop⟩]
  | value {stop : Nat} {ts us : List Token} {is js : List Cst} {fs gs : List Diagnostic} :
      Reads .expr stop ts is fs →
      Reads (.closing .semicolon "expected ';'") (lastStop stop ts) us js gs →
      Reads .statement stop (ts ++ us) [.node .exprStatement (is ++ js)] (fs ++ gs)
  | stray {stop : Nat} {blanks : List Token} {t : Token} {is : List Cst} {fs : List Diagnostic}
      (blank : ∀ b ∈ blanks, b.isTrivia) (kind : t.kind = .closeParen) :
      Reads .statement stop [] is fs →
      Reads .statement stop (blanks ++ [t])
        (is ++ (blanks.map Token.leaf ++ [.node .error [t.leaf]]))
        (fs ++ [⟨.grammar, rejection "unexpected token" t, t.start, t.stop⟩])
  | done {stop : Nat} {blanks : List Token} (blank : ∀ b ∈ blanks, b.isTrivia) :
      Reads .program stop blanks (blanks.map Token.leaf) []
  | later {stop : Nat} {ts us : List Token} {is js : List Cst} {fs gs : List Diagnostic}
      (progress : ts ≠ []) :
      Reads .statement stop ts is fs → Reads .program (lastStop stop ts) us js gs →
      Reads .program stop (ts ++ us) (is ++ js) (fs ++ gs)

/-- A phrase reads what lies between two cursors. -/
def Takes (p : Phrase) (c : Cursor) (items : List Cst) (faults : List Diagnostic)
    (after : Cursor) : Prop :=
  ∃ ts, c.rest = ts ++ after.rest ∧ after.lastStop = lastStop c.lastStop ts ∧
    Reads p c.lastStop ts items faults

/-- A phrase of which `lhs` is already read goes on from one cursor to another. -/
def Resumes (p : Phrase) (lhs : List Cst) (c : Cursor) (items : List Cst)
    (faults : List Diagnostic) (after : Cursor) : Prop :=
  ∀ stop ts fs, Reads p stop ts lhs fs → lastStop stop ts = c.lastStop →
    ∃ us, c.rest = us ++ after.rest ∧ after.lastStop = lastStop c.lastStop us ∧
      Reads p stop (ts ++ us) items (fs ++ faults)

section Steps

variable {p : Phrase} {c a b : Cursor} {is js lhs : List Cst} {fs gs : List Diagnostic}
  {blanks rest : List Token} {t : Token}

private theorem Takes.skipTrivia (h : Takes p c.skipTrivia is fs a) :
    Takes p c (c.trivia ++ is) fs a := by
  obtain ⟨ts, hr, hl, h⟩ := h
  obtain ⟨blanks, hb, hc, ht⟩ := c.exists_trivia
  refine ⟨blanks ++ ts, ?_, ?_, ?_⟩
  · rw [hc, hr, List.append_assoc]
  · rw [lastStop_append, lastStop_trivia hb]
    exact hl
  · rw [ht]
    exact .skip hb h

private theorem Takes.chain (hp : p.isChain) (first : Takes p.operand c is fs a)
    (all : Resumes p is a js gs b) : Takes p c js (fs ++ gs) b := by
  obtain ⟨ts, hr, hl, h⟩ := first
  obtain ⟨us, hr', hl', h'⟩ := all c.lastStop ts fs (.lift hp h) hl.symm
  refine ⟨ts ++ us, ?_, ?_, h'⟩
  · rw [hr, hr', List.append_assoc]
  · rw [lastStop_append, ← hl, hl']

private theorem Resumes.refl : Resumes p lhs c lhs [] c := by
  intro stop ts fs h _
  refine ⟨[], rfl, rfl, ?_⟩
  simpa using h

private theorem Resumes.join (hs : c.Split blanks t rest) (hj : p.joins t.kind)
    (rhs : Takes p.operand c.next is fs a)
    (all : Resumes p [.node .binary (lhs ++ c.leaves ++ is)] a js gs b) :
    Resumes p lhs c js (fs ++ gs) b := by
  intro stop ts fs' h hl
  rw [hs.next_eq] at rhs
  rw [hs.leaves_eq] at all
  obtain ⟨us, hr, hu, h'⟩ := rhs
  change rest = us ++ a.rest at hr
  have hlast : lastStop stop (ts ++ (blanks ++ t :: us)) = a.lastStop := by
    rw [lastStop_append, lastStop_append, lastStop_trivia hs.blank, lastStop_cons hs.significant]
    exact hu.symm
  obtain ⟨vs, hr', hl', h''⟩ := all stop _ _ (.join hs.blank hj h h') hlast
  refine ⟨blanks ++ t :: us ++ vs, ?_, ?_, ?_⟩
  · rw [hs.rest_eq, hr, hr']
    simp only [List.append_assoc, List.cons_append]
  · rw [hl', lastStop_append, ← hl, ← lastStop_append stop, hlast]
  · simpa only [List.append_assoc] using h''

private theorem takes_single {kind : CstKind} (hs : c.Split blanks t rest)
    (h : ∀ stop, Reads p stop [t] [.node kind [t.leaf]] []) :
    Takes p c (Parsed.single kind c).items (Parsed.single kind c).faults
      (Parsed.single kind c).after := by
  refine ⟨blanks ++ [t], ?_, ?_, ?_⟩
  · simp [Parsed.single, hs.next_eq, hs.rest_eq]
  · rw [lastStop_append, lastStop_trivia hs.blank, lastStop_cons hs.significant]
    simp [Parsed.single, hs.next_eq, lastStop]
  · simpa [Parsed.single, hs.trivia_eq, hs.skipTrivia_eq] using Reads.skip hs.blank (h c.lastStop)

theorem unexpected_eq (message : String) (hs : c.Split blanks t rest) :
    (Parsed.unexpected message c).items = blanks.map Token.leaf ++ [.node .error [t.leaf]] ∧
      (Parsed.unexpected message c).faults =
        [⟨.grammar, rejection message t, t.start, t.stop⟩] ∧
      (Parsed.unexpected message c).after = c.next := by
  unfold Parsed.unexpected
  split
  · rename_i h
    simp [hs.skipTrivia_eq] at h
  · rename_i u h
    simp only [hs.skipTrivia_eq, List.head?_cons, Option.some.injEq] at h
    subst h
    simp [hs.trivia_eq, rejection]

private theorem takes_unexpected (message : String) (hs : c.Split blanks t rest)
    (hk : t.kind.isMisplaced) :
    Takes .factor c (Parsed.unexpected message c).items (Parsed.unexpected message c).faults
      (Parsed.unexpected message c).after := by
  obtain ⟨hi, hf, ha⟩ := unexpected_eq message hs
  rw [hi, hf, ha, hs.next_eq]
  refine ⟨blanks ++ [t], ?_, ?_, .skip hs.blank (.misplaced message hk)⟩
  · simp [hs.rest_eq]
  · rw [lastStop_append, lastStop_trivia hs.blank, lastStop_cons hs.significant]
    rfl

private theorem takes_expect (kind : TokenKind) (message : String)
    (hk : kind = .closeParen ∨ kind = .semicolon) (c : Cursor) :
    Takes (.closing kind message) c (Parsed.expect kind message c).items
      (Parsed.expect kind message c).faults (Parsed.expect kind message c).after := by
  unfold Parsed.expect
  split
  · rename_i h
    obtain ⟨blanks, t, rest, hs, ht⟩ := Cursor.exists_split h
    refine ⟨blanks ++ [t], ?_, ?_, ?_⟩
    · simp [hs.next_eq, hs.rest_eq]
    · rw [lastStop_append, lastStop_trivia hs.blank, lastStop_cons hs.significant]
      simp [hs.next_eq, lastStop]
    · rw [hs.leaves_eq]
      exact .found hs.blank hk ht
  · exact ⟨[], rfl, rfl, .missing⟩

private theorem takes_paren (hs : c.Split blanks t rest) (ht : t.kind = .openParen)
    (inner : Takes .expr c.next (expr c.next).items (expr c.next).faults (expr c.next).after) :
    Takes .factor c (factor c).items (factor c).faults (factor c).after := by
  have hp : c.peek? = some .openParen := by rw [hs.peek?_eq, ht]
  obtain ⟨us, hr', hl', h'⟩ :=
    takes_expect .closeParen "expected ')'" (.inl rfl) (expr c.next).after
  obtain ⟨ts, hr, hl, h⟩ := inner
  rw [hl] at hl' h'
  have hn : c.next.lastStop = t.stop := by rw [hs.next_eq]
  rw [hn] at hl' h h'
  rw [factor, hp]
  refine ⟨blanks ++ t :: (ts ++ us), ?_, ?_, ?_⟩
  · have hc : c.next.rest = rest := by rw [hs.next_eq]
    rw [hs.rest_eq, ← hc, hr, hr']
    simp only [List.append_assoc, List.cons_append]
  · rw [lastStop_append, lastStop_trivia hs.blank, lastStop_cons hs.significant, lastStop_append]
    exact hl'
  · rw [hs.trivia_eq, hs.skipTrivia_split.leaves_eq]
    exact .skip hs.blank (.paren ht h h')

private theorem takes_lacking (c : Cursor) :
    Takes .factor c (Parsed.missing "expected expression" c).items
      (Parsed.missing "expected expression" c).faults
      (Parsed.missing "expected expression" c).after :=
  ⟨[], rfl, rfl, .lacking⟩

end Steps

theorem peek?_any {c : Cursor} {belongs : TokenKind → Bool}
    (h : c.peek?.any belongs = true) : ∃ blanks t rest, c.Split blanks t rest ∧ belongs t.kind := by
  obtain ⟨kind, hp, hb⟩ := (Option.any_eq_true _ _).1 h
  obtain ⟨blanks, t, rest, hs, rfl⟩ := Cursor.exists_split hp
  exact ⟨blanks, t, rest, hs, hb⟩

private theorem factor_takes {c : Cursor}
    (inner : c.peek? = some .openParen →
      Takes .expr c.next (expr c.next).items (expr c.next).faults (expr c.next).after) :
    Takes .factor c (factor c).items (factor c).faults (factor c).after := by
  cases h : c.peek? with
  | none =>
    rw [factor, h]
    exact takes_lacking c
  | some kind =>
    obtain ⟨blanks, t, rest, hs, ht⟩ := Cursor.exists_split h
    have htrivia : kind.isTrivia = false := by simpa [Token.isTrivia, ht] using hs.significant
    cases kind with
    | number =>
      rw [factor, h]
      exact takes_single hs fun stop => .literal (.inl ht)
    | string =>
      rw [factor, h]
      exact takes_single hs fun stop => .literal (.inr ht)
    | ident =>
      rw [factor, h]
      exact takes_single hs fun stop => .nameRef ht
    | template =>
      rw [factor, h]
      exact takes_single hs fun stop => .template ht
    | openParen => exact takes_paren hs ht (inner h)
    | semicolon | closeParen =>
      rw [factor, h]
      exact takes_lacking c
    | plus | minus | star | slash | equals | unknown =>
      rw [factor, h]
      exact takes_unexpected _ hs (by rw [ht]; rfl)
    | _ => cases htrivia

/-- The parsers of operands follow the relation. The induction is on their recursion. -/
theorem operands_take :
    (∀ c, Takes .factor c (factor c).items (factor c).faults (factor c).after) ∧
      (∀ c, Takes .expr c (expr c).items (expr c).faults (expr c).after) ∧
      (∀ lhs c, Resumes .expr lhs c (exprRest lhs c).items (exprRest lhs c).faults
        (exprRest lhs c).after) ∧
      (∀ c, Takes .term c (term c).items (term c).faults (term c).after) ∧
      ∀ lhs c, Resumes .term lhs c (termRest lhs c).items (termRest lhs c).faults
        (termRest lhs c).after := by
  apply factor.mutual_induct
  case case5 => exact fun c _ inner => factor_takes fun _ => inner
  case case1 | case2 | case3 | case4 | case6 | case7 | case8 | case9 =>
    intro c h
    refine factor_takes fun hp => ?_
    rw [h] at hp
    cases hp
  case case10 =>
    intro c kind _ _ _ _ hparen _ _ _ h
    refine factor_takes fun hp => ?_
    rw [h] at hp
    cases hp
    exact absurd rfl hparen
  case case11 =>
    intro c first ih ih' _
    rw [expr]
    exact (Takes.chain (p := .expr) rfl ih ih').skipTrivia
  case case12 =>
    intro lhs c h rhs ih ih' _
    obtain ⟨blanks, t, rest, hs, ht⟩ := peek?_any h
    rw [exprRest, dif_pos h]
    exact .join hs ht ih ih'
  case case13 =>
    intro lhs c h
    rw [exprRest, dif_neg h]
    exact .refl
  case case14 =>
    intro c first ih ih' _
    rw [term]
    exact (Takes.chain (p := .term) rfl ih ih').skipTrivia
  case case15 =>
    intro lhs c h rhs ih ih' _
    obtain ⟨blanks, t, rest, hs, ht⟩ := peek?_any h
    rw [termRest, dif_pos h]
    exact .join hs ht ih ih'
  case case16 =>
    intro lhs c h
    rw [termRest, dif_neg h]
    exact .refl

theorem expr_takes (c : Cursor) :
    Takes .expr c (expr c).items (expr c).faults (expr c).after := operands_take.2.1 c

/-! ## Progress -/

/-- Whether an operand takes nothing in front of a token of this kind. -/
def TokenKind.isClosing (kind : TokenKind) : Bool := kind == .semicolon || kind == .closeParen

theorem factor_suffix_next {c : Cursor} {kind : TokenKind} (h : c.peek? = some kind)
    (hk : kind.isClosing = false) : (factor c).after.rest <:+ c.next.rest := by
  obtain ⟨blanks, t, rest, hs, -⟩ := Cursor.exists_split h
  have hu : ∀ message, (Parsed.unexpected message c).after.rest <:+ c.next.rest :=
    fun message => ⟨[], congrArg Cursor.rest (unexpected_eq message hs).2.2⟩
  rw [factor, h]
  cases kind <;> simp only [TokenKind.isClosing] at hk ⊢
  case openParen => exact (Parsed.expect ..).suffix.trans (expr c.next).suffix
  case semicolon => simp at hk
  case closeParen => simp at hk
  case number => exact List.suffix_rfl
  case string => exact List.suffix_rfl
  case ident => exact List.suffix_rfl
  case template => exact List.suffix_rfl
  all_goals exact hu _

theorem term_suffix_next {c : Cursor} {kind : TokenKind} (h : c.peek? = some kind)
    (hk : kind.isClosing = false) : (term c).after.rest <:+ c.next.rest := by
  have hf := factor_suffix_next (c.peek?_skipTrivia.trans h) hk
  rw [Cursor.next_skipTrivia] at hf
  rw [term]
  exact (termRest ..).suffix.trans hf

theorem expr_suffix_next {c : Cursor} {kind : TokenKind} (h : c.peek? = some kind)
    (hk : kind.isClosing = false) : (expr c).after.rest <:+ c.next.rest := by
  have ht := term_suffix_next (c.peek?_skipTrivia.trans h) hk
  rw [Cursor.next_skipTrivia] at ht
  rw [expr]
  exact (exprRest ..).suffix.trans ht

/-- A statement takes at least a token, unless it stands before a closing parenthesis. -/
theorem statement_suffix_next {c : Cursor} {kind : TokenKind} (h : c.peek? = some kind)
    (hk : kind ≠ .closeParen) : (statement c).after.rest <:+ c.next.rest := by
  have he : kind.isClosing = false → (exprStatement c).after.rest <:+ c.next.rest :=
    fun hk => (Parsed.expect ..).suffix.trans (expr_suffix_next h hk)
  unfold statement
  split
  · exact (closedExpr c.next.next).suffix.trans c.next.next_suffix
  · rename_i hp
    rw [h] at hp
    cases hp
    split
    · exact he rfl
    · unfold templateStatement
      split
      · exact c.next.next_suffix
      · exact List.suffix_rfl
  · exact List.suffix_rfl
  · rename_i hi ht hs
    refine he ?_
    cases kind <;> simp_all [TokenKind.isClosing]

/-! ## Statements -/

private theorem closedExpr_takes (c : Cursor) : ∃ ts us is js fs gs,
    (closedExpr c).items = is ++ js ∧ (closedExpr c).faults = fs ++ gs ∧
      c.rest = ts ++ (us ++ (closedExpr c).after.rest) ∧
      (closedExpr c).after.lastStop = lastStop c.lastStop (ts ++ us) ∧
      Reads .expr c.lastStop ts is fs ∧
      Reads (.closing .semicolon "expected ';'") (lastStop c.lastStop ts) us js gs := by
  obtain ⟨ts, hr, hl, h⟩ := expr_takes c
  obtain ⟨us, hr', hl', h'⟩ := takes_expect .semicolon "expected ';'" (.inr rfl) (expr c).after
  rw [hl] at hl' h'
  refine ⟨ts, us, _, _, _, _, rfl, rfl, ?_, ?_, h, h'⟩
  · rw [hr, hr']
    rfl
  · rw [lastStop_append]
    exact hl'

theorem next_peek?_eq (c : Cursor) : c.next.peek? = c.peekSecond? := by
  rw [Cursor.peek?_eq_head?, Cursor.peekSecond?_eq_getElem?, Cursor.kinds_next,
    List.head?_eq_getElem?, List.getElem?_tail]

private theorem assignment_takes {c : Cursor} (h : c.peek? = some .ident)
    (h' : c.peekSecond? = some .equals) :
    Takes .statement c (assignment c).items (assignment c).faults (assignment c).after := by
  obtain ⟨blanks, name, rest, hs, hn⟩ := Cursor.exists_split h
  obtain ⟨later, eq, rest', hs', he⟩ := Cursor.exists_split ((next_peek?_eq c).trans h')
  obtain ⟨ts, us, is, js, fs, gs, hi, hf, hr, hl, hv, hc⟩ := closedExpr_takes c.next.next
  rw [hs'.next_eq] at hr hl hv hc
  have hrest : c.next.rest = rest := by rw [hs.next_eq]
  refine ⟨blanks ++ name :: (later ++ eq :: (ts ++ us)), ?_, ?_, ?_⟩
  · rw [hs.rest_eq, ← hrest, hs'.rest_eq]
    simp only at hr
    rw [hr, ← hs'.next_eq]
    simp [assignment]
  · rw [lastStop_append, lastStop_trivia hs.blank, lastStop_cons hs.significant, lastStop_append,
      lastStop_trivia hs'.blank, lastStop_cons hs'.significant, ← hl, ← hs'.next_eq]
    rfl
  · have hr : Reads .statement c.lastStop _ _ _ := .assignment hs.blank hs'.blank hn he hv hc
    rw [← hi, ← hf, ← hs.leaves_eq, ← hs'.leaves_eq] at hr
    exact hr

private theorem templateStatement_takes {c : Cursor} (h : c.peek? = some .template) :
    Takes .statement c (templateStatement c).items (templateStatement c).faults
      (templateStatement c).after := by
  obtain ⟨blanks, t, rest, hs, ht⟩ := Cursor.exists_split h
  have hrest : c.next.rest = rest := by rw [hs.next_eq]
  unfold templateStatement
  split
  · rename_i h'
    obtain ⟨later, s, rest', hs', hk⟩ := Cursor.exists_split h'
    refine ⟨blanks ++ t :: (later ++ [s]), ?_, ?_, ?_⟩
    · rw [hs.rest_eq, ← hrest, hs'.rest_eq]
      simp [hs'.next_eq]
    · rw [lastStop_append, lastStop_trivia hs.blank, lastStop_cons hs.significant,
        lastStop_append, lastStop_trivia hs'.blank, lastStop_cons hs'.significant]
      simp [hs'.next_eq, lastStop]
    · rw [hs.leaves_eq, hs'.leaves_eq]
      exact .closedChunk hs.blank hs'.blank ht hk
  · refine ⟨blanks ++ [t], ?_, ?_, ?_⟩
    · simp [hs.rest_eq, hrest]
    · rw [lastStop_append, lastStop_trivia hs.blank, lastStop_cons hs.significant]
      simp [hs.next_eq, lastStop]
    · rw [hs.leaves_eq]
      exact .chunk hs.blank ht

private theorem emptyStatement_takes {c : Cursor} (h : c.peek? = some .semicolon) :
    Takes .statement c (emptyStatement c).items (emptyStatement c).faults
      (emptyStatement c).after := by
  obtain ⟨blanks, s, rest, hs, hk⟩ := Cursor.exists_split h
  refine ⟨blanks ++ [s], ?_, ?_, ?_⟩
  · simp [emptyStatement, hs.rest_eq, hs.next_eq]
  · rw [lastStop_append, lastStop_trivia hs.blank, lastStop_cons hs.significant]
    simp [emptyStatement, hs.next_eq, lastStop]
  · simp only [emptyStatement, hs.leaves_eq]
    exact .empty hs.blank hk

private theorem exprStatement_takes (c : Cursor) :
    Takes .statement c (exprStatement c).items (exprStatement c).faults
      (exprStatement c).after := by
  obtain ⟨ts, us, is, js, fs, gs, hi, hf, hr, hl, hv, hc⟩ := closedExpr_takes c
  refine ⟨ts ++ us, ?_, hl, ?_⟩
  · rw [hr, List.append_assoc]
    rfl
  · simp only [exprStatement, hi, hf]
    exact .value hv hc

private theorem statement_takes (c : Cursor) :
    Takes .statement c (statement c).items (statement c).faults (statement c).after := by
  unfold statement
  split
  · rename_i h h'
    exact assignment_takes h h'
  · rename_i h
    split
    · exact exprStatement_takes c
    · exact templateStatement_takes h
  · rename_i h
    exact emptyStatement_takes h
  · exact exprStatement_takes c

private theorem statementOrToken_takes {c : Cursor} (h : c.peek? ≠ none) :
    Takes .statement c (statementOrToken c).items (statementOrToken c).faults
      (statementOrToken c).after := by
  obtain ⟨ts, hr, hl, hst⟩ := statement_takes c
  unfold statementOrToken
  simp only
  split
  · exact ⟨ts, hr, hl, hst⟩
  · rename_i hlen
    have hts : ts = [] := by
      have hlen' := congrArg List.length hr
      rw [List.length_append] at hlen'
      exact List.length_eq_zero_iff.1 (by omega)
    subst hts
    obtain ⟨kind, hk⟩ := Option.ne_none_iff_exists'.1 h
    have hclose : kind = .closeParen :=
      Decidable.byContradiction fun hne => hlen <| Nat.lt_of_le_of_lt
        (statement_suffix_next hk hne).length_le (Cursor.next_length_lt h)
    have hafter : (statement c).after.peek? = some kind := by
      rw [← hk, Cursor.peek?, Cursor.peek?, hr, List.nil_append]
    obtain ⟨blanks, t, rest, hs, ht⟩ := Cursor.exists_split hafter
    obtain ⟨hi, hf, ha⟩ := unexpected_eq "unexpected token" hs
    rw [hi, hf]
    refine ⟨blanks ++ [t], ?_, ?_, .stray hs.blank (ht.trans hclose) hst⟩
    · rw [hr, hs.rest_eq]
      simp [ha, hs.next_eq]
    · rw [lastStop_append, lastStop_trivia hs.blank, lastStop_cons hs.significant]
      simp [ha, hs.next_eq, lastStop]

theorem statements_takes (c : Cursor) :
    Takes .program c (statements c).items (statements c).faults (statements c).after ∧
      (statements c).after.rest = [] := by
  fun_induction statements c with
  | case1 c h =>
    obtain ⟨hb, ht, hr⟩ := Cursor.trivia_of_peek?_eq_none h
    refine ⟨⟨c.rest, by simp [hr], ?_, ?_⟩, hr⟩
    · rw [lastStop_trivia hb]
      rfl
    · rw [ht]
      exact .done hb
  | case2 c h s later ih =>
    obtain ⟨⟨us, hr', hl', h'⟩, hend⟩ := ih
    refine ⟨?_, hend⟩
    have hpeek : c.skipTrivia.peek? ≠ none := by simpa using h
    obtain ⟨ts, hr, hl, hst⟩ := statementOrToken_takes hpeek
    have hprogress : ts ≠ [] := by
      rintro rfl
      have hlt := statementOrToken_length_lt hpeek
      rw [hr, List.nil_append] at hlt
      exact Nat.lt_irrefl _ hlt
    have hall : Takes .program c.skipTrivia (s.items ++ later.items) (s.faults ++ later.faults)
        later.after := by
      refine ⟨ts ++ us, ?_, ?_, ?_⟩
      · rw [hr, hr', List.append_assoc]
      · rw [lastStop_append, ← hl, hl']
      · exact .later hprogress hst (hl ▸ h')
    simpa using hall.skipTrivia

/-- The reading of all tokens of a text. -/
theorem statements_reads (ts : List Token) :
    Reads .program 0 ts (statements ⟨ts, 0⟩).items (statements ⟨ts, 0⟩).faults := by
  obtain ⟨⟨us, hr, _, h⟩, hend⟩ := statements_takes ⟨ts, 0⟩
  rw [hend, List.append_nil] at hr
  simp only at hr
  exact hr ▸ h

end SourceModel.Calc
