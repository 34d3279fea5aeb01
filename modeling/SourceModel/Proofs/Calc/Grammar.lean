import SourceModel.Calc.Token

/-!
# The grammar of calc

The grammar is data: each nonterminal has a rule, and `Rule.Derives` says which sequences of token
kinds a rule derives. A rule is a token, a nonterminal, a sequence, a choice, an optional part or a
repetition.
-/

namespace SourceModel.Calc

inductive Nonterminal where
  | program
  | statement
  | assignment
  | expr
  | term
  | factor
deriving DecidableEq, Repr

inductive Rule where
  | token (kind : TokenKind)
  | ref (name : Nonterminal)
  | seq (first second : Rule)
  | either (first second : Rule)
  | optional (rule : Rule)
  | many (rule : Rule)
deriving DecidableEq, Repr

/-- What may stand behind an operand of an expression. -/
def Rule.termTail : Rule := .seq (.either (.token .plus) (.token .minus)) (.ref .term)

/-- What may stand behind an operand of a term. -/
def Rule.factorTail : Rule := .seq (.either (.token .star) (.token .slash)) (.ref .factor)

def Nonterminal.rule : Nonterminal → Rule
  | program => .many (.ref .statement)
  | statement =>
    .either (.ref .assignment)
      (.either (.seq (.token .template) (.optional (.token .semicolon)))
        (.seq (.ref .expr) (.token .semicolon)))
  | assignment =>
    .seq (.token .ident) (.seq (.token .equals) (.seq (.ref .expr) (.token .semicolon)))
  | expr => .seq (.ref .term) (.many .termTail)
  | term => .seq (.ref .factor) (.many .factorTail)
  | factor =>
    .either (.token .number) (.either (.token .string) (.either (.token .ident)
      (.either (.token .template)
        (.seq (.token .openParen) (.seq (.ref .expr) (.token .closeParen))))))

/-- The sequences of kinds that a rule derives. -/
inductive Rule.Derives : Rule → List TokenKind → Prop where
  | token (kind : TokenKind) : Derives (.token kind) [kind]
  | ref {name : Nonterminal} {ks : List TokenKind} :
      Derives name.rule ks → Derives (.ref name) ks
  | seq {first second : Rule} {ks ls : List TokenKind} :
      Derives first ks → Derives second ls → Derives (.seq first second) (ks ++ ls)
  | first {first second : Rule} {ks : List TokenKind} :
      Derives first ks → Derives (.either first second) ks
  | second {first second : Rule} {ks : List TokenKind} :
      Derives second ks → Derives (.either first second) ks
  | absent {rule : Rule} : Derives (.optional rule) []
  | present {rule : Rule} {ks : List TokenKind} : Derives rule ks → Derives (.optional rule) ks
  | stop {rule : Rule} : Derives (.many rule) []
  | more {rule : Rule} {ks ls : List TokenKind} :
      Derives rule ks → Derives (.many rule) ls → Derives (.many rule) (ks ++ ls)

namespace Rule

variable {kind : TokenKind} {name : Nonterminal} {first second rule : Rule}
  {ks ls : List TokenKind}

@[simp] theorem derives_token_iff : (Rule.token kind).Derives ks ↔ ks = [kind] := by
  constructor
  · rintro ⟨⟩
    rfl
  · rintro rfl
    exact .token kind

theorem derives_ref_iff : (Rule.ref name).Derives ks ↔ name.rule.Derives ks := by
  constructor
  · intro h
    cases h with
    | ref h => exact h
  · exact .ref

@[simp] theorem derives_seq_iff :
    (Rule.seq first second).Derives ks ↔
      ∃ as bs, ks = as ++ bs ∧ first.Derives as ∧ second.Derives bs := by
  constructor
  · intro h
    cases h with
    | seq ha hb => exact ⟨_, _, rfl, ha, hb⟩
  · rintro ⟨as, bs, rfl, ha, hb⟩
    exact .seq ha hb

@[simp] theorem derives_either_iff :
    (Rule.either first second).Derives ks ↔ first.Derives ks ∨ second.Derives ks := by
  constructor
  · intro h
    cases h with
    | first h => exact .inl h
    | second h => exact .inr h
  · rintro (h | h)
    · exact .first h
    · exact .second h

@[simp] theorem derives_optional_iff :
    (Rule.optional rule).Derives ks ↔ ks = [] ∨ rule.Derives ks := by
  constructor
  · intro h
    cases h with
    | absent => exact .inl rfl
    | present h => exact .inr h
  · rintro (rfl | h)
    · exact .absent
    · exact .present h

theorem Derives.snoc (h : (Rule.many rule).Derives ks) (hl : rule.Derives ls) :
    (Rule.many rule).Derives (ks ++ ls) := by
  generalize he : Rule.many rule = r at h
  induction h with
  | stop => simpa [he] using Derives.more hl .stop
  | more ha _ _ ih =>
    cases he
    rw [List.append_assoc]
    exact .more ha (ih rfl)
  | _ => cases he

theorem derives_factor_iff :
    (Rule.ref .factor).Derives ks ↔
      ks = [.number] ∨ ks = [.string] ∨ ks = [.ident] ∨ ks = [.template] ∨
        ∃ es, (Rule.ref .expr).Derives es ∧ ks = .openParen :: es ++ [.closeParen] := by
  rw [derives_ref_iff]
  simp only [Nonterminal.rule, derives_either_iff, derives_token_iff, derives_seq_iff]
  constructor
  · rintro (h | h | h | h | ⟨_, _, rfl, rfl, es, _, rfl, he, rfl⟩)
    · exact .inl h
    · exact .inr (.inl h)
    · exact .inr (.inr (.inl h))
    · exact .inr (.inr (.inr (.inl h)))
    · exact .inr (.inr (.inr (.inr ⟨es, he, rfl⟩)))
  · rintro (h | h | h | h | ⟨es, he, rfl⟩)
    · exact .inl h
    · exact .inr (.inl h)
    · exact .inr (.inr (.inl h))
    · exact .inr (.inr (.inr (.inl h)))
    · exact .inr (.inr (.inr (.inr ⟨[.openParen], _, rfl, rfl, es, _, rfl, he, rfl⟩)))

theorem derives_term_iff :
    (Rule.ref .term).Derives ks ↔
      ∃ fs rs, ks = fs ++ rs ∧ (Rule.ref .factor).Derives fs ∧
        (Rule.many factorTail).Derives rs := by
  rw [derives_ref_iff]
  exact derives_seq_iff

theorem derives_expr_iff :
    (Rule.ref .expr).Derives ks ↔
      ∃ ts rs, ks = ts ++ rs ∧ (Rule.ref .term).Derives ts ∧ (Rule.many termTail).Derives rs := by
  rw [derives_ref_iff]
  exact derives_seq_iff

theorem derives_statement_iff :
    (Rule.ref .statement).Derives ks ↔
      (∃ es, (Rule.ref .expr).Derives es ∧ ks = .ident :: .equals :: es ++ [.semicolon]) ∨
        ks = [.template] ∨ ks = [.template, .semicolon] ∨
          ∃ es, (Rule.ref .expr).Derives es ∧ ks = es ++ [.semicolon] := by
  rw [derives_ref_iff]
  simp only [Nonterminal.rule, derives_either_iff, @derives_ref_iff .assignment,
    derives_seq_iff, derives_optional_iff, derives_token_iff]
  constructor
  · rintro (⟨_, _, rfl, rfl, _, _, rfl, rfl, es, _, rfl, he, rfl⟩ |
      ⟨_, _, rfl, rfl, rfl | rfl⟩ | ⟨es, _, rfl, he, rfl⟩)
    · exact .inl ⟨es, he, rfl⟩
    · exact .inr (.inl rfl)
    · exact .inr (.inr (.inl rfl))
    · exact .inr (.inr (.inr ⟨es, he, rfl⟩))
  · rintro (⟨es, he, rfl⟩ | rfl | rfl | ⟨es, he, rfl⟩)
    · exact .inl ⟨[.ident], _, rfl, rfl, [.equals], _, rfl, rfl, es, _, rfl, he, rfl⟩
    · exact .inr (.inl ⟨[.template], [], rfl, rfl, .inl rfl⟩)
    · exact .inr (.inl ⟨[.template], [.semicolon], rfl, rfl, .inr rfl⟩)
    · exact .inr (.inr ⟨es, _, rfl, he, rfl⟩)

end Rule

end SourceModel.Calc
