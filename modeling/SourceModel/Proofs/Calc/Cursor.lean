import Mathlib.Data.List.DropRight
import SourceModel.Calc.Parser

/-!
# Cursors

What a cursor sees of the tokens in front of it: the kinds of the significant ones, and the trivia
that come before the next one.
-/

namespace SourceModel.Calc

def significantKinds (ts : List Token) : List TokenKind :=
  (ts.filter (!·.isTrivia)).map Token.kind

@[simp] theorem significantKinds_append (ts us : List Token) :
    significantKinds (ts ++ us) = significantKinds ts ++ significantKinds us := by
  rw [significantKinds, List.filter_append, List.map_append, significantKinds, significantKinds]

theorem significantKinds_trivia {ts : List Token} (h : ∀ t ∈ ts, t.isTrivia) :
    significantKinds ts = [] := by
  simpa [significantKinds, List.filter_eq_nil_iff] using h

theorem significantKinds_cons {t : Token} {kind : TokenKind} (hk : t.kind = kind)
    (hs : kind.isTrivia = false) (ts : List Token) :
    significantKinds (t :: ts) = kind :: significantKinds ts := by
  simp [significantKinds, Token.isTrivia, hk, hs]

theorem significantKinds_next {blanks : List Token} {t : Token} {kind : TokenKind}
    (blank : ∀ b ∈ blanks, b.isTrivia) (hk : t.kind = kind) (hs : kind.isTrivia = false)
    (ts : List Token) : significantKinds (blanks ++ t :: ts) = kind :: significantKinds ts := by
  rw [significantKinds_append, significantKinds_trivia blank, significantKinds_cons hk hs,
    List.nil_append]

namespace Cursor

def kinds (c : Cursor) : List TokenKind := significantKinds c.rest

theorem peek?_eq_head? (c : Cursor) : c.peek? = c.kinds.head? := by
  rw [peek?, kinds, significantKinds, List.head?_map, List.head?_filter]

theorem peekSecond?_eq_getElem? (c : Cursor) : c.peekSecond? = c.kinds[1]? := by
  rw [peekSecond?, kinds, significantKinds, List.getElem?_map]

/-- Splits the rest of a cursor at its next significant token. -/
structure Split (c : Cursor) (blanks : List Token) (t : Token) (rest : List Token) : Prop where
  rest_eq : c.rest = blanks ++ t :: rest
  blank : ∀ b ∈ blanks, b.isTrivia
  significant : ¬ t.isTrivia

private theorem takeWhile_isTrivia_append {blanks ts : List Token} (h : ∀ b ∈ blanks, b.isTrivia)
    (ht : ts.head?.any Token.isTrivia = false) :
    (blanks ++ ts).takeWhile Token.isTrivia = blanks ∧
      (blanks ++ ts).dropWhile Token.isTrivia = ts := by
  rw [List.takeWhile_append_of_pos h, List.dropWhile_append_of_pos h]
  cases ts with
  | nil => simp
  | cons t ts =>
    have ht' : t.isTrivia = false := by simpa using ht
    simp [ht']

theorem exists_split {c : Cursor} {kind : TokenKind} (h : c.peek? = some kind) :
    ∃ blanks t rest, c.Split blanks t rest ∧ t.kind = kind := by
  obtain ⟨t, ht, hk⟩ := Option.map_eq_some_iff.1 h
  obtain ⟨hs, blanks, rest, he, hb⟩ := List.find?_eq_some_iff_append.1 ht
  refine ⟨blanks, t, rest, ⟨he, ?_, by simpa using hs⟩, hk⟩
  intro b hmem
  simpa using hb b hmem

namespace Split

variable {c : Cursor} {blanks rest : List Token} {t : Token}

private theorem head?_any (h : c.Split blanks t rest) :
    (t :: rest).head?.any Token.isTrivia = false := by
  simpa using h.significant

theorem trivia_eq (h : c.Split blanks t rest) : c.trivia = blanks.map Token.leaf := by
  rw [trivia, h.rest_eq, (takeWhile_isTrivia_append h.blank h.head?_any).1]

theorem skipTrivia_eq (h : c.Split blanks t rest) : c.skipTrivia = ⟨t :: rest, c.lastStop⟩ := by
  rw [skipTrivia, h.rest_eq, (takeWhile_isTrivia_append h.blank h.head?_any).2]

theorem next_eq (h : c.Split blanks t rest) : c.next = ⟨rest, t.stop⟩ := by
  simp [next, h.skipTrivia_eq]

theorem leaves_eq (h : c.Split blanks t rest) : c.leaves = (blanks ++ [t]).map Token.leaf := by
  simp [leaves, h.skipTrivia_eq, h.trivia_eq]

theorem peek?_eq (h : c.Split blanks t rest) : c.peek? = some t.kind := by
  have hb : blanks.find? (!·.isTrivia) = none := by
    simpa [List.find?_eq_none] using h.blank
  simp [peek?, h.rest_eq, List.find?_append, hb, h.significant]

theorem skipTrivia_split (h : c.Split blanks t rest) : c.skipTrivia.Split [] t rest := by
  refine ⟨by simp [h.skipTrivia_eq], by simp, h.significant⟩

end Split

theorem trivia_of_peek?_eq_none {c : Cursor} (h : c.peek? = none) :
    (∀ t ∈ c.rest, t.isTrivia) ∧ c.trivia = c.rest.map Token.leaf ∧ c.skipTrivia.rest = [] := by
  have hb : ∀ t ∈ c.rest, t.isTrivia := by simpa [peek?] using h
  have hs := @takeWhile_isTrivia_append c.rest [] hb rfl
  rw [List.append_nil] at hs
  exact ⟨hb, by rw [trivia, hs.1], hs.2⟩

theorem exists_trivia (c : Cursor) : ∃ blanks : List Token, (∀ b ∈ blanks, b.isTrivia) ∧
    c.rest = blanks ++ c.skipTrivia.rest ∧ c.trivia = blanks.map Token.leaf :=
  ⟨c.rest.takeWhile Token.isTrivia, List.all_eq_true.1 List.all_takeWhile,
    List.takeWhile_append_dropWhile.symm, rfl⟩

@[simp] theorem kinds_skipTrivia (c : Cursor) : c.skipTrivia.kinds = c.kinds := by
  obtain ⟨blanks, hb, hr, _⟩ := c.exists_trivia
  rw [kinds, kinds, hr, significantKinds_append, significantKinds_trivia hb, List.nil_append]

@[simp] theorem skipTrivia_skipTrivia (c : Cursor) : c.skipTrivia.skipTrivia = c.skipTrivia := by
  simp only [skipTrivia, List.dropWhile_idempotent]

@[simp] theorem next_skipTrivia (c : Cursor) : c.skipTrivia.next = c.next := by
  rw [next, next, skipTrivia_skipTrivia]

theorem kinds_next (c : Cursor) : c.next.kinds = c.kinds.tail := by
  cases hp : c.peek? with
  | none =>
    have hk : c.kinds = [] := by simpa [peek?_eq_head?] using hp
    have hs := (trivia_of_peek?_eq_none hp).2.2
    have hn : c.next.rest = [] := by simp [next, hs]
    rw [hk, kinds, hn]
    rfl
  | some kind =>
    obtain ⟨blanks, t, rest, h, _⟩ := exists_split hp
    have hs : t.kind.isTrivia = false := Bool.eq_false_iff.2 h.significant
    rw [kinds, kinds, h.next_eq, h.rest_eq, significantKinds_next h.blank rfl hs, List.tail_cons]

end Cursor

end SourceModel.Calc
