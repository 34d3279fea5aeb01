import SourceModel.Proofs.Calc.Tiling
import Mathlib.Data.List.TakeWhile

/-!
# Characters of tokens

The kind of a token says which characters it is made of, strings, templates and comments aside. A
name takes all the characters that it can, so no name stands right behind another one.
-/

namespace SourceModel.Calc

def TokenKind.admits : TokenKind → Char → Bool
  | comment, _ | string, _ | template, _ => true
  | blank, d | newline, d => Text.isBlank d
  | ident, d => isNameChar d
  | number, d => Text.isDecimalDigit d || d == '.'
  | unknown, d => symbol? d == none
  | kind, d => symbol? d == some kind

/-- The character that every token of a kind consists of. -/
def TokenKind.mark? : TokenKind → Option Char
  | equals => some '='
  | semicolon => some ';'
  | plus => some '+'
  | minus => some '-'
  | star => some '*'
  | slash => some '/'
  | openParen => some '('
  | closeParen => some ')'
  | _ => none

section Lexeme

variable {c : Char} {cs : List Char}

private theorem mark?_of_symbol? {kind : TokenKind} (h : symbol? c = some kind) :
    kind.mark? = some c := by
  unfold symbol? at h
  split at h <;> cases h <;> rfl

private theorem eq_of_mark? {kind : TokenKind} {d : Char} (h : kind.mark? = some c)
    (hd : kind.admits d = true) : d = c := by
  have hsymbol : kind.admits d = (symbol? d == some kind) := by cases kind <;> first | rfl | cases h
  rw [hsymbol] at hd
  have hmark := mark?_of_symbol? (eq_of_beq hd)
  exact Option.some.inj (hmark.symm.trans h)

private theorem admits_of_symbol? {kind : TokenKind} (h : symbol? c = some kind) :
    kind.admits c = true := by
  have hkind : kind.admits c = (symbol? c == some kind) := by
    unfold symbol? at h
    split at h <;> cases h <;> rfl
  rw [hkind, h]
  exact beq_self_eq_true _

private theorem admits_run {kind : TokenKind} {belongs : Char → Bool} (hc : kind.admits c = true)
    (hb : ∀ d, belongs d = true → kind.admits d = true) :
    ∀ d ∈ c :: (Lexeme.run kind belongs cs).tail, kind.admits d = true := by
  refine List.forall_mem_cons.2 ⟨hc, fun d hd => hb d ?_⟩
  exact List.mem_takeWhile_imp hd

private theorem lexeme_admits (c : Char) (cs : List Char) :
    ∀ d ∈ c :: (lexeme c cs).tail, (lexeme c cs).kind.admits d = true := by
  unfold lexeme
  split
  · rename_i hc
    rw [hc]
    exact List.forall_mem_singleton.2 (by decide : Text.isBlank '\n' = true)
  split
  · rename_i hc
    refine admits_run hc fun d hd => ?_
    exact (Bool.and_eq_true_iff.1 hd).1
  split
  · exact fun _ _ => rfl
  split
  · exact fun _ _ => rfl
  split
  · exact fun _ _ => rfl
  split
  · rename_i hc
    exact admits_run (Bool.or_eq_true_iff.2 (.inl hc)) fun _ hd => hd
  split
  · rename_i hc
    refine admits_run ?_ fun _ hd => hd
    simp only [isNameStart, Bool.or_eq_true] at hc
    simp only [TokenKind.admits, isNameChar, Bool.or_eq_true]
    exact hc.imp_left .inl
  split
  · rename_i hs
    exact List.forall_mem_singleton.2 (admits_of_symbol? hs)
  · rename_i hs
    exact List.forall_mem_singleton.2 (by simp [TokenKind.admits, hs])

/-- Where a lexeme stops: a name goes on as long as it can, and a kind that has one character stops
behind it. -/
structure Lexeme.Stops (l : Lexeme) : Prop where
  ident : l.kind = .ident → ∀ d ∈ l.rest.head?, isNameChar d = false
  mark : l.kind.mark?.isSome → l.tail = []

private theorem stops_of_kind {l : Lexeme} (kind : TokenKind) (hl : l.kind = kind)
    (h : kind ≠ .ident ∧ kind.mark? = none) : l.Stops := by
  subst hl
  refine ⟨fun e => absurd e h.1, fun e => ?_⟩
  rw [h.2] at e
  cases e

private theorem stops_symbol (kind : TokenKind) (hk : kind ≠ .ident) (fault : Option LexicalFault) :
    Lexeme.Stops ⟨kind, [], cs, fault⟩ := ⟨fun e => absurd e hk, fun _ => rfl⟩

private theorem lexeme_stops (c : Char) (cs : List Char) : (lexeme c cs).Stops := by
  unfold lexeme
  split
  · exact stops_symbol _ (by decide) _
  split
  · exact stops_of_kind .blank rfl (by decide)
  split
  · exact stops_of_kind .comment rfl (by decide)
  split
  · exact stops_of_kind .string rfl (by decide)
  split
  · exact stops_of_kind .template rfl (by decide)
  split
  · exact stops_of_kind .number rfl (by decide)
  split
  · refine ⟨fun _ d hd => ?_, fun h => ?_⟩
    · have hnot := List.head?_dropWhile_not isNameChar cs
      rw [show (cs.dropWhile isNameChar).head? = some d from hd] at hnot
      exact hnot
    · cases h
  split
  · rename_i kind hs
    refine stops_symbol _ ?_ _
    unfold symbol? at hs
    split at hs <;> cases hs <;> decide
  · exact stops_symbol _ (by decide) _

end Lexeme

/-! ## Tokens of a text -/

private theorem lexFrom_cons (offset : Nat) (c : Char) (cs : List Char) :
    (lexFrom offset (c :: cs)).tokens =
      ⟨(lexeme c cs).kind, String.ofList (c :: (lexeme c cs).tail), offset,
        offset + Text.byteCount (c :: (lexeme c cs).tail)⟩ ::
      (lexFrom (offset + Text.byteCount (c :: (lexeme c cs).tail)) (lexeme c cs).rest).tokens := by
  rw [lexFrom]

theorem lexFrom_admits (offset : Nat) (cs : List Char) :
    ∀ t ∈ (lexFrom offset cs).tokens, ∀ d ∈ t.text.toList, t.kind.admits d = true := by
  fun_induction lexFrom offset cs with
  | case1 => simp
  | case2 offset c cs l stop token later faults ih =>
    refine List.forall_mem_cons.2 ⟨fun d hd => ?_, ih⟩
    rw [String.toList_ofList] at hd
    exact lexeme_admits c cs d hd

/-- Whether a token consists of the character of its kind, if the kind has one. -/
def Token.Spelled (t : Token) : Prop := ∀ d, t.kind.mark? = some d → t.text = String.ofList [d]

theorem spelled_lexFrom (offset : Nat) (cs : List Char) :
    ∀ t ∈ (lexFrom offset cs).tokens, t.Spelled := by
  fun_induction lexFrom offset cs with
  | case1 => simp
  | case2 offset c cs l stop token later faults ih =>
    refine List.forall_mem_cons.2 ⟨fun d hd => ?_, ih⟩
    have hkind : l.kind.mark? = some d := hd
    have htail : l.tail = [] := (lexeme_stops c cs).mark (Option.isSome_of_mem hkind)
    have hc : c = d := eq_of_mark? hkind (lexeme_admits c cs c List.mem_cons_self)
    simp only [token, htail, hc]

/-- Tokens of which not both are names, unless they are apart. -/
def NamesApart (t u : Token) : Prop := t.kind = .ident → u.kind = .ident → t.stop < u.start

/-- No name stands right behind another one. -/
theorem pairwise_namesApart (offset : Nat) (cs : List Char) :
    (lexFrom offset cs).tokens.Pairwise NamesApart := by
  fun_induction lexFrom offset cs with
  | case1 => exact .nil
  | case2 offset c cs l stop token later faults ih =>
    refine List.pairwise_cons.2 ⟨fun u hu ht huk => ?_, ih⟩
    have htiles := tiles_lexFrom stop l.rest
    have hstop := (lexeme_stops c cs).ident ht
    cases hrest : l.rest with
    | nil =>
      simp only [later, hrest, lexFrom] at hu
      cases hu
    | cons d ds =>
      have hadmits := lexeme_admits d ds d List.mem_cons_self
      simp only [later, hrest, lexFrom_cons] at hu htiles
      obtain ⟨-, hlt, hbehind⟩ := htiles
      rcases List.mem_cons.1 hu with rfl | hu
      · have hd : isNameChar d = false := hstop d (by rw [hrest]; rfl)
        rw [show (lexeme d ds).kind = .ident from huk] at hadmits
        exact absurd hadmits (by simp [TokenKind.admits, hd])
      · have hmem := hbehind.mem hu
        exact Nat.lt_of_lt_of_le hlt hmem.1

end SourceModel.Calc
