import SourceModel.Proofs.Calc.Lexing
import SourceModel.Proofs.Calc.Tiling

/-!
# Tokens of a text behind another one

The lexer looks at most one character past the end of a token, and a semicolon needs no look at
what follows. So a text that ends with a semicolon has the same tokens whatever stands behind it,
and what stands behind it has the tokens that it has on its own, further on in the source.
-/

namespace SourceModel.Calc

def Token.moved (n : Nat) (t : Token) : Token := { t with start := t.start + n, stop := t.stop + n }

def Diagnostic.moved (n : Nat) (f : Diagnostic) : Diagnostic :=
  { f with start := f.start + n, stop := f.stop + n }

@[simp] theorem Token.moved_zero : Token.moved 0 = id := rfl

@[simp] theorem Diagnostic.moved_zero : Diagnostic.moved 0 = id := rfl

/-- Whether the last one of some tokens, if there is any, is a semicolon. -/
def Closed (ts : List Token) : Prop := ∀ t ∈ ts.getLast?, t.kind = .semicolon

theorem Closed.kind_getLast {ts : List Token} (h : Closed ts) (hne : ts ≠ []) :
    (ts.getLast hne).kind = .semicolon := h _ (List.getLast?_eq_some_getLast hne)

theorem Closed.of_suffix {ts us : List Token} (h : Closed ts) (hsuffix : us <:+ ts) :
    Closed us := by
  obtain ⟨front, rfl⟩ := hsuffix
  intro t ht
  exact h t (by simp [List.getLast?_append, Option.mem_def.1 ht])

private theorem lexFrom_moved (n offset : Nat) (cs : List Char) :
    lexFrom (offset + n) cs = ⟨(lexFrom offset cs).tokens.map (Token.moved n),
      (lexFrom offset cs).faults.map (Diagnostic.moved n)⟩ := by
  fun_induction lexFrom offset cs with
  | case1 =>
    rw [lexFrom]
    rfl
  | case2 offset c cs l stop token later faults ih =>
    have hstop : offset + n + Text.byteCount (c :: l.tail) = stop + n := Nat.add_right_comm ..
    rw [lexFrom]
    simp only [hstop, ih, List.map_cons, List.map_append, token, faults, List.map_map, l, later,
      Function.comp_def]
    rfl

/-! ## Lexemes -/

section Lexemes

variable {c : Char} {cs : List Char}

private theorem splitString_before {escaped : Bool} (ds : List Char)
    (h : (splitString escaped cs).2.1 ≠ []) :
    splitString escaped (cs ++ ds) =
      ((splitString escaped cs).1, (splitString escaped cs).2.1 ++ ds,
        (splitString escaped cs).2.2) := by
  fun_induction splitString escaped cs with
  | case1 => exact absurd rfl h
  | case2 => simp [splitString]
  | case3 escaped c cs hc hq => simp [splitString, hq]
  | case4 escaped c cs hc hq inner rest closed heq ih =>
    rw [heq] at ih
    simp [splitString, hc, hq, ih h]

private theorem splitTemplate_before (ds : List Char) (h : (splitTemplate cs).2.1 ≠ []) :
    splitTemplate (cs ++ ds) =
      ((splitTemplate cs).1, (splitTemplate cs).2.1 ++ ds, (splitTemplate cs).2.2) := by
  fun_induction splitTemplate cs with
  | case1 => exact absurd rfl h
  | case2 => simp [splitTemplate]
  | case3 c cs hc inner rest closed heq ih =>
    rw [heq] at ih
    have hmark : ∀ es, c = '%' → cs ++ ds = '}' :: es → False := by
      intro es hpercent hbrace
      cases cs with
      | nil =>
        cases heq
        exact h rfl
      | cons d cs =>
        cases hbrace
        exact hc _ hpercent rfl
    rw [List.cons_append, splitTemplate.eq_3 _ _ hmark, ih h]

private theorem Lexeme.run_before {kind : TokenKind} {belongs : Char → Bool} (ds : List Char)
    (h : (Lexeme.run kind belongs cs).rest ≠ []) :
    Lexeme.run kind belongs (cs ++ ds) =
      { Lexeme.run kind belongs cs with rest := (Lexeme.run kind belongs cs).rest ++ ds } := by
  have hlen : (cs.takeWhile belongs).length ≠ cs.length := by
    intro hlen
    have hsplit := congrArg List.length (@List.takeWhile_append_dropWhile _ belongs cs)
    rw [List.length_append, hlen] at hsplit
    exact h (List.length_eq_zero_iff.1 (by simp only [Lexeme.run]; omega))
  have hne : (cs.dropWhile belongs).isEmpty = false := by simpa [Lexeme.run] using h
  simp [Lexeme.run, List.takeWhile_append, List.dropWhile_append, hlen, hne]

private theorem lexeme_before (ds : List Char)
    (h : (lexeme c cs).rest ≠ [] ∨ (lexeme c cs).kind = .semicolon) :
    lexeme c (cs ++ ds) = { lexeme c cs with rest := (lexeme c cs).rest ++ ds } := by
  have hrun : ∀ {kind : TokenKind} {belongs : Char → Bool}, kind ≠ .semicolon →
      lexeme c cs = .run kind belongs cs → Lexeme.run kind belongs (cs ++ ds) =
        { Lexeme.run kind belongs cs with rest := (Lexeme.run kind belongs cs).rest ++ ds } := by
    intro kind belongs hk he
    rw [he] at h
    exact Lexeme.run_before ds (h.resolve_right hk)
  by_cases hnewline : c = '\n'
  · simp [lexeme, hnewline]
  by_cases hblank : Text.isBlank c
  · simp only [lexeme, if_neg hnewline, if_pos hblank] at hrun ⊢
    exact hrun (by decide) rfl
  by_cases hcomment : c = '#'
  · simp only [lexeme, if_neg hnewline, if_neg hblank, if_pos hcomment] at hrun ⊢
    exact hrun (by decide) rfl
  by_cases hstring : c = '"'
  · simp only [lexeme, if_neg hnewline, if_neg hblank, if_neg hcomment, if_pos hstring] at h ⊢
    rw [splitString_before ds (h.resolve_right (by simp))]
  by_cases htemplate : c = '{' ∧ cs.head? = some '%'
  · obtain ⟨later, rfl⟩ := List.head?_eq_some_iff.1 htemplate.2
    have htemplate' : c = '{' ∧ ('%' :: later ++ ds).head? = some '%' := ⟨htemplate.1, rfl⟩
    simp only [lexeme, if_neg hnewline, if_neg hblank, if_neg hcomment, if_neg hstring,
      if_pos htemplate, if_pos htemplate'] at h ⊢
    simp only [List.cons_append, List.drop_succ_cons, List.drop_zero] at h ⊢
    rw [splitTemplate_before ds (h.resolve_right (by simp))]
    rfl
  have htemplate' : ¬ (c = '{' ∧ (cs ++ ds).head? = some '%') := by
    rintro ⟨rfl, hhead⟩
    cases cs with
    | nil =>
      refine absurd h ?_
      decide
    | cons d cs => exact htemplate ⟨rfl, hhead⟩
  simp only [lexeme, if_neg hnewline, if_neg hblank, if_neg hcomment, if_neg hstring,
    if_neg htemplate, if_neg htemplate'] at hrun ⊢
  by_cases hdigit : Text.isDecimalDigit c
  · simp only [if_pos hdigit] at hrun ⊢
    exact hrun (by decide) rfl
  by_cases hname : isNameStart c
  · simp only [if_neg hdigit, if_pos hname] at hrun ⊢
    exact hrun (by decide) rfl
  simp only [if_neg hdigit, if_neg hname]
  cases symbol? c <;> rfl

end Lexemes

/-! ## Texts -/

/-- What stands behind a semicolon is read on its own. -/
theorem lexFrom_append {offset : Nat} {cs : List Char} (h : Closed (lexFrom offset cs).tokens)
    (ds : List Char) :
    lexFrom offset (cs ++ ds) =
      ⟨(lexFrom offset cs).tokens ++ (lexFrom (offset + Text.byteCount cs) ds).tokens,
        (lexFrom offset cs).faults ++ (lexFrom (offset + Text.byteCount cs) ds).faults⟩ := by
  fun_induction lexFrom offset cs with
  | case1 => rfl
  | case2 offset c cs l stop token later faults ih =>
    have hlater : Closed later.tokens := h.of_suffix (List.suffix_cons token _)
    have hsettled : l.rest ≠ [] ∨ l.kind = .semicolon := by
      by_cases hrest : l.rest = []
      · have hnone : later.tokens = [] := by
          simp only [later, hrest]
          rw [lexFrom]
        rw [hnone] at h
        exact .inr (h token rfl)
      · exact .inl hrest
    have hsize : Text.byteCount l.tail + Text.byteCount l.rest = Text.byteCount cs := by
      rw [← Text.byteCount_append, lexeme_append]
    have hstop : stop + Text.byteCount l.rest = offset + Text.byteCount (c :: cs) := by
      simp only [stop, Text.byteCount_cons]
      omega
    rw [List.cons_append, lexFrom, lexeme_before ds hsettled]
    simp only
    rw [ih hlater, hstop]
    simp only [List.cons_append, List.append_assoc]
    rfl

theorem lex_append {a : String} (h : Closed (lex a).tokens) (b : String) :
    lex (a ++ b) = ⟨(lex a).tokens ++ (lex b).tokens.map (Token.moved (Text.size a)),
      (lex a).faults ++ (lex b).faults.map (Diagnostic.moved (Text.size a))⟩ := by
  rw [lex, String.toList_append, lexFrom_append h, Nat.zero_add]
  have hmoved := lexFrom_moved (Text.size a) 0 b.toList
  rw [Nat.zero_add] at hmoved
  rw [← Text.size, hmoved]
  rfl

end SourceModel.Calc
