import SourceModel.Proofs.Calc.Items

/-!
# What the lexer reports

The tokens of a text take all of its bytes. The lexer finds out while it reads whether a string or
a template is finished, and the lowering judges the finished token by its last characters. The two
differ where the last quote of an unfinished string is escaped, and nowhere else.
-/

namespace SourceModel.Calc

private theorem widths_lexFrom (offset : Nat) (cs : List Char) :
    Cst.widths ((lexFrom offset cs).tokens.map Token.leaf) = Text.byteCount cs := by
  fun_induction lexFrom offset cs with
  | case1 => rfl
  | case2 offset c cs l stop token later faults ih =>
    have hsplit : Text.byteCount l.tail + Text.byteCount l.rest = Text.byteCount cs := by
      rw [← Text.byteCount_append, lexeme_append]
    simp only [later] at ih ⊢
    simp only [List.map_cons, Cst.widths, Cst.width, Token.leaf, ih, token, Text.size_ofList,
      Text.byteCount_cons]
    omega

theorem widths_lex (source : String) :
    Cst.widths ((lex source).tokens.map Token.leaf) = Text.size source :=
  widths_lexFrom 0 source.toList

private theorem length_lexFrom_le (offset : Nat) (cs : List Char) :
    (lexFrom offset cs).tokens.length ≤ cs.length := by
  fun_induction lexFrom offset cs with
  | case1 => exact Nat.le_refl _
  | case2 offset c cs l stop token later faults ih =>
    have hrest := lexeme_rest_length c cs
    simp only [List.length_cons]
    exact Nat.succ_le_succ (Nat.le_trans ih hrest)

theorem length_lex_le (source : String) : (lex source).tokens.length ≤ Text.size source :=
  Nat.le_trans (length_lexFrom_le 0 source.toList) (Text.length_le_byteCount source.toList)

/-! ## Strings -/

private theorem splitString_idem (escaped : Bool) (cs : List Char) :
    (splitString escaped (splitString escaped cs).1).2.2 = (splitString escaped cs).2.2 := by
  fun_induction splitString escaped cs with
  | case1 => rfl
  | case2 => rfl
  | case3 escaped c cs hc hq => simp [splitString, hq]
  | case4 escaped c cs hc hq inner rest closed h ih =>
    rw [h] at ih
    simpa [splitString, hc, hq] using ih

private theorem splitString_getLast? {escaped : Bool} {cs : List Char}
    (h : (splitString escaped cs).2.2 = true) : (splitString escaped cs).1.getLast? = some '"' := by
  fun_induction splitString escaped cs with
  | case1 => cases h
  | case2 => cases h
  | case3 escaped c cs hc hq => simp [hq.1]
  | case4 escaped c cs hc hq inner rest closed heq ih =>
    rw [heq] at ih
    have hlast := ih h
    simp only at hlast
    simp [List.getLast?_cons, hlast]

private theorem isClosedString_of_closed {cs : List Char} (h : (splitString false cs).2.2 = true) :
    isClosedString (String.ofList ('"' :: (splitString false cs).1)) = true := by
  have hlast := splitString_getLast? h
  have hne : (splitString false cs).1 ≠ [] := by
    rintro he
    rw [he] at hlast
    cases hlast
  have hpos := Text.byteCount_pos hne
  have hquote : '"'.utf8Size = 1 := rfl
  simp only [isClosedString, Text.size_ofList, Text.byteCount_cons, String.toList_ofList,
    List.getLast?_cons, hlast, hquote, Option.getD_some, beq_self_eq_true, Bool.and_true,
    decide_eq_true_eq]
  omega

/-! ## Templates -/

private theorem splitTemplate_suffix {cs : List Char} (h : (splitTemplate cs).2.2 = true) :
    ['%', '}'] <:+ (splitTemplate cs).1 := by
  fun_induction splitTemplate cs with
  | case1 => cases h
  | case2 => exact List.suffix_rfl
  | case3 c cs hc inner rest closed heq ih =>
    rw [heq] at ih
    exact (ih h).trans (List.suffix_cons ..)

private theorem splitTemplate_not_suffix {cs : List Char} (h : (splitTemplate cs).2.2 = false) :
    ¬ ['%', '}'] <:+ (splitTemplate cs).1 := by
  fun_induction splitTemplate cs with
  | case1 => decide
  | case2 => cases h
  | case3 c cs hc inner rest closed heq ih =>
    rw [heq] at ih
    intro hs
    rcases List.suffix_cons_iff.1 hs with hs | hs
    · have happend := splitTemplate_append cs
      rw [heq] at happend
      simp only [List.cons.injEq] at hs
      rw [← hs.2] at happend
      exact hc _ hs.1.symm happend.symm
    · exact ih h hs

private theorem isClosedTemplate_eq (cs : List Char) :
    isClosedTemplate (String.ofList ('{' :: '%' :: (splitTemplate cs).1)) =
      (splitTemplate cs).2.2 := by
  have hlen := Text.length_le_byteCount (splitTemplate cs).1
  have hmarks : '{'.utf8Size = 1 ∧ '%'.utf8Size = 1 ∧ '}'.utf8Size = 1 := ⟨rfl, rfl, rfl⟩
  simp only [isClosedTemplate, endsWithMark, Text.size_ofList, String.toList_ofList,
    Text.byteCount_cons, hmarks]
  cases hclosed : (splitTemplate cs).2.2 with
  | true =>
    have hs := splitTemplate_suffix hclosed
    have hle := hs.length_le
    have hsuffix : ['%', '}'] <:+ '{' :: '%' :: (splitTemplate cs).1 :=
      hs.trans ((List.suffix_cons ..).trans (List.suffix_cons ..))
    simp only [List.length_cons, List.length_nil] at hle
    simp only [Bool.and_eq_true, List.isSuffixOf_iff_suffix, decide_eq_true_eq]
    exact ⟨hsuffix, by omega⟩
  | false =>
    simp only [Bool.and_eq_false_iff, decide_eq_false_iff_not]
    by_cases hs : ['%', '}'] <:+ '{' :: '%' :: (splitTemplate cs).1
    · right
      rcases List.suffix_cons_iff.1 hs with hs | hs
      · cases hs
      rcases List.suffix_cons_iff.1 hs with hs | hs
      · rw [← (List.cons.inj hs).2]
        simp [hmarks]
      · exact absurd hs (splitTemplate_not_suffix hclosed)
    · left
      exact Bool.eq_false_iff.2 fun h => hs (List.isSuffixOf_iff_suffix.1 h)

/-! ## Judgements about tokens -/

/-- Whether a string ends with a quote that does not end it. -/
def Token.endsEscaped (t : Token) : Bool :=
  t.kind = .string && isClosedString t.text && !(splitString false (t.text.toList.drop 1)).2.2

/-- What a token lacks by the judgement of the lexer. -/
def Token.flaw? (t : Token) : Option LexicalFault :=
  if t.endsEscaped then some .unterminatedString else t.lack?

private theorem flaw?_eq_none {t : Token} (h : t.kind ≠ .string ∧ t.kind ≠ .template) :
    t.flaw? = none := by
  rw [Token.flaw?, lack?_eq_none rfl h]
  simp [Token.endsEscaped, h.1]

/-- A lexeme that starts with `c` is reported for what its token lacks. The fault of an unknown
token is left to the parser. -/
def Lexeme.Judged (c : Char) (l : Lexeme) : Prop :=
  ∀ t : Token, t.kind = l.kind → t.text = String.ofList (c :: l.tail) →
    t.flaw? = if l.kind = .unknown then none else l.fault

section Judged

variable {c : Char} {l : Lexeme}

private theorem judged_plain (h : l.kind ≠ .string ∧ l.kind ≠ .template)
    (hf : l.kind = .unknown ∨ l.fault = none) : l.Judged c := by
  intro t hk _
  rw [flaw?_eq_none (by rwa [hk])]
  rcases hf with hf | hf <;> simp [hf]

private theorem judged_string (cs : List Char) :
    Lexeme.Judged '"' ⟨.string, (splitString false cs).1, (splitString false cs).2.1,
      if (splitString false cs).2.2 then none else some .unterminatedString⟩ := by
  intro t hk ht
  have hidem := splitString_idem false cs
  simp only [Token.flaw?, Token.endsEscaped, hk, ht, lack?_string hk, String.toList_ofList,
    List.drop_one, List.tail_cons, hidem]
  cases hclosed : (splitString false cs).2.2 with
  | true =>
    rw [isClosedString_of_closed hclosed]
    simp
  | false => cases isClosedString (String.ofList ('"' :: (splitString false cs).1)) <;> simp

private theorem judged_template (cs : List Char) :
    Lexeme.Judged '{' ⟨.template, '%' :: (splitTemplate cs).1, (splitTemplate cs).2.1,
      if (splitTemplate cs).2.2 then none else some .unterminatedTemplate⟩ := by
  intro t hk ht
  have hlack := lack?_template hk
  rw [ht, isClosedTemplate_eq] at hlack
  simp [Token.flaw?, Token.endsEscaped, hk, hlack]

private theorem lexeme_judged (c : Char) (cs : List Char) : (lexeme c cs).Judged c := by
  unfold lexeme
  split
  · exact judged_plain (by simp) (.inr rfl)
  split
  · exact judged_plain (by simp [Lexeme.run]) (.inr rfl)
  split
  · exact judged_plain (by simp [Lexeme.run]) (.inr rfl)
  split
  · rename_i hc
    rw [hc]
    exact judged_string cs
  split
  · rename_i hc
    obtain ⟨rest, rfl⟩ := List.head?_eq_some_iff.1 hc.2
    rw [hc.1]
    exact judged_template rest
  split
  · exact judged_plain (by simp [Lexeme.run]) (.inr rfl)
  split
  · exact judged_plain (by simp [Lexeme.run]) (.inr rfl)
  split
  · rename_i kind hs
    refine judged_plain ?_ (.inr rfl)
    unfold symbol? at hs
    split at hs <;> cases hs <;> simp
  · exact judged_plain (by simp) (.inl rfl)

end Judged

/-! ## Faults of a text -/

private theorem start_lexFrom (offset : Nat) (cs : List Char) :
    (∀ t ∈ (lexFrom offset cs).tokens, offset ≤ t.start) ∧
      ∀ f ∈ (lexFrom offset cs).faults, offset ≤ f.start := by
  fun_induction lexFrom offset cs with
  | case1 => simp
  | case2 offset c cs l stop token later faults ih =>
    have hle : offset ≤ stop := Nat.le_add_right _ _
    obtain ⟨htokens, hfaults⟩ := ih
    constructor
    · intro t ht
      rcases List.mem_cons.1 ht with rfl | ht
      · exact Nat.le_refl _
      · exact Nat.le_trans hle (htokens t ht)
    · intro f hf
      rcases List.mem_append.1 hf with hf | hf
      · obtain ⟨_, _, rfl⟩ := List.mem_map.1 hf
        exact Nat.le_refl _
      · exact Nat.le_trans hle (hfaults f hf)

/-- Whether a fault is about an unknown token, which the parser reports. -/
def isUnknownAmong (ts : List Token) (f : Diagnostic) : Bool :=
  ts.any fun t => t.kind = .unknown && t.start == f.start && t.stop == f.stop

/-- Apart from unknown tokens the lexer reports what the tokens lack. -/
theorem map_message_lexFrom (offset : Nat) (cs : List Char) :
    ((lexFrom offset cs).faults.filter fun f =>
        !isUnknownAmong (lexFrom offset cs).tokens f).map Diagnostic.message =
      ((lexFrom offset cs).tokens.filterMap Token.flaw?).map LexicalFault.message := by
  fun_induction lexFrom offset cs with
  | case1 => rfl
  | case2 offset c cs l stop token later faults ih =>
    have hlt : offset < stop := Nat.lt_add_of_pos_right (Text.byteCount_pos (List.cons_ne_nil _ _))
    obtain ⟨htokens, hfaults⟩ := start_lexFrom stop l.rest
    have hjudged : token.flaw? = if l.kind = .unknown then none else l.fault :=
      lexeme_judged c cs token rfl rfl
    have hhead : ∀ f ∈ faults, isUnknownAmong (token :: later.tokens) f =
        decide (l.kind = .unknown) := by
      intro f hf
      obtain ⟨_, _, rfl⟩ := List.mem_map.1 hf
      have hlater : ∀ t ∈ later.tokens, ¬ t.start = offset := by
        intro t ht
        have := htokens t ht
        omega
      rw [isUnknownAmong, List.any_cons, List.any_eq_false.2 fun t ht => by simp [hlater t ht]]
      simp [token]
    have htail : ∀ f ∈ later.faults, isUnknownAmong (token :: later.tokens) f =
        isUnknownAmong later.tokens f := by
      intro f hf
      have := hfaults f hf
      have hne : ¬ offset = f.start := by omega
      simp [isUnknownAmong, token, hne]
    rw [List.filter_append, List.map_append, List.filterMap_cons, hjudged,
      List.filter_congr fun f hf => congrArg (!·) (hhead f hf),
      List.filter_congr fun f hf => congrArg (!·) (htail f hf)]
    change _ ++ List.map _ (List.filter _ (lexFrom stop l.rest).faults) = _
    rw [ih]
    by_cases hk : l.kind = .unknown <;> cases hf : l.fault <;> simp [hk, hf, faults, later]

end SourceModel.Calc
