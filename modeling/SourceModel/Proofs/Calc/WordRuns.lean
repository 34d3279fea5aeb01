import Mathlib.Data.List.TakeWhile
import SourceModel.Proofs.Calc.Words

/-!
# Words are longest runs

The words of a text are its longest runs of characters that are not blank. What stands between the
marks of a template is cut into words that way, and where the closing mark is lacking the words go
up to the end.
-/

namespace SourceModel.Calc

/-- A longest run of characters that are not blank, between what stands before it and behind it. -/
structure IsRun (front word back : List Char) : Prop where
  ne_nil : word ≠ []
  solid : ∀ c ∈ word, Text.isBlank c = false
  before : ∀ c ∈ front.getLast?, Text.isBlank c = true
  behind : ∀ c ∈ back.head?, Text.isBlank c = true

/-- A longest run in a text that starts at `pos`, with its position. -/
def IsWordIn (pos : Nat) (cs : List Char) (w : Nat × List Char) : Prop :=
  ∃ front back, cs = front ++ (w.2 ++ back) ∧ w.1 = pos + Text.byteCount front ∧
    IsRun front w.2 back

section Runs

variable {pos : Nat} {c : Char} {cs front word back : List Char} {w : Nat × List Char}

private theorem not_isWordIn_nil (w : Nat × List Char) : ¬ IsWordIn pos [] w := by
  rintro ⟨front, back, hcs, -, hrun⟩
  have hnil := List.append_eq_nil_iff.1 (List.append_eq_nil_iff.1 hcs.symm).2
  exact hrun.ne_nil hnil.1

private theorem isRun_cons : IsRun (c :: front) word back ↔
    IsRun front word back ∧ (front = [] → Text.isBlank c = true) := by
  cases front with
  | nil =>
    refine ⟨fun h => ⟨⟨h.ne_nil, h.solid, fun _ hd => (nomatch hd), h.behind⟩, fun _ => ?_⟩,
      fun ⟨h, hc⟩ => ⟨h.ne_nil, h.solid, fun d hd => ?_, h.behind⟩⟩
    · exact h.before c rfl
    · cases hd
      exact hc rfl
  | cons d front =>
    refine ⟨fun h => ⟨⟨h.ne_nil, h.solid, fun e he => ?_, h.behind⟩, fun hnil => (nomatch hnil)⟩,
      fun ⟨h, _⟩ => ⟨h.ne_nil, h.solid, fun e he => ?_, h.behind⟩⟩
    · exact h.before e (by rwa [List.getLast?_cons_cons])
    · exact h.before e (by rwa [List.getLast?_cons_cons] at he)

private theorem isWordIn_blank (hc : Text.isBlank c = true) :
    IsWordIn pos (c :: cs) w ↔ IsWordIn (pos + c.utf8Size) cs w := by
  constructor
  · rintro ⟨front, back, hcs, hpos, hrun⟩
    cases front with
    | nil =>
      obtain ⟨d, word, hw⟩ := List.exists_cons_of_ne_nil hrun.ne_nil
      rw [List.nil_append, hw, List.cons_append] at hcs
      have hsolid := hrun.solid c (by rw [hw, (List.cons.inj hcs).1]; exact List.mem_cons_self)
      rw [hc] at hsolid
      cases hsolid
    | cons d front =>
      obtain ⟨rfl, rfl⟩ := List.cons.inj hcs
      rw [Text.byteCount_cons, ← Nat.add_assoc] at hpos
      exact ⟨front, back, rfl, hpos, (isRun_cons.1 hrun).1⟩
  · rintro ⟨front, back, rfl, hpos, hrun⟩
    refine ⟨c :: front, back, rfl, ?_, isRun_cons.2 ⟨hrun, fun _ => hc⟩⟩
    rw [hpos, Text.byteCount_cons, ← Nat.add_assoc]

private theorem IsWordIn.le (h : IsWordIn pos cs w) : pos ≤ w.1 := by
  obtain ⟨front, back, -, hpos, -⟩ := h
  omega

private theorem isWordIn_start : IsWordIn pos cs (pos, word) ↔
    ∃ back, cs = word ++ back ∧ IsRun [] word back := by
  constructor
  · rintro ⟨front, back, hcs, hpos, hrun⟩
    cases front with
    | nil => exact ⟨back, hcs, hrun⟩
    | cons d front =>
      have hd := d.utf8Size_pos
      simp only [Text.byteCount_cons] at hpos
      omega
  · rintro ⟨back, hcs, hrun⟩
    exact ⟨[], back, hcs, rfl, hrun⟩

private theorem exists_isWordIn_or (pos : Nat) (cs : List Char) :
    (∃ word, IsWordIn pos cs (pos, word)) ∨ ∀ d ∈ cs.head?, Text.isBlank d = true := by
  cases cs with
  | nil => exact .inr fun _ hd => (nomatch hd)
  | cons c cs =>
    by_cases hc : Text.isBlank c = true
    · refine .inr fun d hd => ?_
      cases hd
      exact hc
    · have hsplit := @List.takeWhile_append_dropWhile _ (fun d => !Text.isBlank d) (c :: cs)
      refine .inl ⟨_, isWordIn_start.2 ⟨_, hsplit.symm, ?_, fun d hd => ?_, ?_, fun d hd => ?_⟩⟩
      · simp [hc]
      · have hd := List.mem_takeWhile_imp hd
        simpa using hd
      · exact fun _ hd => (nomatch hd)
      · have hnot := List.head?_dropWhile_not (fun d => !Text.isBlank d) (c :: cs)
        rw [Option.mem_def.1 hd] at hnot
        simpa using hnot

private theorem not_isWordIn_start (h : ∀ d ∈ cs.head?, Text.isBlank d = true) :
    ¬ IsWordIn pos cs (pos, word) := by
  intro hword
  obtain ⟨back, rfl, hrun⟩ := isWordIn_start.1 hword
  obtain ⟨d, word, rfl⟩ := List.exists_cons_of_ne_nil hrun.ne_nil
  have hd := h d rfl
  rw [hrun.solid d List.mem_cons_self] at hd
  cases hd

/-- A character that is not blank starts a word: it joins the word right behind it, or is one. -/
theorem isWordIn_solid_start (hc : Text.isBlank c = false) :
    IsWordIn pos (c :: cs) (pos, word) ↔ ∃ tail, word = c :: tail ∧
      (IsWordIn (pos + c.utf8Size) cs (pos + c.utf8Size, tail) ∨
        tail = [] ∧ ∀ d ∈ cs.head?, Text.isBlank d = true) := by
  rw [isWordIn_start]
  constructor
  · rintro ⟨back, hcs, hrun⟩
    obtain ⟨d, tail, rfl⟩ := List.exists_cons_of_ne_nil hrun.ne_nil
    obtain ⟨rfl, rfl⟩ := List.cons.inj hcs
    refine ⟨tail, rfl, ?_⟩
    by_cases htail : tail = []
    · subst htail
      exact .inr ⟨rfl, hrun.behind⟩
    · refine .inl (isWordIn_start.2 ⟨back, rfl, htail, fun d hd => ?_, hrun.before, hrun.behind⟩)
      exact hrun.solid d (List.mem_cons_of_mem c hd)
  · rintro ⟨tail, rfl, htail⟩
    rcases htail with hword | ⟨rfl, hblank⟩
    · obtain ⟨back, rfl, hrun⟩ := isWordIn_start.1 hword
      refine ⟨back, rfl, List.cons_ne_nil c tail, ?_, hrun.before, hrun.behind⟩
      exact List.forall_mem_cons.2 ⟨hc, hrun.solid⟩
    · refine ⟨cs, rfl, List.cons_ne_nil c [], ?_, fun _ hd => (nomatch hd), hblank⟩
      exact List.forall_mem_singleton.2 hc

private theorem isWordIn_solid_later (hc : Text.isBlank c = false) (hw : w.1 ≠ pos) :
    IsWordIn pos (c :: cs) w ↔
      IsWordIn (pos + c.utf8Size) cs w ∧ w.1 ≠ pos + c.utf8Size := by
  constructor
  · rintro ⟨front, back, hcs, hpos, hrun⟩
    cases front with
    | nil => exact absurd hpos hw
    | cons d front =>
      obtain ⟨rfl, rfl⟩ := List.cons.inj hcs
      obtain ⟨hrun, hfront⟩ := isRun_cons.1 hrun
      rw [Text.byteCount_cons, ← Nat.add_assoc] at hpos
      refine ⟨⟨front, back, rfl, hpos, hrun⟩, fun heq => ?_⟩
      cases front with
      | nil =>
        rw [hfront rfl] at hc
        cases hc
      | cons e front =>
        have he := e.utf8Size_pos
        rw [Text.byteCount_cons] at hpos
        omega
  · rintro ⟨⟨front, back, rfl, hpos, hrun⟩, hne⟩
    refine ⟨c :: front, back, rfl, ?_, isRun_cons.2 ⟨hrun, ?_⟩⟩
    · rw [hpos, Text.byteCount_cons, ← Nat.add_assoc]
    · rintro rfl
      exact absurd hpos hne

end Runs

/-! ## The words of a text -/

section Words

variable {pos : Nat} {c : Char} {cs word : List Char} {w : Nat × List Char}
  {ws : List (Nat × List Char)}

private theorem isWordIn_alone (hc : Text.isBlank c = false)
    (hws : ∀ v, v ∈ ws ↔ IsWordIn (pos + c.utf8Size) cs v)
    (hnone : ∀ v ∈ ws, v.1 ≠ pos + c.utf8Size) :
    w ∈ (pos, [c]) :: ws ↔ IsWordIn pos (c :: cs) w := by
  obtain ⟨start, word⟩ := w
  have hnot : ∀ tail, ¬ IsWordIn (pos + c.utf8Size) cs (pos + c.utf8Size, tail) :=
    fun tail htail => hnone _ ((hws _).2 htail) rfl
  rw [List.mem_cons]
  by_cases hstart : start = pos
  · subst hstart
    have hblank := (exists_isWordIn_or (start + c.utf8Size) cs).resolve_left
      fun ⟨tail, htail⟩ => hnot tail htail
    have hbehind : (start, word) ∉ ws := fun hmem => by
      have hle := ((hws _).1 hmem).le
      have hpos := c.utf8Size_pos
      dsimp only at hle
      omega
    rw [isWordIn_solid_start hc]
    constructor
    · rintro (heq | hmem)
      · exact ⟨[], (Prod.mk.inj heq).2, .inr ⟨rfl, hblank⟩⟩
      · exact absurd hmem hbehind
    · rintro ⟨tail, rfl, htail | ⟨rfl, -⟩⟩
      · exact absurd htail (hnot tail)
      · exact .inl rfl
  · rw [isWordIn_solid_later hc hstart, ← hws]
    constructor
    · rintro (heq | hmem)
      · exact absurd (Prod.mk.inj heq).1 hstart
      · exact ⟨hmem, hnone _ hmem⟩
    · exact fun h => .inr h.1

private theorem isWordIn_joined (hc : Text.isBlank c = false)
    (hws : ∀ v, v ∈ (pos + c.utf8Size, word) :: ws ↔ IsWordIn (pos + c.utf8Size) cs v)
    (hlater : ∀ v ∈ ws, v.1 ≠ pos + c.utf8Size) :
    w ∈ (pos, c :: word) :: ws ↔ IsWordIn pos (c :: cs) w := by
  obtain ⟨start, word'⟩ := w
  have hfirst := (hws _).1 List.mem_cons_self
  rw [List.mem_cons]
  by_cases hstart : start = pos
  · subst hstart
    have hbehind : (start, word') ∉ ws := fun hmem => by
      have hle := ((hws _).1 (List.mem_cons_of_mem _ hmem)).le
      have hpos := c.utf8Size_pos
      dsimp only at hle
      omega
    rw [isWordIn_solid_start hc]
    constructor
    · rintro (heq | hmem)
      · exact ⟨word, (Prod.mk.inj heq).2, .inl hfirst⟩
      · exact absurd hmem hbehind
    · rintro ⟨tail, rfl, htail | ⟨-, hblank⟩⟩
      · rcases List.mem_cons.1 ((hws _).2 htail) with heq | hmem
        · exact .inl (by rw [(Prod.mk.inj heq).2])
        · exact absurd rfl (hlater _ hmem)
      · exact absurd hfirst (not_isWordIn_start hblank)
  · rw [isWordIn_solid_later hc hstart, ← hws, List.mem_cons]
    constructor
    · rintro (heq | hmem)
      · exact absurd (Prod.mk.inj heq).1 hstart
      · exact ⟨.inr hmem, hlater _ hmem⟩
    · rintro ⟨heq | hmem, hne⟩
      · exact absurd (Prod.mk.inj heq).1 hne
      · exact .inr hmem

private theorem WordsIn.le_of_mem {lo hi : Nat} (h : WordsIn lo hi ws) (hw : w ∈ ws) :
    lo ≤ w.1 := by
  induction ws generalizing lo with
  | nil => cases hw
  | cons v ws ih =>
    rcases List.mem_cons.1 hw with rfl | hw
    · exact h.1
    · exact Nat.le_trans h.1 (Nat.le_trans (Nat.le_add_right _ _) (ih h.2 hw))

theorem WordsIn.pairwise {lo hi : Nat} (h : WordsIn lo hi ws) :
    ws.Pairwise fun v w => v.1 + Text.byteCount v.2 ≤ w.1 := by
  induction ws generalizing lo with
  | nil => exact .nil
  | cons v ws ih => exact List.pairwise_cons.2 ⟨fun w hw => h.2.le_of_mem hw, ih h.2⟩

/-- The words of a text are its longest runs. The induction is on the characters of the text, from
its end. -/
theorem mem_wordsFrom (pos : Nat) (cs : List Char) :
    ∀ w, w ∈ wordsFrom pos cs ↔ IsWordIn pos cs w := by
  fun_induction wordsFrom pos cs with
  | case1 pos => exact fun w => iff_of_false List.not_mem_nil (not_isWordIn_nil w)
  | case2 pos c cs next hblank ih => exact fun w => (ih w).trans (isWordIn_blank hblank).symm
  | case3 pos c cs next hblank hnil ih =>
    rw [hnil] at ih
    exact fun _ => isWordIn_alone (Bool.of_not_eq_true hblank) ih (List.forall_mem_nil _)
  | case4 pos c cs next hblank word later hcons ih =>
    rw [hcons] at ih
    have hwords := wordsIn_wordsFrom next cs
    rw [hcons] at hwords
    refine fun _ => isWordIn_joined (Bool.of_not_eq_true hblank) ih fun v hv => ?_
    obtain ⟨_, _, -, -, hrun⟩ := (ih _).1 List.mem_cons_self
    have hpos := Text.byteCount_pos hrun.ne_nil
    have hle := hwords.2.le_of_mem hv
    dsimp only at hpos hle
    omega
  | case5 pos c cs next hblank start word later hcons hne ih =>
    rw [hcons] at ih
    have hwords := wordsIn_wordsFrom next cs
    rw [hcons] at hwords
    refine fun _ => isWordIn_alone (Bool.of_not_eq_true hblank) ih ?_
    refine List.forall_mem_cons.2 ⟨hne, fun v hv => ?_⟩
    have hstart : next ≤ start := hwords.1
    have hle := hwords.2.le_of_mem hv
    omega

/-- A blank of three bytes stands between the words. -/
example : wordsFrom 2 [' ', 'a', '\u3000', 'b', 'é'] = [(3, ['a']), (7, ['b', 'é'])] := by decide

theorem IsWordIn.slice?_eq {text : String} (h : IsWordIn pos cs w)
    (hpart : Text.slice? text pos (pos + Text.byteCount cs) = some (String.ofList cs)) :
    w.1 + Text.byteCount w.2 ≤ pos + Text.byteCount cs ∧
      Text.slice? text w.1 (w.1 + Text.byteCount w.2) = some (String.ofList w.2) := by
  obtain ⟨front, back, rfl, hpos, -⟩ := h
  rw [hpos, Nat.add_assoc]
  constructor
  · simp only [Text.byteCount_append]
    omega
  · refine Text.slice?_slice? hpart (Text.slice?_eq_some_iff.2 ⟨front, back, ?_, rfl, ?_⟩)
    · rw [String.toList_ofList, String.toList_ofList]
    · rw [Text.size_ofList]

end Words

/-! ## Between the marks of a template -/

/-- What stands between the marks of a template, up to its end where the closing mark is lacking. -/
inductive IsInterior : List Char → List Char → Prop
  | closed (inner : List Char) : IsInterior ('{' :: '%' :: (inner ++ ['%', '}'])) inner
  | unclosed {inner : List Char} (h : ¬ ['%', '}'] <:+ inner) :
    IsInterior ('{' :: '%' :: inner) inner

section Interior

variable {chunk inner : List Char} {offset : Nat}

theorem exists_isInterior (rest : List Char) : ∃ inner, IsInterior ('{' :: '%' :: rest) inner := by
  by_cases h : ['%', '}'] <:+ rest
  · obtain ⟨inner, rfl⟩ := h
    exact ⟨inner, .closed inner⟩
  · exact ⟨rest, .unclosed h⟩

theorem IsInterior.templateInterior_eq (h : IsInterior chunk inner) :
    templateInterior (String.ofList chunk) = (2, 2 + Text.byteCount inner) := by
  have hbrace : '{'.utf8Size = 1 := by decide
  have hpercent : '%'.utf8Size = 1 := by decide
  have hclose : '}'.utf8Size = 1 := by decide
  cases h with
  | closed =>
    have hsize : Text.size (String.ofList ('{' :: '%' :: (inner ++ ['%', '}']))) =
        2 + Text.byteCount inner + 2 := by
      simp only [Text.size_ofList, Text.byteCount_cons, Text.byteCount_append, Text.byteCount_nil,
        hbrace, hpercent, hclose]
      omega
    have hmark : isClosedTemplate (String.ofList ('{' :: '%' :: (inner ++ ['%', '}']))) = true := by
      rw [isClosedTemplate, hsize, Bool.and_eq_true, endsWithMark, String.toList_ofList,
        List.isSuffixOf_iff_suffix]
      exact ⟨⟨'{' :: '%' :: inner, rfl⟩, decide_eq_true (by omega)⟩
    simp only [templateInterior, hmark, hsize, if_true]
    exact Prod.ext (by dsimp only; omega) rfl
  | unclosed h =>
    have hsize : Text.size (String.ofList ('{' :: '%' :: inner)) = 2 + Text.byteCount inner := by
      simp only [Text.size_ofList, Text.byteCount_cons, hbrace, hpercent]
      omega
    have hmark : isClosedTemplate (String.ofList ('{' :: '%' :: inner)) = false := by
      refine Bool.eq_false_iff.2 fun hmark => ?_
      rw [isClosedTemplate, hsize, Bool.and_eq_true, endsWithMark, String.toList_ofList,
        List.isSuffixOf_iff_suffix, decide_eq_true_eq] at hmark
      obtain ⟨hsuffix, hlong⟩ := hmark
      -- The closing mark would have to share its first character with the opening one.
      rcases List.suffix_cons_iff.1 hsuffix with heq | hsuffix
      · cases heq
      rcases List.suffix_cons_iff.1 hsuffix with heq | hsuffix
      · cases heq
        simp only [Text.byteCount_cons, Text.byteCount_nil, hclose] at hlong
        omega
      · exact h hsuffix
    simp only [templateInterior, hmark, hsize, Bool.false_eq_true, if_false]
    exact Prod.ext (by dsimp only; omega) rfl

private theorem IsInterior.exists_append (h : IsInterior chunk inner) :
    ∃ back, chunk = '{' :: '%' :: (inner ++ back) := by
  cases h with
  | closed => exact ⟨_, rfl⟩
  | unclosed => exact ⟨[], by rw [List.append_nil]⟩

theorem IsInterior.slice?_eq (h : IsInterior chunk inner) :
    Text.slice? (String.ofList chunk) 2 (2 + Text.byteCount inner) =
      some (String.ofList inner) := by
  obtain ⟨back, rfl⟩ := h.exists_append
  refine Text.slice?_eq_some_iff.2 ⟨['{', '%'], back, ?_, by decide, by rw [Text.size_ofList]⟩
  rw [String.toList_ofList, String.toList_ofList]
  rfl

theorem IsInterior.chunkWords_eq (h : IsInterior chunk inner) (offset : Nat) :
    chunkWords offset (String.ofList chunk) = wordsFrom (offset + 2) inner := by
  rw [chunkWords, h.templateInterior_eq, h.slice?_eq, Option.getD_some, String.toList_ofList]

end Interior

end SourceModel.Calc
