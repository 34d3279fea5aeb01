import SourceModel.Document.Pair
import Mathlib.Data.List.Nodup
import Mathlib.Data.List.Pairwise

/-!
# Matches in well-bracketed texts

The search for a partner passes over all that is well bracketed, so a pair with something well
bracketed in between is found from either of its two characters. In a text whose counted characters
are well bracketed a matcher of one kind of bracket finds just the pairs of the text.
-/

namespace SourceModel

open Text (byteCount)

/-- `Brackets pair counts offset cs spans`: from `offset` on, the characters that count are well
bracketed, and `spans` are the bounds of the pairs, in the order of their opening characters. -/
inductive Brackets (pair : CharPair) (counts : Nat → Bool) :
    Nat → List Char → List (Nat × Nat) → Prop where
  | nil {offset : Nat} : Brackets pair counts offset [] []
  | skip {offset : Nat} {c : Char} {cs : List Char} {spans : List (Nat × Nat)}
      (outside : (pair.has c && counts offset) = false) :
      Brackets pair counts (offset + c.utf8Size) cs spans →
      Brackets pair counts offset (c :: cs) spans
  | pair {offset close : Nat} {inner cs : List Char} {spans later : List (Nat × Nat)}
      (counted : counts offset) (counted' : counts close)
      (close_eq : close = offset + pair.opening.utf8Size + byteCount inner) :
      Brackets pair counts (offset + pair.opening.utf8Size) inner spans →
      Brackets pair counts (close + pair.closing.utf8Size) cs later →
      Brackets pair counts offset (pair.opening :: (inner ++ pair.closing :: cs))
        ((offset, close + pair.closing.utf8Size) :: (spans ++ later))

namespace CharPair

variable {pair : CharPair} {counts : Nat → Bool} {depth offset : Nat} {cs : List Char}

def chars (pair : CharPair) : List Char := [pair.opening, pair.closing]

@[simp] theorem opening_mem_chars : pair.opening ∈ pair.chars := by simp [chars]

@[simp] theorem closing_mem_chars : pair.closing ∈ pair.chars := by simp [chars]

@[simp] theorem has_opening : pair.has pair.opening = true := by simp [has]

@[simp] theorem has_closing : pair.has pair.closing = true := by simp [has]

theorem closingFrom_skip {c : Char} (h : (pair.has c && counts offset) = false) :
    pair.closingFrom counts depth offset (c :: cs) =
      pair.closingFrom counts depth (offset + c.utf8Size) cs := by
  simp [closingFrom, h]

theorem closingFrom_opening (h : counts offset) :
    pair.closingFrom counts depth offset (pair.opening :: cs) =
      pair.closingFrom counts (depth + 1) (offset + pair.opening.utf8Size) cs := by
  simp [closingFrom, h]

theorem closingFrom_closing (hne : pair.opening ≠ pair.closing) (h : counts offset) :
    pair.closingFrom counts (depth + 1) offset (pair.closing :: cs) =
      pair.closingFrom counts depth (offset + pair.closing.utf8Size) cs := by
  simp [closingFrom, h, hne.symm]

theorem closingFrom_found (hne : pair.opening ≠ pair.closing) (h : counts offset) :
    pair.closingFrom counts 0 offset (pair.closing :: cs) = some offset := by
  simp [closingFrom, h, hne.symm]

theorem openingBefore_skip {c : Char} (h : (pair.has c && counts offset) = false) :
    pair.openingBefore counts depth (offset + c.utf8Size) (c :: cs) =
      pair.openingBefore counts depth offset cs := by
  simp [openingBefore, h]

theorem openingBefore_closing (h : counts offset) :
    pair.openingBefore counts depth (offset + pair.closing.utf8Size) (pair.closing :: cs) =
      pair.openingBefore counts (depth + 1) offset cs := by
  simp [openingBefore, h]

theorem openingBefore_opening (hne : pair.opening ≠ pair.closing) (h : counts offset) :
    pair.openingBefore counts (depth + 1) (offset + pair.opening.utf8Size) (pair.opening :: cs) =
      pair.openingBefore counts depth offset cs := by
  simp [openingBefore, h, hne]

theorem openingBefore_found (hne : pair.opening ≠ pair.closing) (h : counts offset) :
    pair.openingBefore counts 0 (offset + pair.opening.utf8Size) (pair.opening :: cs) =
      some offset := by
  simp [openingBefore, h, hne]

/-- What is found before an offset counts. -/
theorem counts_of_openingBefore {start stop : Nat}
    (h : pair.openingBefore counts depth stop cs = some start) : counts start = true := by
  fun_induction openingBefore pair counts depth stop cs with
  | case1 => cases h
  | case4 stop c cs _ hhas _ =>
    rw [Option.some.injEq] at h
    simp only [Bool.not_eq_true', Bool.not_eq_false, Bool.and_eq_true] at hhas
    exact h ▸ hhas.2
  | case2 | case3 | case5 =>
    rename_i ih
    exact ih h

end CharPair

namespace Brackets

variable {pair : CharPair} {counts : Nat → Bool} {offset : Nat} {cs ds : List Char}
  {spans later : List (Nat × Nat)}

theorem append (h : Brackets pair counts offset cs spans)
    (h' : Brackets pair counts (offset + byteCount cs) ds later) :
    Brackets pair counts offset (cs ++ ds) (spans ++ later) := by
  induction h with
  | nil => exact h'
  | skip outside _ ih =>
    refine .skip outside (ih ?_)
    rwa [Text.byteCount_cons, ← Nat.add_assoc] at h'
  | pair counted counted' close_eq hinner _ _ ih =>
    have hrest := ih (by
      simpa [close_eq, Nat.add_assoc] using h')
    have hpair := Brackets.pair counted counted' close_eq hinner hrest
    simpa using hpair

/-- The search for a closing character passes over what is well bracketed. -/
theorem closingFrom_append (hne : pair.opening ≠ pair.closing)
    (h : Brackets pair counts offset cs spans) (depth : Nat) :
    pair.closingFrom counts depth offset (cs ++ ds) =
      pair.closingFrom counts depth (offset + byteCount cs) ds := by
  induction h generalizing depth ds with
  | nil => rfl
  | skip outside _ ih =>
    rw [List.cons_append, CharPair.closingFrom_skip outside, ih, Text.byteCount_cons, Nat.add_assoc]
  | pair counted counted' close_eq _ _ ih ih' =>
    rw [List.cons_append, List.append_assoc, CharPair.closingFrom_opening counted, ih, ← close_eq,
      List.cons_append, CharPair.closingFrom_closing hne counted', ih']
    simp only [close_eq, Text.byteCount_cons, Text.byteCount_append, Nat.add_assoc]

theorem openingBefore_append (hne : pair.opening ≠ pair.closing)
    (h : Brackets pair counts offset cs spans) (depth : Nat) :
    pair.openingBefore counts depth (offset + byteCount cs) (cs.reverse ++ ds) =
      pair.openingBefore counts depth offset ds := by
  induction h generalizing depth ds with
  | nil => rfl
  | skip outside _ ih =>
    rw [List.reverse_cons, List.append_assoc, Text.byteCount_cons, ← Nat.add_assoc, ih,
      List.singleton_append, CharPair.openingBefore_skip outside]
  | @pair offset close inner cs _ _ counted counted' close_eq _ _ ih ih' =>
    have hstop : offset + byteCount (pair.opening :: (inner ++ pair.closing :: cs)) =
        close + pair.closing.utf8Size + byteCount cs := by
      simp only [close_eq, Text.byteCount_cons, Text.byteCount_append, Nat.add_assoc]
    rw [hstop, List.reverse_cons, List.reverse_append, List.reverse_cons]
    simp only [List.append_assoc, List.cons_append, List.nil_append]
    rw [ih', CharPair.openingBefore_closing counted', close_eq, ih,
      CharPair.openingBefore_opening hne counted]

end Brackets

/-- The characters between two bounds are a pair with `inner` in between, `front` before it and
`back` behind it. -/
structure Encloses (pair : CharPair) (counts : Nat → Bool) (offset : Nat) (cs : List Char)
    (span : Nat × Nat) (front inner back : List Char) : Prop where
  text_eq : cs = front ++ pair.opening :: (inner ++ pair.closing :: back)
  start_eq : span.1 = offset + byteCount front
  stop_eq : span.2 = span.1 + pair.opening.utf8Size + byteCount inner + pair.closing.utf8Size
  counted : counts span.1
  counted' : counts (span.1 + pair.opening.utf8Size + byteCount inner)
  balanced : ∃ spans, Brackets pair counts (span.1 + pair.opening.utf8Size) inner spans

section Encloses

variable {pair : CharPair} {counts : Nat → Bool} {offset : Nat} {cs front inner back : List Char}
  {spans : List (Nat × Nat)} {span : Nat × Nat}

private theorem Encloses.within {offset' : Nat} {before later cs' : List Char}
    (h : Encloses pair counts offset' cs span front inner back)
    (hoffset : offset' = offset + byteCount before) (hcs : cs' = before ++ (cs ++ later)) :
    Encloses pair counts offset cs' span (before ++ front) inner (back ++ later) := by
  refine ⟨?_, ?_, h.stop_eq, h.counted, h.counted', h.balanced⟩
  · simp [hcs, h.text_eq]
  · rw [h.start_eq, hoffset, Text.byteCount_append, Nat.add_assoc]

private theorem append_cons_cases {α : Type} {as bs cs ds : List α} {a c : α}
    (h : as ++ a :: bs = cs ++ c :: ds) :
    (∃ mid, as = cs ++ c :: mid ∧ ds = mid ++ a :: bs) ∨ (cs = as ∧ c = a ∧ ds = bs) ∨
      ∃ mid, cs = as ++ a :: mid ∧ bs = mid ++ c :: ds := by
  rcases List.append_eq_append_iff.1 h with ⟨mid, rfl, hmid⟩ | ⟨mid, rfl, hmid⟩
  · cases mid with
    | nil =>
      obtain ⟨rfl, rfl⟩ := List.cons.inj hmid
      exact .inr (.inl ⟨List.append_nil as, rfl, rfl⟩)
    | cons b mid =>
      obtain ⟨rfl, rfl⟩ := List.cons.inj hmid
      exact .inr (.inr ⟨mid, rfl, rfl⟩)
  · cases mid with
    | nil =>
      obtain ⟨rfl, rfl⟩ := List.cons.inj hmid
      exact .inr (.inl ⟨(List.append_nil cs).symm, rfl, rfl⟩)
    | cons b mid =>
      obtain ⟨rfl, rfl⟩ := List.cons.inj hmid
      exact .inl ⟨mid, rfl, rfl⟩

namespace Brackets

theorem exists_encloses (h : Brackets pair counts offset cs spans) (hs : span ∈ spans) :
    ∃ front inner back, Encloses pair counts offset cs span front inner back := by
  induction h with
  | nil => cases hs
  | @skip offset c cs _ _ _ ih =>
    obtain ⟨front, inner, back, hin⟩ := ih hs
    refine ⟨[c] ++ front, inner, back ++ [], hin.within ?_ ?_⟩
    · simp
    · simp
  | @pair offset close inner cs _ _ counted counted' close_eq hinner _ ih ih' =>
    rcases List.mem_cons.1 hs with rfl | hs
    · refine ⟨[], inner, cs, rfl, rfl, ?_, counted, ?_, _, hinner⟩
      · simp only [close_eq]
      · rwa [← close_eq]
    · rcases List.mem_append.1 hs with hs | hs
      · obtain ⟨front, inside, back, hin⟩ := ih hs
        refine ⟨[pair.opening] ++ front, inside, back ++ pair.closing :: cs, hin.within ?_ ?_⟩
        · simp
        · simp
      · obtain ⟨front, inside, back, hin⟩ := ih' hs
        refine ⟨pair.opening :: (inner ++ [pair.closing]) ++ front, inside, back ++ [],
          hin.within ?_ ?_⟩
        · simp [close_eq, Nat.add_assoc]
        · simp

private theorem exists_span {c : Char} (h : Brackets pair counts offset cs spans)
    (hcs : cs = front ++ c :: back) (hhas : pair.has c)
    (hcounts : counts (offset + byteCount front)) :
    ∃ span ∈ spans, c = pair.opening ∧ span.1 = offset + byteCount front ∨
      c = pair.closing ∧ span.2 = offset + byteCount front + pair.closing.utf8Size := by
  induction h generalizing front back with
  | nil => simp at hcs
  | @skip offset d cs _ outside _ ih =>
    cases front with
    | nil =>
      obtain ⟨rfl, rfl⟩ := List.cons.inj hcs
      have hcounts' : counts offset = true := hcounts
      simp [hhas, hcounts'] at outside
    | cons e front =>
      obtain ⟨rfl, rfl⟩ := List.cons.inj hcs
      rw [Text.byteCount_cons, ← Nat.add_assoc] at hcounts ⊢
      exact ih rfl hcounts
  | @pair offset close inner cs _ _ counted counted' close_eq _ _ ih ih' =>
    cases front with
    | nil =>
      obtain ⟨rfl, rfl⟩ := List.cons.inj hcs
      exact ⟨_, List.mem_cons_self, .inl ⟨rfl, rfl⟩⟩
    | cons e front =>
      obtain ⟨rfl, hrest⟩ := List.cons.inj hcs
      rw [Text.byteCount_cons, ← Nat.add_assoc] at hcounts ⊢
      rcases append_cons_cases hrest with ⟨mid, rfl, -⟩ | ⟨rfl, rfl, -⟩ | ⟨mid, rfl, rfl⟩
      · obtain ⟨span, hs, hspan⟩ := ih rfl hcounts
        exact ⟨span, by simp [hs], hspan⟩
      · exact ⟨_, List.mem_cons_self, .inr ⟨rfl, by rw [close_eq]⟩⟩
      · have hfront : offset + pair.opening.utf8Size + byteCount (inner ++ pair.closing :: mid) =
            close + pair.closing.utf8Size + byteCount mid := by
          simp [close_eq, Nat.add_assoc]
        rw [hfront] at hcounts ⊢
        obtain ⟨span, hs, hspan⟩ := ih' rfl hcounts
        exact ⟨span, by simp [hs], hspan⟩

end Brackets

end Encloses

/-! ## Matchers -/

namespace CharPairMatcher

variable {m : CharPairMatcher} {d : TextDocument} {pair : CharPair} {c : Char} {start stop : Nat}
  {front back : List Char} {found : PairMatch} {spans : List (Nat × Nat)}

theorem matched?_eq_some_iff {anchor : PairAnchor} :
    matched? start stop anchor = some found ↔
      found.region.offset = start ∧ found.region.stop = stop ∧ found.anchor = anchor := by
  simp only [matched?, Option.map_eq_some_iff, Region.toOption_ofBounds?_eq_some_iff]
  constructor
  · rintro ⟨r, ⟨hstart, hstop⟩, rfl⟩
    exact ⟨hstart, hstop, rfl⟩
  · rintro ⟨hstart, hstop, rfl⟩
    exact ⟨found.region, ⟨hstart, hstop⟩, rfl⟩

theorem matchFrom_cases {offset : Nat} (h : m.matchFrom d offset = some found) :
    ∃ front c back, d.text.toList = front ++ c :: back ∧ byteCount front = offset ∧
      m.counts d offset ∧ ∃ pair ∈ m.pairs,
        c = pair.opening ∧ found.region.offset = offset ∨
        c = pair.closing ∧
          pair.openingBefore (m.counts d) 0 offset front.reverse = some found.region.offset := by
  unfold matchFrom at h
  obtain ⟨⟨front, rest⟩, hsplit, h⟩ := Option.bind_eq_some_iff.1 h
  obtain ⟨c, hc, h⟩ := Option.bind_eq_some_iff.1 h
  obtain ⟨htext, hfront⟩ := Text.splitBytes?_eq_some_iff.1 hsplit
  obtain ⟨back, rfl⟩ := List.head?_eq_some_iff.1 hc
  split at h
  · cases h
  rename_i hcounts
  rw [Bool.not_eq_true', Bool.not_eq_false] at hcounts
  refine ⟨front, c, back, htext, hfront, hcounts, ?_⟩
  split at h
  · rename_i pair hpair
    obtain ⟨closing, -, h⟩ := Option.bind_eq_some_iff.1 h
    have hopening : pair.opening = c := by simpa using List.find?_some hpair
    refine ⟨pair, List.mem_of_find?_eq_some hpair, .inl ⟨hopening.symm, ?_⟩⟩
    exact (matched?_eq_some_iff.1 h).1
  · obtain ⟨pair, hpair, h⟩ := Option.bind_eq_some_iff.1 h
    obtain ⟨opening, hopening, h⟩ := Option.bind_eq_some_iff.1 h
    have hclosing : pair.closing = c := by simpa using List.find?_some hpair
    refine ⟨pair, List.mem_of_find?_eq_some hpair, .inr ⟨hclosing.symm, ?_⟩⟩
    rw [hopening, (matched?_eq_some_iff.1 h).1]

theorem matchFrom_eq_none {offset : Nat} (h : m.counts d offset = false) :
    m.matchFrom d offset = none := by
  rw [Option.eq_none_iff_forall_ne_some]
  intro found hfound
  obtain ⟨-, -, -, -, -, hcounts, -⟩ := matchFrom_cases hfound
  rw [h] at hcounts
  cases hcounts

private theorem exists_of_matchAt {caret : Nat} (h : m.matchAt d caret = some found) :
    ∃ offset, m.matchFrom d offset = some found := by
  rcases Option.or_eq_some_iff.1 h with h | ⟨-, h⟩
  · obtain ⟨c, -, h⟩ := Option.bind_eq_some_iff.1 h
    exact ⟨_, h⟩
  · exact ⟨_, h⟩

theorem counts_of_matchAt {caret : Nat} (h : m.matchAt d caret = some found) :
    m.counts d found.region.offset = true := by
  obtain ⟨offset, h⟩ := exists_of_matchAt h
  obtain ⟨front, c, back, -, -, hcounts, pair, -, ⟨-, hstart⟩ | ⟨-, hstart⟩⟩ := matchFrom_cases h
  · rw [hstart]
    exact hcounts
  · exact CharPair.counts_of_openingBefore hstart

/-! ### Brackets that differ from each other -/

def Distinct (m : CharPairMatcher) : Prop := (m.pairs.flatMap CharPair.chars).Nodup

section Distinct

variable {pair' : CharPair}

theorem distinct_of_single (hm : m.pairs = [pair]) (hne : pair.opening ≠ pair.closing) :
    m.Distinct := by
  simp [Distinct, hm, CharPair.chars, hne]

theorem Distinct.eq_of_mem (hm : m.Distinct) (hp : pair ∈ m.pairs) (hp' : pair' ∈ m.pairs)
    (hc : c ∈ pair.chars) (hc' : c ∈ pair'.chars) : pair = pair' := by
  have : Std.Symm (Function.onFun List.Disjoint CharPair.chars) := ⟨fun _ _ h _ hc hc' => h hc' hc⟩
  by_contra hne
  exact (List.nodup_flatMap.1 hm).2.forall hp hp' hne hc hc'

theorem Distinct.ne (hm : m.Distinct) (hp : pair ∈ m.pairs) : pair.opening ≠ pair.closing := by
  have hnodup := (List.nodup_flatMap.1 hm).1 pair hp
  simpa [CharPair.chars] using hnodup

variable (hm : m.Distinct) (hp : pair ∈ m.pairs)
include hm hp

private theorem find?_opening : m.pairs.find? (fun q => q.opening == pair.opening) = some pair := by
  cases hfind : m.pairs.find? (fun q => q.opening == pair.opening) with
  | none =>
    have habsent := List.find?_eq_none.1 hfind pair hp
    simp at habsent
  | some q =>
    have hopening : q.opening = pair.opening := by simpa using List.find?_some hfind
    rw [hm.eq_of_mem (List.mem_of_find?_eq_some hfind) hp (c := q.opening) (by simp)
      (by simp [hopening])]

private theorem find?_opening_closing :
    m.pairs.find? (fun q => q.opening == pair.closing) = none := by
  rw [List.find?_eq_none]
  intro q hq hopening
  have hopening : q.opening = pair.closing := by simpa using hopening
  have hsame := hm.eq_of_mem hq hp (c := q.opening) (by simp) (by simp [hopening])
  exact hm.ne hp (hsame ▸ hopening)

private theorem find?_closing : m.pairs.find? (fun q => q.closing == pair.closing) = some pair := by
  cases hfind : m.pairs.find? (fun q => q.closing == pair.closing) with
  | none =>
    have habsent := List.find?_eq_none.1 hfind pair hp
    simp at habsent
  | some q =>
    have hclosing : q.closing = pair.closing := by simpa using List.find?_some hfind
    rw [hm.eq_of_mem (List.mem_of_find?_eq_some hfind) hp (c := q.closing) (by simp)
      (by simp [hclosing])]

theorem matchFrom_opening (htext : d.text.toList = front ++ pair.opening :: back)
    (hc : m.counts d (byteCount front)) :
    m.matchFrom d (byteCount front) =
      (pair.closingFrom (m.counts d) 0 (byteCount front + pair.opening.utf8Size) back).bind
        fun closing => matched? (byteCount front) (closing + pair.closing.utf8Size) .left := by
  have hsplit : Text.splitBytes? (byteCount front) d.text.toList =
      some (front, pair.opening :: back) := Text.splitBytes?_eq_some_iff.2 ⟨htext, rfl⟩
  simp [matchFrom, hsplit, hc, find?_opening hm hp]

theorem matchFrom_closing (htext : d.text.toList = front ++ pair.closing :: back)
    (hc : m.counts d (byteCount front)) :
    m.matchFrom d (byteCount front) =
      (pair.openingBefore (m.counts d) 0 (byteCount front) front.reverse).bind
        fun opening => matched? opening (byteCount front + pair.closing.utf8Size) .right := by
  have hsplit : Text.splitBytes? (byteCount front) d.text.toList =
      some (front, pair.closing :: back) := Text.splitBytes?_eq_some_iff.2 ⟨htext, rfl⟩
  simp [matchFrom, hsplit, hc, find?_opening_closing hm hp, find?_closing hm hp]

/-- A pair around something well bracketed is matched from both of its characters. -/
theorem matchFrom_of_encloses {inner : List Char} {span : Nat × Nat}
    (h : Encloses pair (m.counts d) 0 d.text.toList span front inner back) :
    m.matchFrom d span.1 = matched? span.1 span.2 .left ∧
      ∃ close, span.2 = close + pair.closing.utf8Size ∧
        m.matchFrom d close = matched? span.1 span.2 .right := by
  have hne := hm.ne hp
  obtain ⟨inside, hinner⟩ := h.balanced
  have hstart : span.1 = byteCount front := by rw [h.start_eq, Nat.zero_add]
  have hcounted := h.counted
  have hcounted' := h.counted'
  have hstop := h.stop_eq
  rw [hstart] at hinner hcounted hcounted' hstop ⊢
  have hclose : byteCount (front ++ pair.opening :: inner) =
      byteCount front + pair.opening.utf8Size + byteCount inner := by
    simp [Nat.add_assoc]
  constructor
  · rw [matchFrom_opening hm hp h.text_eq hcounted, hinner.closingFrom_append hne,
      CharPair.closingFrom_found hne hcounted', Option.bind_some, hstop]
  · refine ⟨_, hstop, ?_⟩
    have htext : d.text.toList = (front ++ pair.opening :: inner) ++ pair.closing :: back := by
      rw [h.text_eq, List.append_assoc, List.cons_append]
    rw [← hclose] at hcounted' hstop ⊢
    rw [matchFrom_closing hm hp htext hcounted', hclose, List.reverse_append, List.reverse_cons,
      List.append_assoc, hinner.openingBefore_append hne, List.singleton_append,
      CharPair.openingBefore_found hne hcounted, Option.bind_some, hstop, hclose]

theorem matchAt_of_encloses {r : Region} {inner : List Char}
    (h : Encloses pair (m.counts d) 0 d.text.toList (r.offset, r.stop) front inner back) :
    m.matchAt d (r.offset + pair.opening.utf8Size) = some ⟨r, .left⟩ ∧
      m.matchAt d r.stop = some ⟨r, .right⟩ := by
  obtain ⟨hleft, close, hclose, hright⟩ := matchFrom_of_encloses hm hp h
  have hfound : ∀ anchor, matched? r.offset r.stop anchor = some ⟨r, anchor⟩ :=
    fun _ => matched?_eq_some_iff.2 ⟨rfl, rfl, rfl⟩
  have hstart : r.offset = byteCount front := by simpa using h.start_eq
  have hstop : r.stop = byteCount (front ++ pair.opening :: inner) + pair.closing.utf8Size := by
    simpa [hstart, Nat.add_assoc] using h.stop_eq
  have hopening : Text.charTo? d.text (r.offset + pair.opening.utf8Size) = some pair.opening :=
    Text.charTo?_eq_some_iff.2 ⟨front, _, h.text_eq, by rw [hstart]⟩
  have hclosing : Text.charTo? d.text r.stop = some pair.closing := by
    refine Text.charTo?_eq_some_iff.2 ⟨front ++ pair.opening :: inner, back, ?_, hstop.symm⟩
    rw [h.text_eq, List.append_assoc, List.cons_append]
  constructor
  · simp only [matchAt, hopening, Option.bind_eq_bind, Option.bind_some, Nat.add_sub_cancel, hleft,
      hfound, Option.some_or]
  · simp only [matchAt, hclosing, Option.bind_eq_bind, Option.bind_some]
    rw [show r.stop - pair.closing.utf8Size = close from Nat.sub_eq_of_eq_add hclose, hright,
      hfound, Option.some_or]

end Distinct

/-! ### One kind of bracket -/

section One

variable (hm : m.pairs = [pair]) (hne : pair.opening ≠ pair.closing)
include hm hne

private theorem mem_of_matchFrom {offset : Nat}
    (h : Brackets pair (m.counts d) 0 d.text.toList spans)
    (hfound : m.matchFrom d offset = some found) :
    (found.region.offset, found.region.stop) ∈ spans := by
  have hfrom : ∀ span ∈ spans, m.matchFrom d span.1 = matched? span.1 span.2 .left ∧
      ∃ close, span.2 = close + pair.closing.utf8Size ∧
        m.matchFrom d close = matched? span.1 span.2 .right := by
    intro span hs
    obtain ⟨front, inner, back, hin⟩ := h.exists_encloses hs
    exact matchFrom_of_encloses (distinct_of_single hm hne) (by simp [hm]) hin
  obtain ⟨front, c, back, htext, rfl, hcounts, pair', hmem, hcase⟩ := matchFrom_cases hfound
  rw [hm, List.mem_singleton] at hmem
  subst hmem
  have hhas : pair'.has c := by
    rcases hcase with ⟨rfl, -⟩ | ⟨rfl, -⟩ <;> simp
  have hspan := h.exists_span htext hhas (by simpa using hcounts)
  obtain ⟨span, hs, ⟨-, hstart⟩ | ⟨-, hstop⟩⟩ := hspan
  · have hleft := (hfrom span hs).1
    rw [hstart, Nat.zero_add, hfound] at hleft
    obtain ⟨hoffset, hstop, -⟩ := matched?_eq_some_iff.1 hleft.symm
    rwa [hoffset, hstop, ← Nat.zero_add (byteCount front), ← hstart]
  · obtain ⟨close, hclose, hright⟩ := (hfrom span hs).2
    have heq : close = byteCount front := by omega
    rw [heq, hfound] at hright
    obtain ⟨hoffset, hstop', -⟩ := matched?_eq_some_iff.1 hright.symm
    rwa [hoffset, hstop']

theorem mem_of_matchAt {caret : Nat} (h : Brackets pair (m.counts d) 0 d.text.toList spans)
    (hfound : m.matchAt d caret = some found) :
    (found.region.offset, found.region.stop) ∈ spans := by
  obtain ⟨offset, hfrom⟩ := exists_of_matchAt hfound
  exact mem_of_matchFrom hm hne h hfrom

end One

end CharPairMatcher

end SourceModel
