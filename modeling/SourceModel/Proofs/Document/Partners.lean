import SourceModel.Proofs.Document.Carets
import SourceModel.Proofs.Document.Matching
import Mathlib.Order.Bounds.Basic

/-!
# Partners of brackets

Two scans look for partners: one goes on from an opening character and counts what is opened on the
way, the other goes back from a closing character and counts what is closed. Each of them either
comes to the first bracket that has no partner on the way, with something well bracketed behind it,
or comes to the end of the text at every depth. So both scans find the same pairs.
-/

namespace SourceModel

open Text (byteCount)

namespace CharPair

variable {pair : CharPair} {counts : Nat → Bool} {offset close start : Nat}
  {cs front : List Char}

private theorem eq_of_not_skipped {c : Char} (h : ¬ (pair.has c && counts offset) = false) :
    counts offset = true ∧ (c = pair.opening ∨ c = pair.closing) := by
  rw [Bool.not_eq_false, Bool.and_eq_true] at h
  simpa [has, and_comm] using h

variable (hne : pair.opening ≠ pair.closing)
include hne

private theorem exists_closing_or_none (cs : List Char) (offset : Nat) :
    (∃ inner back spans, cs = inner ++ pair.closing :: back ∧
      counts (offset + byteCount inner) = true ∧ Brackets pair counts offset inner spans) ∨
      ∀ depth, pair.closingFrom counts depth offset cs = none := by
  induction hn : cs.length using Nat.strong_induction_on generalizing cs offset with
  | _ n ih =>
    subst hn
    cases cs with
    | nil => exact .inr fun depth => rfl
    | cons c cs =>
      by_cases hc : (pair.has c && counts offset) = false
      · rcases ih cs.length (by simp) cs (offset + c.utf8Size) rfl with h | h
        · obtain ⟨inner, back, spans, rfl, hcounts, hinner⟩ := h
          have hcounts' : counts (offset + byteCount (c :: inner)) = true := by
            rwa [Text.byteCount_cons, ← Nat.add_assoc]
          exact .inl ⟨c :: inner, back, spans, rfl, hcounts', .skip hc hinner⟩
        · right
          intro depth
          rw [closingFrom_skip hc, h]
      obtain ⟨hcounted, rfl | rfl⟩ := eq_of_not_skipped hc
      · rcases ih cs.length (by simp) cs (offset + pair.opening.utf8Size) rfl with h | h
        · obtain ⟨inner, back, spans, rfl, hcounts, hinner⟩ := h
          rcases ih back.length (by simp; omega) back
              (offset + pair.opening.utf8Size + byteCount inner + pair.closing.utf8Size) rfl
            with h | h
          · obtain ⟨inner', back, later, rfl, hcounts', hlater⟩ := h
            refine .inl ⟨pair.opening :: (inner ++ pair.closing :: inner'), back, _, by simp, ?_,
              .pair hcounted hcounts rfl hinner hlater⟩
            simpa [Nat.add_assoc] using hcounts'
          · right
            intro depth
            rw [closingFrom_opening hcounted, hinner.closingFrom_append hne,
              closingFrom_closing hne hcounts, h]
        · right
          intro depth
          rw [closingFrom_opening hcounted, h]
      · exact .inl ⟨[], cs, [], rfl, hcounted, .nil⟩

private theorem exists_opening_or_none (front : List Char) :
    (∃ before inner spans, front = before ++ pair.opening :: inner ∧
      counts (byteCount before) = true ∧
      Brackets pair counts (byteCount before + pair.opening.utf8Size) inner spans) ∨
      ∀ depth, pair.openingBefore counts depth (byteCount front) front.reverse = none := by
  induction hn : front.length using Nat.strong_induction_on generalizing front with
  | _ n ih =>
    subst hn
    rcases List.eq_nil_or_concat' front with rfl | ⟨front, c, rfl⟩
    · exact .inr fun depth => rfl
    simp only [List.reverse_append, List.reverse_singleton, List.singleton_append,
      Text.byteCount_append, Text.byteCount_cons, Text.byteCount_nil, Nat.add_zero]
    by_cases hc : (pair.has c && counts (byteCount front)) = false
    · rcases ih front.length (by simp) front rfl with h | h
      · obtain ⟨before, inner, spans, rfl, hcounts, hinner⟩ := h
        refine .inl ⟨before, inner ++ [c], spans ++ [], by simp, hcounts,
          hinner.append (.skip ?_ .nil)⟩
        simpa [Nat.add_assoc] using hc
      · right
        intro depth
        rw [openingBefore_skip hc, h]
    obtain ⟨hcounted, rfl | rfl⟩ := eq_of_not_skipped hc
    · exact .inl ⟨front, [], [], rfl, hcounted, .nil⟩
    · rcases ih front.length (by simp) front rfl with h | h
      · obtain ⟨middle, inner, spans, rfl, hcounts, hinner⟩ := h
        have hclose : byteCount (middle ++ pair.opening :: inner) =
            byteCount middle + pair.opening.utf8Size + byteCount inner := by
          simp [Nat.add_assoc]
        rcases ih middle.length (by simp) middle rfl with h | h
        · obtain ⟨before, earlier, spans', rfl, hcounts', hearlier⟩ := h
          rw [hclose] at hcounted
          have hpair := Brackets.pair hcounts hcounted rfl hinner .nil
          have hstart : byteCount (before ++ pair.opening :: earlier) =
              byteCount before + pair.opening.utf8Size + byteCount earlier := by
            simp [Nat.add_assoc]
          rw [hstart] at hpair
          exact .inl ⟨before, earlier ++ pair.opening :: (inner ++ [pair.closing]), _, by simp,
            hcounts', hearlier.append hpair⟩
        · right
          intro depth
          rw [openingBefore_closing hcounted, hclose, List.reverse_append, List.reverse_cons,
            List.append_assoc, hinner.openingBefore_append hne, List.singleton_append,
            openingBefore_opening hne hcounts, h]
      · right
        intro depth
        rw [openingBefore_closing hcounted, h]

private theorem closingFrom_eq_some_iff :
    pair.closingFrom counts 0 offset cs = some close ↔
      ∃ inner back spans, cs = inner ++ pair.closing :: back ∧ close = offset + byteCount inner ∧
        counts close = true ∧ Brackets pair counts offset inner spans := by
  have hfound : ∀ {inner back spans}, Brackets pair counts offset inner spans →
      counts (offset + byteCount inner) = true →
      pair.closingFrom counts 0 offset (inner ++ pair.closing :: back) =
        some (offset + byteCount inner) := by
    intro inner back spans hinner hcounts
    rw [hinner.closingFrom_append hne, closingFrom_found hne hcounts]
  constructor
  · intro h
    rcases @exists_closing_or_none _ counts hne cs offset with hclosing | hnone
    · obtain ⟨inner, back, spans, rfl, hcounts, hinner⟩ := hclosing
      rw [hfound hinner hcounts, Option.some.injEq] at h
      subst h
      exact ⟨inner, back, spans, rfl, rfl, hcounts, hinner⟩
    · rw [hnone] at h
      cases h
  · rintro ⟨inner, back, spans, rfl, rfl, hcounts, hinner⟩
    exact hfound hinner hcounts

private theorem openingBefore_eq_some_iff :
    pair.openingBefore counts 0 (byteCount front) front.reverse = some start ↔
      ∃ before inner spans, front = before ++ pair.opening :: inner ∧ start = byteCount before ∧
        counts start = true ∧ Brackets pair counts (start + pair.opening.utf8Size) inner spans := by
  have hfound : ∀ {before inner spans},
      Brackets pair counts (byteCount before + pair.opening.utf8Size) inner spans →
      counts (byteCount before) = true →
      pair.openingBefore counts 0 (byteCount (before ++ pair.opening :: inner))
        (before ++ pair.opening :: inner).reverse = some (byteCount before) := by
    intro before inner spans hinner hcounts
    have hstop : byteCount (before ++ pair.opening :: inner) =
        byteCount before + pair.opening.utf8Size + byteCount inner := by
      simp [Nat.add_assoc]
    rw [hstop, List.reverse_append, List.reverse_cons, List.append_assoc,
      hinner.openingBefore_append hne, List.singleton_append, openingBefore_found hne hcounts]
  constructor
  · intro h
    rcases @exists_opening_or_none _ counts hne front with hopening | hnone
    · obtain ⟨before, inner, spans, rfl, hcounts, hinner⟩ := hopening
      rw [hfound hinner hcounts, Option.some.injEq] at h
      subst h
      exact ⟨before, inner, spans, rfl, rfl, hcounts, hinner⟩
    · rw [hnone] at h
      cases h
  · rintro ⟨before, inner, spans, rfl, rfl, hcounts, hinner⟩
    exact hfound hinner hcounts

end CharPair

namespace CharPairMatcher

variable {m : CharPairMatcher} {d : TextDocument} {pair : CharPair} {found : PairMatch}
  {offset start start' close close' : Nat}

/-- Whether the characters at two offsets are a pair of brackets that count, and those that count in
between are well bracketed. -/
def Joins (m : CharPairMatcher) (d : TextDocument) (pair : CharPair) (start close : Nat) : Prop :=
  ∃ front inner back, Encloses pair (m.counts d) 0 d.text.toList
    (start, close + pair.closing.utf8Size) front inner back

private theorem joins_iff :
    m.Joins d pair start close ↔
      ∃ front inner back spans,
        d.text.toList = front ++ pair.opening :: (inner ++ pair.closing :: back) ∧
        start = byteCount front ∧ close = start + pair.opening.utf8Size + byteCount inner ∧
        m.counts d start = true ∧ m.counts d close = true ∧
        Brackets pair (m.counts d) (start + pair.opening.utf8Size) inner spans := by
  constructor
  · rintro ⟨front, inner, back, htext, hstart, hstop, hcounts, hcounts', spans, hinner⟩
    have hclose : close = start + pair.opening.utf8Size + byteCount inner :=
      Nat.add_right_cancel hstop
    subst hclose
    exact ⟨front, inner, back, spans, htext, by simpa using hstart, rfl, hcounts, hcounts', hinner⟩
  · rintro ⟨front, inner, back, spans, htext, rfl, rfl, hcounts, hcounts', hinner⟩
    exact ⟨front, inner, back, htext, by simp, rfl, hcounts, hcounts', spans, hinner⟩

private theorem Joins.charFrom?_start (h : m.Joins d pair start close) :
    Text.charFrom? d.text start = some pair.opening := by
  obtain ⟨front, inner, back, spans, htext, hstart, -⟩ := joins_iff.1 h
  exact Text.charFrom?_eq_some_iff.2 ⟨front, _, htext, hstart.symm⟩

private theorem Joins.charFrom?_close (h : m.Joins d pair start close) :
    Text.charFrom? d.text close = some pair.closing := by
  obtain ⟨front, inner, back, spans, htext, rfl, rfl, -⟩ := joins_iff.1 h
  refine Text.charFrom?_eq_some_iff.2 ⟨front ++ pair.opening :: inner, back, ?_, ?_⟩
  · rw [htext, List.append_assoc, List.cons_append]
  · simp [Nat.add_assoc]

private theorem Joins.charTo?_close (h : m.Joins d pair start close) :
    Text.charTo? d.text (close + pair.closing.utf8Size) = some pair.closing := by
  obtain ⟨front, back, htext, hclose⟩ := Text.charFrom?_eq_some_iff.1 h.charFrom?_close
  exact Text.charTo?_eq_some_iff.2 ⟨front, back, htext, by rw [hclose]⟩

/-- The partner of a closing character is the one that the scan finds. -/
theorem joins_iff_openingBefore (hne : pair.opening ≠ pair.closing) {front back : List Char}
    (htext : d.text.toList = front ++ pair.closing :: back)
    (hcounts : m.counts d (byteCount front) = true) :
    m.Joins d pair start (byteCount front) ↔
      pair.openingBefore (m.counts d) 0 (byteCount front) front.reverse = some start := by
  rw [joins_iff, CharPair.openingBefore_eq_some_iff hne]
  constructor
  · rintro ⟨before, inner, back', spans, htext', hstart, hclose, hcounts', -, hinner⟩
    have happend : front ++ pair.closing :: back =
        (before ++ pair.opening :: inner) ++ pair.closing :: back' := by
      rw [← htext, htext', List.append_assoc, List.cons_append]
    have hcount : byteCount front = byteCount (before ++ pair.opening :: inner) := by
      rw [hclose, hstart]
      simp [Nat.add_assoc]
    obtain ⟨rfl, -⟩ := Text.append_inj_of_byteCount happend hcount
    exact ⟨before, inner, spans, rfl, hstart, hcounts', hinner⟩
  · rintro ⟨before, inner, spans, rfl, rfl, hcounts', hinner⟩
    refine ⟨before, inner, back, spans, ?_, rfl, ?_, hcounts', hcounts, hinner⟩
    · rw [htext, List.append_assoc, List.cons_append]
    · simp [Nat.add_assoc]

/-- The partner of an opening character is the one that the scan finds. -/
theorem joins_iff_closingFrom (hne : pair.opening ≠ pair.closing) {front back : List Char}
    (htext : d.text.toList = front ++ pair.opening :: back)
    (hcounts : m.counts d (byteCount front) = true) :
    m.Joins d pair (byteCount front) close ↔
      pair.closingFrom (m.counts d) 0 (byteCount front + pair.opening.utf8Size) back =
        some close := by
  rw [joins_iff, CharPair.closingFrom_eq_some_iff hne]
  constructor
  · rintro ⟨front', inner, back', spans, htext', hstart, hclose, -, hcounts', hinner⟩
    rw [htext] at htext'
    obtain ⟨rfl, hback⟩ := Text.append_inj_of_byteCount htext' hstart
    exact ⟨inner, back', spans, (List.cons.inj hback).2, hclose, hcounts', hinner⟩
  · rintro ⟨inner, back', spans, rfl, hclose, hcounts', hinner⟩
    exact ⟨front, inner, back', spans, htext, rfl, hclose, hcounts, hcounts', hinner⟩

/-- What is found from a character is a pair to which it belongs. -/
theorem matchFrom_eq_some_iff (hm : m.Distinct) :
    m.matchFrom d offset = some found ↔
      ∃ pair ∈ m.pairs, ∃ start close, m.Joins d pair start close ∧ found.region.offset = start ∧
        found.region.stop = close + pair.closing.utf8Size ∧
        (found.anchor = .left ∧ offset = start ∨ found.anchor = .right ∧ offset = close) := by
  constructor
  · intro h
    obtain ⟨front, c, back, htext, rfl, hcounts, pair, hp, hc⟩ := matchFrom_cases h
    have hne := hm.ne hp
    rcases hc with ⟨rfl, -⟩ | ⟨rfl, -⟩
    · rw [matchFrom_opening hm hp htext hcounts] at h
      obtain ⟨close, hclose, hfound⟩ := Option.bind_eq_some_iff.1 h
      obtain ⟨hoffset, hstop, hanchor⟩ := matched?_eq_some_iff.1 hfound
      have hjoins := (joins_iff_closingFrom hne htext hcounts).2 hclose
      exact ⟨pair, hp, _, close, hjoins, hoffset, hstop, .inl ⟨hanchor, rfl⟩⟩
    · rw [matchFrom_closing hm hp htext hcounts] at h
      obtain ⟨start, hstart, hfound⟩ := Option.bind_eq_some_iff.1 h
      obtain ⟨hoffset, hstop, hanchor⟩ := matched?_eq_some_iff.1 hfound
      have hjoins := (joins_iff_openingBefore hne htext hcounts).2 hstart
      exact ⟨pair, hp, start, _, hjoins, hoffset, hstop, .inr ⟨hanchor, rfl⟩⟩
  · rintro ⟨pair, hp, start, close, ⟨front, inner, back, hencloses⟩, hoffset, hstop, hanchor⟩
    obtain ⟨hleft, close', hclose, hright⟩ := matchFrom_of_encloses hm hp hencloses
    rcases hanchor with ⟨hanchor, rfl⟩ | ⟨hanchor, rfl⟩
    · exact hleft.trans (matched?_eq_some_iff.2 ⟨hoffset, hstop, hanchor⟩)
    · obtain rfl := Nat.add_right_cancel hclose
      exact hright.trans (matched?_eq_some_iff.2 ⟨hoffset, hstop, hanchor⟩)

/-! ## Partners -/

section Distinct

variable (hm : m.Distinct) (hp : pair ∈ m.pairs)
include hm hp

private theorem eq_of_joins_start (h : m.Joins d pair start close)
    (h' : m.Joins d pair start close') : close = close' := by
  obtain ⟨front, inner, back, spans, htext, rfl, -, hcounts, -⟩ := joins_iff.1 h
  rw [joins_iff_closingFrom (hm.ne hp) htext hcounts] at h h'
  exact Option.some.inj (h.symm.trans h')

private theorem eq_of_joins_close (h : m.Joins d pair start close)
    (h' : m.Joins d pair start' close) : start = start' := by
  obtain ⟨front, back, htext, rfl⟩ := Text.charFrom?_eq_some_iff.1 h.charFrom?_close
  obtain ⟨-, -, -, -, -, -, -, -, hcounts, -⟩ := joins_iff.1 h
  rw [joins_iff_openingBefore (hm.ne hp) htext hcounts] at h h'
  exact Option.some.inj (h.symm.trans h')

private theorem matchFrom_opening_iff (hc : Text.charFrom? d.text start = some pair.opening) :
    m.matchFrom d start = some found ↔
      found.anchor = .left ∧ found.region.offset = start ∧
        ∃ close, m.Joins d pair start close ∧
          found.region.stop = close + pair.closing.utf8Size := by
  rw [matchFrom_eq_some_iff hm]
  constructor
  · rintro ⟨pair', hp', start', close, hjoins, hoffset, hstop, ⟨hanchor, rfl⟩ | ⟨-, rfl⟩⟩
    · have hsame : pair'.opening = pair.opening :=
        Option.some.inj (hjoins.charFrom?_start.symm.trans hc)
      obtain rfl := hm.eq_of_mem hp' hp (c := pair'.opening) (by simp)
        (by simp [hsame])
      exact ⟨hanchor, hoffset, close, hjoins, hstop⟩
    · have hsame : pair'.closing = pair.opening :=
        Option.some.inj (hjoins.charFrom?_close.symm.trans hc)
      obtain rfl := hm.eq_of_mem hp' hp (c := pair'.closing) (by simp)
        (by simp [hsame])
      exact absurd hsame.symm (hm.ne hp)
  · rintro ⟨hanchor, hoffset, close, hjoins, hstop⟩
    exact ⟨pair, hp, start, close, hjoins, hoffset, hstop, .inl ⟨hanchor, rfl⟩⟩

private theorem matchFrom_closing_iff (hc : Text.charFrom? d.text close = some pair.closing) :
    m.matchFrom d close = some found ↔
      found.anchor = .right ∧ found.region.stop = close + pair.closing.utf8Size ∧
        m.Joins d pair found.region.offset close := by
  rw [matchFrom_eq_some_iff hm]
  constructor
  · rintro ⟨pair', hp', start, close', hjoins, hoffset, hstop, ⟨-, rfl⟩ | ⟨hanchor, rfl⟩⟩
    · have hsame : pair'.opening = pair.closing :=
        Option.some.inj (hjoins.charFrom?_start.symm.trans hc)
      obtain rfl := hm.eq_of_mem hp' hp (c := pair'.opening) (by simp)
        (by simp [hsame])
      exact absurd hsame (hm.ne hp)
    · have hsame : pair'.closing = pair.closing :=
        Option.some.inj (hjoins.charFrom?_close.symm.trans hc)
      obtain rfl := hm.eq_of_mem hp' hp (c := pair'.closing) (by simp)
        (by simp [hsame])
      exact ⟨hanchor, hstop, hoffset ▸ hjoins⟩
  · rintro ⟨hanchor, hstop, hjoins⟩
    exact ⟨pair, hp, _, close, hjoins, rfl, hstop, .inr ⟨hanchor, rfl⟩⟩

end Distinct

/-- The brackets of a pair are matched with their partners: an opening character with the first
closing one for which what counts in between is well bracketed, a closing character with the last
such opening one, and each with the other one. -/
structure FindsPartners (m : CharPairMatcher) (d : TextDocument) (pair : CharPair) : Prop where
  opening : ∀ start, Text.charFrom? d.text start = some pair.opening → ∀ found,
    m.matchFrom d start = some found ↔
      found.anchor = .left ∧ found.region.offset = start ∧
        ∃ close, IsLeast {close | m.Joins d pair start close} close ∧
          found.region.stop = close + pair.closing.utf8Size
  unclosed : ∀ start, Text.charFrom? d.text start = some pair.opening →
    (∀ close, ¬ m.Joins d pair start close) → m.matchFrom d start = none
  closing : ∀ close, Text.charFrom? d.text close = some pair.closing → ∀ found,
    m.matchFrom d close = some found ↔
      found.anchor = .right ∧ found.region.stop = close + pair.closing.utf8Size ∧
        IsGreatest {start | m.Joins d pair start close} found.region.offset
  unopened : ∀ close, Text.charFrom? d.text close = some pair.closing →
    (∀ start, ¬ m.Joins d pair start close) → m.matchFrom d close = none
  same : ∀ close (r : Region), Text.charFrom? d.text close = some pair.closing →
    r.stop = close + pair.closing.utf8Size →
    (m.matchFrom d r.offset = some ⟨r, .left⟩ ↔ m.matchFrom d close = some ⟨r, .right⟩)

private theorem findsPartners (hm : m.Distinct) (hp : pair ∈ m.pairs) : m.FindsPartners d pair where
  opening start hc found := by
    have hleast : ∀ close, m.Joins d pair start close ↔
        IsLeast {close | m.Joins d pair start close} close := by
      intro close
      constructor
      · intro h
        exact ⟨h, fun close' h' => Nat.le_of_eq (eq_of_joins_start hm hp h h')⟩
      · intro h
        exact h.1
    simp only [matchFrom_opening_iff hm hp hc, ← hleast]
  unclosed start hc h := by
    rw [Option.eq_none_iff_forall_ne_some]
    intro found hfound
    obtain ⟨-, -, close, hjoins, -⟩ := (matchFrom_opening_iff hm hp hc).1 hfound
    exact h close hjoins
  closing close hc found := by
    have hgreatest : ∀ start, m.Joins d pair start close ↔
        IsGreatest {start | m.Joins d pair start close} start := by
      intro start
      constructor
      · intro h
        exact ⟨h, fun start' h' => Nat.le_of_eq (eq_of_joins_close hm hp h' h)⟩
      · intro h
        exact h.1
    rw [matchFrom_closing_iff hm hp hc, hgreatest]
  unopened close hc h := by
    rw [Option.eq_none_iff_forall_ne_some]
    intro found hfound
    obtain ⟨-, -, hjoins⟩ := (matchFrom_closing_iff hm hp hc).1 hfound
    exact h _ hjoins
  same close r hc hstop := by
    rw [matchFrom_closing_iff hm hp hc, matchFrom_eq_some_iff hm]
    constructor
    · rintro ⟨pair', hp', start, close', hjoins, rfl, hstop', -⟩
      have hlast : Text.charTo? d.text r.stop = some pair.closing := by
        obtain ⟨front, back, htext, hclose⟩ := Text.charFrom?_eq_some_iff.1 hc
        exact Text.charTo?_eq_some_iff.2 ⟨front, back, htext, by rw [hstop, hclose]⟩
      have hlast' := hjoins.charTo?_close
      rw [← hstop', hlast, Option.some.injEq] at hlast'
      obtain rfl := hm.eq_of_mem hp hp' (c := pair.closing) (by simp [CharPair.chars])
        (by simp [CharPair.chars, hlast'])
      obtain rfl := Nat.add_right_cancel (hstop.symm.trans hstop')
      exact ⟨rfl, hstop, hjoins⟩
    · rintro ⟨-, -, hjoins⟩
      exact ⟨pair, hp, _, close, hjoins, rfl, hstop, .inl ⟨rfl, rfl⟩⟩

/-- If its brackets are all different, a matcher matches the brackets of each pair that count with
their partners and nothing that does not count, and at a caret it gives the match of the character
before it or else of the one behind it. -/
theorem matches_partners (m : CharPairMatcher) (d : TextDocument) (hm : m.Distinct) :
    (∀ pair ∈ m.pairs, m.FindsPartners d pair) ∧
      (∀ offset, m.counts d offset = false → m.matchFrom d offset = none) ∧
      FindsAtCarets d.text (m.matchFrom d) fun caret => (m.find d caret).1 := by
  refine ⟨?_, ?_, findsAtCarets m d⟩
  · intro pair hp
    exact findsPartners hm hp
  · intro offset hcounts
    exact matchFrom_eq_none hcounts

/-- A closing character and other brackets in a part of another type. -/
def quotedBrackets : TextDocument where
  text := "(«)»)"
  partitions :=
    [("parts", [⟨⟨0, 1, by decide⟩, "CODE"⟩, ⟨⟨1, 5, by decide⟩, "TEXT"⟩,
      ⟨⟨6, 1, by decide⟩, "CODE"⟩])]

def codeBrackets : CharPairMatcher where
  pairs := [⟨'(', ')'⟩, ⟨'«', '»'⟩]
  sections := { partitioning := "parts", primary := "CODE", byPartition := [("TEXT", "TEXT")] }
  sectionType := "CODE"

/-- The brackets around a part of another type are partners. -/
theorem matches_partners_quoted :
    codeBrackets.Distinct ∧ codeBrackets.FindsPartners quotedBrackets ⟨'(', ')'⟩ ∧
      codeBrackets.matchFrom quotedBrackets 3 = none ∧
      (codeBrackets.find quotedBrackets 7).1 = some ⟨⟨0, 7, by decide⟩, .right⟩ ∧
      (codeBrackets.find quotedBrackets 2).1 = none := by
  have hdistinct : codeBrackets.Distinct := by
    unfold CharPairMatcher.Distinct
    decide
  obtain ⟨hpartners, houtside, hcarets⟩ := matches_partners codeBrackets quotedBrackets hdistinct
  refine ⟨hdistinct, hpartners _ (by decide), houtside 3 (by decide), by decide, ?_⟩
  exact hcarets.inside _ (by decide)

end CharPairMatcher

end SourceModel
