import SourceModel.Proofs.Lines
import SourceModel.Proofs.Search

/-!
# Lines found by their starts

The starts of the lines ascend from zero on. So those that are not behind an offset come first, and
the last of them is the start of its line. This makes the number of such starts what a search by
halves comes to, and it is never zero.
-/

namespace SourceModel

open Text (byteCount)

private theorem le_iff_lt_countP {xs : List Nat} (h : xs.Pairwise (· < ·)) {i x : Nat}
    (hx : xs[i]? = some x) (bound : Nat) : x ≤ bound ↔ i < xs.countP (· ≤ bound) := by
  induction xs generalizing i with
  | nil => cases hx
  | cons a xs ih =>
    obtain ⟨hlt, hxs⟩ := List.pairwise_cons.1 h
    by_cases ha : a ≤ bound
    · rw [List.countP_cons, if_pos (decide_eq_true ha)]
      cases i with
      | zero =>
        cases hx
        simp [ha]
      | succ i => rw [ih hxs hx, Nat.succ_lt_succ_iff]
    · have hnone : xs.countP (· ≤ bound) = 0 := by
        refine List.countP_eq_zero.2 fun b hb => ?_
        have hab := hlt b hb
        rw [decide_eq_true_eq]
        omega
      rw [List.countP_cons, hnone, if_neg (by simpa using ha)]
      have hax : a ≤ x := by
        rcases List.mem_cons.1 (List.mem_of_getElem? hx) with rfl | hmem
        · exact Nat.le_refl _
        · exact Nat.le_of_lt (hlt x hmem)
      omega

namespace SourceContent

/-! ## Starts of lines -/

private theorem pairwise_breaksFrom (offset : Nat) (cs : List Char) :
    (breaksFrom offset cs).Pairwise (· < ·) := by
  induction cs generalizing offset with
  | nil => exact .nil
  | cons c cs ih =>
    rw [breaksFrom]
    split
    · exact .cons (fun b hb => (mem_breaksFrom hb).1) (ih _)
    · exact ih _

/-- A line starts behind each line break. -/
theorem mem_breaksFrom_iff {offset b : Nat} {cs : List Char} :
    b ∈ breaksFrom offset cs ↔
      ∃ front back, cs = front ++ '\n' :: back ∧ b = offset + byteCount front + 1 := by
  constructor
  · intro h
    induction cs generalizing offset with
    | nil => cases h
    | cons c cs ih =>
      have htail : b ∈ breaksFrom (offset + c.utf8Size) cs →
          ∃ front back, c :: cs = front ++ '\n' :: back ∧ b = offset + byteCount front + 1 := by
        intro hb
        obtain ⟨front, back, rfl, rfl⟩ := ih hb
        exact ⟨c :: front, back, rfl, by rw [Text.byteCount_cons, Nat.add_assoc offset]⟩
      rw [breaksFrom] at h
      split at h
      · rename_i hc
        rcases List.mem_cons.1 h with rfl | h
        · exact ⟨[], cs, by rw [hc, List.nil_append], by rw [hc]; rfl⟩
        · exact htail h
      · exact htail h
  · rintro ⟨front, back, rfl, rfl⟩
    rw [breaksFrom_append]
    exact List.mem_append_right _ List.mem_cons_self

section Starts

variable {c : SourceContent} {line offset start next : Nat}

private theorem pairwise_lineStarts (c : SourceContent) : c.lineStarts.Pairwise (· < ·) :=
  .cons (fun _ hb => (mem_breaksFrom hb).1) (pairwise_breaksFrom 0 _)

private theorem le_size_of_mem (h : start ∈ c.lineStarts) : start ≤ c.size := by
  rcases List.mem_cons.1 h with rfl | h
  · exact Nat.zero_le _
  · have hle := (mem_breaksFrom h).2
    rwa [Nat.zero_add] at hle

private theorem offsetOfLine?_eq_ok_iff :
    c.offsetOfLine? line = .ok start ↔ c.lineStarts[line]? = some start := by
  rw [offsetOfLine?]
  split
  · rename_i found h
    rw [h, Option.some.injEq, Except.ok.injEq]
  · rename_i h
    rw [h]
    constructor <;> rintro ⟨⟩

def startedBy (c : SourceContent) (offset : Nat) : Nat := c.lineStarts.countP (· ≤ offset)

private theorem start_le_iff (h : c.offsetOfLine? line = .ok start) :
    start ≤ offset ↔ line < c.startedBy offset :=
  le_iff_lt_countP c.pairwise_lineStarts (offsetOfLine?_eq_ok_iff.1 h) offset

private theorem startedBy_pos (c : SourceContent) (offset : Nat) : 0 < c.startedBy offset := by
  have hfirst : c.offsetOfLine? 0 = .ok 0 := rfl
  exact (start_le_iff hfirst).1 (Nat.zero_le offset)

private theorem exists_offsetOfLine? (h : line < c.lineCount) :
    ∃ start, c.offsetOfLine? line = .ok start :=
  ⟨c.lineStarts[line], offsetOfLine?_eq_ok_iff.2 (List.getElem?_eq_getElem h)⟩

private theorem start_lt_next (h : c.offsetOfLine? line = .ok start)
    (h' : c.offsetOfLine? (line + 1) = .ok next) : start < next := by
  obtain ⟨hline, rfl⟩ := List.getElem?_eq_some_iff.1 (offsetOfLine?_eq_ok_iff.1 h)
  obtain ⟨hnext, rfl⟩ := List.getElem?_eq_some_iff.1 (offsetOfLine?_eq_ok_iff.1 h')
  exact List.pairwise_iff_getElem.1 c.pairwise_lineStarts _ _ _ _ (Nat.lt_succ_self line)

end Starts

/-! ## Lines of offsets -/

/-- Whether an offset is in a line: the line starts there or before, and the line behind it starts
later, if there is one. -/
structure HasOffset (c : SourceContent) (line offset : Nat) : Prop where
  start : ∃ start, c.offsetOfLine? line = .ok start ∧ start ≤ offset
  next : line + 1 < c.lineCount → ∃ next, c.offsetOfLine? (line + 1) = .ok next ∧ offset < next

def startsBy (c : SourceContent) (offset line : Nat) : Bool := c.lineStarts[line]?.any (· ≤ offset)

/-- The line of an offset, searched by halves. -/
def searchLine? (c : SourceContent) (offset : Nat) : Except Fault Nat :=
  if c.size < offset then .error (.badLocation offset 0)
  else .ok (searchPoint (c.startsBy offset) 0 c.lineCount - 1)

section Lookups

variable {c : SourceContent} {line offset start : Nat}

private theorem hasOffset_iff : c.HasOffset line offset ↔ line + 1 = c.startedBy offset := by
  constructor
  · rintro ⟨⟨start, hstart, hle⟩, hnext⟩
    have hline := (start_le_iff hstart).1 hle
    refine Nat.le_antisymm hline (Nat.le_of_not_lt fun hlt => ?_)
    obtain ⟨next, hok, hoffset⟩ := hnext (Nat.lt_of_lt_of_le hlt List.countP_le_length)
    exact absurd ((start_le_iff hok).2 hlt) (Nat.not_le.2 hoffset)
  · intro h
    have hline : line < c.startedBy offset := h ▸ Nat.lt_succ_self line
    obtain ⟨start, hstart⟩ := exists_offsetOfLine? (c := c)
      (Nat.lt_of_lt_of_le hline List.countP_le_length)
    refine ⟨⟨start, hstart, (start_le_iff hstart).2 hline⟩, fun hlt => ?_⟩
    obtain ⟨next, hnext⟩ := exists_offsetOfLine? hlt
    refine ⟨next, hnext, Nat.lt_of_not_le fun hle => ?_⟩
    exact Nat.lt_irrefl _ (h ▸ (start_le_iff hnext).1 hle)

private theorem hasOffset_start (h : c.offsetOfLine? line = .ok start) :
    c.HasOffset line start := by
  refine ⟨⟨start, h, Nat.le_refl _⟩, fun hlt => ?_⟩
  obtain ⟨next, hnext⟩ := exists_offsetOfLine? hlt
  exact ⟨next, hnext, start_lt_next h hnext⟩

private theorem lineOf?_eq_ok_iff (h : offset ≤ c.size) :
    c.lineOf? offset = .ok line ↔ c.HasOffset line offset := by
  have hpos := c.startedBy_pos offset
  rw [hasOffset_iff, lineOf?, if_neg (Nat.not_lt.2 h), Except.ok.injEq, ← startedBy]
  omega

private theorem searchPoint_startsBy (c : SourceContent) (offset : Nat) :
    searchPoint (c.startsBy offset) 0 c.lineCount = c.startedBy offset := by
  have hstarts : ∀ line < c.lineCount,
      c.startsBy offset line = decide (line < c.startedBy offset) := by
    intro line hline
    obtain ⟨start, hstart⟩ := exists_offsetOfLine? hline
    rw [startsBy, offsetOfLine?_eq_ok_iff.1 hstart, Option.any_some]
    exact decide_eq_decide.2 (start_le_iff hstart)
  have hle : c.startedBy offset ≤ c.lineCount := List.countP_le_length
  refine searchPoint_eq (Nat.zero_le _) hle (fun line hline => ?_) fun line hline hlt => ?_
  · rw [hstarts line (Nat.lt_of_lt_of_le hline hle)]
    exact decide_eq_true hline
  · rw [hstarts line hlt]
    exact decide_eq_false (Nat.not_lt.2 hline)

end Lookups

/-- What the index of the lines of a text says: where lines start, which line an offset is in, and
how the two belong together. -/
structure IndexesLines (c : SourceContent) : Prop where
  starts : ∀ start, (∃ line, c.offsetOfLine? line = .ok start) ↔
    start = 0 ∨ ∃ front back, c.text.toList = front ++ '\n' :: back ∧ start = byteCount front + 1
  offset_fails : ∀ line, (∃ fault, c.offsetOfLine? line = .error fault) ↔ c.lineCount ≤ line
  line_fails : ∀ offset, (∃ fault, c.lineOf? offset = .error fault) ↔ c.size < offset
  line_unique : ∀ offset, offset ≤ c.size →
    ∃ line, c.lineOf? offset = .ok line ∧ ∀ other, c.HasOffset other offset ↔ other = line
  line_of_start : ∀ line, line < c.lineCount →
    ∃ start, c.offsetOfLine? line = .ok start ∧ c.lineOf? start = .ok line
  /-- The count from which one is taken away is not zero. -/
  started_pos : ∀ offset, 0 < searchPoint (c.startsBy offset) 0 c.lineCount
  halving : ∀ offset, c.searchLine? offset = c.lineOf? offset

/-- The index of the lines is exact for every text. -/
theorem indexesLines (c : SourceContent) : c.IndexesLines where
  starts start := by
    have hmem : (∃ line, c.offsetOfLine? line = .ok start) ↔ start ∈ c.lineStarts := by
      simp only [offsetOfLine?_eq_ok_iff, List.mem_iff_getElem?]
    rw [hmem, lineStarts, List.mem_cons, mem_breaksFrom_iff]
    simp only [Nat.zero_add]
  offset_fails line := by
    constructor
    · rintro ⟨fault, hfault⟩
      refine Nat.le_of_not_lt fun hlt => ?_
      obtain ⟨start, hstart⟩ := exists_offsetOfLine? hlt
      rw [hstart] at hfault
      cases hfault
    · intro hle
      rw [offsetOfLine?, List.getElem?_eq_none hle]
      exact ⟨_, rfl⟩
  line_fails offset := by
    rw [lineOf?]
    split
    · rename_i hlt
      exact iff_of_true ⟨_, rfl⟩ hlt
    · rename_i hle
      refine iff_of_false ?_ hle
      rintro ⟨fault, ⟨⟩⟩
  line_unique offset hle := by
    have hpos := c.startedBy_pos offset
    have hline : c.HasOffset (c.startedBy offset - 1) offset := hasOffset_iff.2 (by omega)
    refine ⟨_, (lineOf?_eq_ok_iff hle).2 hline, fun other => ?_⟩
    rw [hasOffset_iff]
    omega
  line_of_start line hlt := by
    obtain ⟨start, hstart⟩ := exists_offsetOfLine? hlt
    have hsize := le_size_of_mem (List.mem_of_getElem? (offsetOfLine?_eq_ok_iff.1 hstart))
    exact ⟨start, hstart, (lineOf?_eq_ok_iff hsize).2 (hasOffset_start hstart)⟩
  started_pos offset := by
    rw [searchPoint_startsBy]
    exact c.startedBy_pos offset
  halving offset := by
    rw [searchLine?, searchPoint_startsBy]
    rfl

/-- The end of a text is in the last line, which is empty behind a line break. -/
example : (⟨1, "é\n\n"⟩ : SourceContent).lineOf? 4 = .ok 2 := by decide

end SourceContent

end SourceModel
