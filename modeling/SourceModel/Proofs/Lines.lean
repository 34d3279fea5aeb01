import Mathlib.Data.List.Induction
import SourceModel.Content
import SourceModel.Proofs.Document.Carets

/-!
# Lines and columns

What stands in front of an offset consists of whole lines and of the characters in front of it in
its own line. The line of the offset counts the line breaks of the former and the column the latter,
so an offset that comes later is shown later.
-/

namespace SourceModel

open Text (byteCount IsBoundary)

/-- Whether characters are whole lines. -/
def EndsLine (head : List Char) : Prop := head = [] ∨ ∃ inner, head = inner ++ ['\n']

private theorem exists_endsLine (front : List Char) :
    ∃ head line, front = head ++ line ∧ EndsLine head ∧ '\n' ∉ line := by
  induction front using List.reverseRecOn with
  | nil => exact ⟨[], [], rfl, .inl rfl, List.not_mem_nil⟩
  | append_singleton front c ih =>
    by_cases hc : c = '\n'
    · exact ⟨front ++ [c], [], (List.append_nil _).symm, .inr ⟨front, by rw [hc]⟩,
        List.not_mem_nil⟩
    · obtain ⟨head, line, rfl, hhead, hline⟩ := ih
      refine ⟨head, line ++ [c], List.append_assoc .., hhead, ?_⟩
      simpa [hline] using Ne.symm hc

namespace SourceContent

/-! ## Starts of lines -/

section Breaks

variable {offset b : Nat} {cs ds : List Char}

theorem breaksFrom_append (offset : Nat) (cs ds : List Char) :
    breaksFrom offset (cs ++ ds) =
      breaksFrom offset cs ++ breaksFrom (offset + byteCount cs) ds := by
  induction cs generalizing offset with
  | nil => rfl
  | cons c cs ih =>
    simp only [List.cons_append, breaksFrom, Text.byteCount_cons, ih, ← Nat.add_assoc]
    split <;> rfl

private theorem length_breaksFrom (offset : Nat) (cs : List Char) :
    (breaksFrom offset cs).length = cs.count '\n' := by
  induction cs generalizing offset with
  | nil => rfl
  | cons c cs ih =>
    rw [breaksFrom]
    split
    · rename_i hc
      rw [hc, List.count_cons_self, List.length_cons, ih]
    · rename_i hc
      rw [List.count_cons_of_ne hc, ih]

theorem mem_breaksFrom (h : b ∈ breaksFrom offset cs) :
    offset < b ∧ b ≤ offset + byteCount cs := by
  induction cs generalizing offset with
  | nil => cases h
  | cons c cs ih =>
    have hpos := c.utf8Size_pos
    have htail : b ∈ breaksFrom (offset + c.utf8Size) cs →
        offset < b ∧ b ≤ offset + byteCount (c :: cs) := by
      intro hb
      obtain ⟨hlt, hle⟩ := ih hb
      rw [Text.byteCount_cons]
      omega
    rw [breaksFrom] at h
    split at h
    · rcases List.mem_cons.1 h with rfl | h
      · rw [Text.byteCount_cons]
        omega
      · exact htail h
    · exact htail h

private theorem breaks_endsLine {head : List Char} (h : EndsLine head) :
    (0 :: breaksFrom 0 head)[head.count '\n']? = some (byteCount head) := by
  rcases h with rfl | ⟨inner, rfl⟩
  · rfl
  · have hcount : (inner ++ ['\n']).count '\n' = (breaksFrom 0 inner).length + 1 := by
      rw [List.count_append, length_breaksFrom]
      rfl
    rw [hcount, List.getElem?_cons_succ, breaksFrom_append, Text.byteCount_append,
      List.getElem?_append_right (Nat.le_refl _), Nat.sub_self, Nat.zero_add]
    rfl

end Breaks

section Places

variable {c : SourceContent} {front head line back rest : List Char} {i j : Nat}

/-- The line of an offset, counted from zero, is the number of line breaks in front of it. -/
theorem lineOf?_eq (htext : c.text.toList = front ++ back) :
    c.lineOf? (byteCount front) = .ok (front.count '\n') := by
  have hsize : ¬ c.size < byteCount front := by
    rw [size, Text.size, htext, Text.byteCount_append]
    omega
  have hfront : (breaksFrom 0 front).countP (· ≤ byteCount front) = front.count '\n' := by
    rw [← length_breaksFrom 0]
    refine List.countP_eq_length.2 fun b hb => decide_eq_true ?_
    have hle := (mem_breaksFrom hb).2
    omega
  have hback : (breaksFrom (0 + byteCount front) back).countP (· ≤ byteCount front) = 0 := by
    refine List.countP_eq_zero.2 fun b hb => ?_
    have hlt := (mem_breaksFrom hb).1
    rw [decide_eq_true_eq]
    omega
  have hzero : decide (0 ≤ byteCount front) = true := decide_eq_true (Nat.zero_le _)
  rw [lineOf?, if_neg hsize, lineStarts, htext, breaksFrom_append, List.countP_cons, if_pos hzero,
    List.countP_append, hfront, hback, Nat.add_zero, Nat.add_sub_cancel]

private theorem offsetOfLine?_eq (htext : c.text.toList = head ++ rest) (h : EndsLine head) :
    c.offsetOfLine? (head.count '\n') = .ok (byteCount head) := by
  have hstart : c.lineStarts[head.count '\n']? = some (byteCount head) := by
    have hlast := breaks_endsLine h
    rw [lineStarts, htext, breaksFrom_append, ← List.cons_append, List.getElem?_append_left, hlast]
    exact (List.getElem?_eq_some_iff.1 hlast).1
  rw [offsetOfLine?, hstart]

private theorem lineColumn_eq (htext : c.text.toList = head ++ (line ++ back)) (h : EndsLine head)
    (hline : '\n' ∉ line) :
    c.lineColumn (byteCount (head ++ line)) = (head.count '\n' + 1, line.length + 1) := by
  have hcount : (head ++ line).count '\n' = head.count '\n' := by
    rw [List.count_append, List.count_eq_zero.2 hline, Nat.add_zero]
  have hline? := lineOf?_eq (htext.trans (List.append_assoc ..).symm)
  have hslice : Text.slice? c.text (byteCount head) (byteCount (head ++ line)) =
      some (String.ofList line) := by
    refine Text.slice?_eq_some_iff.2 ⟨head, back, ?_, rfl, ?_⟩
    · rw [String.toList_ofList, htext]
    · rw [Text.size_ofList, Text.byteCount_append]
  rw [hcount] at hline?
  rw [lineColumn, hline?]
  simp only [offsetOfLine?_eq htext h, Except.toOption, Option.getD_some, hslice, Option.elim_some,
    String.length_ofList]

/-- A character of two bytes takes one column. -/
example : (⟨1, "a;\né = b;"⟩ : SourceContent).lineColumn 5 = (2, 2) := by decide

theorem lineColumn_fst (htext : c.text.toList = front ++ back) :
    (c.lineColumn (byteCount front)).1 = front.count '\n' + 1 := by
  obtain ⟨head, line, rfl, hhead, hline⟩ := exists_endsLine front
  rw [lineColumn_eq (htext.trans (List.append_assoc ..)) hhead hline, List.count_append,
    List.count_eq_zero.2 hline, Nat.add_zero]

/-- Of two offsets that split no character the later one is shown on a later line, or further on in
the same line. -/
theorem lineColumn_lt (hi : IsBoundary c.text i) (hj : IsBoundary c.text j) (h : i < j) :
    Prod.Lex (· < ·) (· < ·) (c.lineColumn i) (c.lineColumn j) := by
  obtain ⟨front, back, htext, rfl⟩ := hi
  obtain ⟨front', back', htext', rfl⟩ := hj
  obtain ⟨middle, rfl, hne⟩ : ∃ middle, front' = front ++ middle ∧ middle ≠ [] := by
    rcases List.append_eq_append_iff.1 (htext.symm.trans htext') with
      ⟨middle, rfl, -⟩ | ⟨middle, rfl, -⟩
    · refine ⟨middle, rfl, fun hnil => ?_⟩
      rw [hnil, List.append_nil] at h
      exact Nat.lt_irrefl _ h
    · rw [Text.byteCount_append] at h
      omega
  by_cases hbreak : '\n' ∈ middle
  · have hcount := List.count_pos_iff.2 hbreak
    refine Prod.lex_def.2 (.inl ?_)
    rw [lineColumn_fst htext, lineColumn_fst htext', List.count_append]
    exact Nat.succ_lt_succ (Nat.lt_add_of_pos_right hcount)
  · obtain ⟨head, line, rfl, hhead, hline⟩ := exists_endsLine front
    have hlonger : '\n' ∉ line ++ middle := by simp [hline, hbreak]
    rw [List.append_assoc head] at htext htext' ⊢
    rw [List.append_assoc head] at htext'
    rw [lineColumn_eq htext hhead hline, lineColumn_eq htext' hhead hlonger, List.length_append]
    exact .right _ (Nat.succ_lt_succ (Nat.lt_add_of_pos_right (List.length_pos_iff.2 hne)))

end Places

end SourceContent

end SourceModel
