import SourceModel.Proofs.Outline.Identifiers

/-!
# Nested elements

Every element but the first one comes below an earlier one, whose range contains its own. So the
ranges of an element and of those above it contain one another, and the unit's own element stands
above all others. Nothing is said about elements side by side: they only start one after the other,
and their ranges may overlap.
-/

namespace SourceModel

namespace Outline

/-! ## The elements above an element -/

def parentOf? (o : Outline) (i : Nat) : Option Nat :=
  ((o.get? i).bind Element.parent?).filter fun p => p < i

section Links

variable {o : Outline} {i j p : Nat}

theorem parentOf?_eq_some_iff :
    o.parentOf? i = some p ↔ p < i ∧ ∃ e, o.get? i = some e ∧ e.parent? = some p := by
  rw [parentOf?, Option.filter_eq_some_iff, Option.bind_eq_some_iff, decide_eq_true_eq, and_comm]

theorem lt_of_parentOf? (h : o.parentOf? i = some p) : p < i := (parentOf?_eq_some_iff.1 h).1

theorem mem_childrenOf_iff_parentOf? : j ∈ o.childrenOf i ↔ o.parentOf? j = some i := by
  rw [mem_childrenOf, parentOf?_eq_some_iff]

theorem pairwise_lt_childrenOf (o : Outline) (i : Nat) : (o.childrenOf i).Pairwise (· < ·) := by
  have hall : (o.elements.zipIdx.map Prod.snd).Pairwise (· < ·) := by
    rw [List.zipIdx_map_snd]
    exact List.pairwise_lt_range'
  exact hall.sublist (List.filter_sublist.map Prod.snd)

end Links

/-- Numbers of the elements above the one with number `i`, nearest first. -/
def above (o : Outline) (i : Nat) : List Nat :=
  match _h : o.parentOf? i with
  | none => []
  | some p => p :: o.above p
termination_by i
decreasing_by exact lt_of_parentOf? _h

def depthOf (o : Outline) (i : Nat) : Nat := (o.above i).length

section Above

variable {o : Outline} {i j k : Nat}

private theorem above_of_parentOf? (h : o.parentOf? j = some i) : o.above j = i :: o.above i := by
  rw [above]
  split
  · rename_i hnone
    rw [h] at hnone
    cases hnone
  · rename_i p hp
    rw [h, Option.some.injEq] at hp
    rw [hp]

theorem above_of_mem_childrenOf (h : j ∈ o.childrenOf i) : o.above j = i :: o.above i :=
  above_of_parentOf? (mem_childrenOf_iff_parentOf?.1 h)

/-- An element above another one stands above its parent or is the parent. -/
theorem mem_above_iff :
    i ∈ o.above j ↔ ∃ p, o.parentOf? j = some p ∧ (i = p ∨ i ∈ o.above p) := by
  cases hp : o.parentOf? j with
  | none =>
    rw [above]
    split
    · simp
    · rename_i p hsome
      rw [hp] at hsome
      cases hsome
  | some p =>
    rw [above_of_parentOf? hp]
    simp

theorem depthOf_lt_of_mem_above (h : i ∈ o.above j) : o.depthOf i < o.depthOf j := by
  induction j using Nat.strongRecOn with
  | _ j ih =>
    obtain ⟨p, hp, hip⟩ := mem_above_iff.1 h
    have hdepth : o.depthOf j = o.depthOf p + 1 := by
      rw [depthOf, above_of_parentOf? hp, List.length_cons, depthOf]
    rcases hip with rfl | hip
    · omega
    · have hlt := ih p (lt_of_parentOf? hp) hip
      omega

theorem exists_child_of_mem_above (h : i ∈ o.above j) :
    ∃ k ∈ o.childrenOf i, k = j ∨ k ∈ o.above j := by
  induction j using Nat.strongRecOn with
  | _ j ih =>
    obtain ⟨p, hp, rfl | hip⟩ := mem_above_iff.1 h
    · exact ⟨j, mem_childrenOf_iff_parentOf?.2 hp, .inl rfl⟩
    · obtain ⟨k, hk, hkp⟩ := ih p (lt_of_parentOf? hp) hip
      exact ⟨k, hk, .inr (mem_above_iff.2 ⟨p, hp, hkp⟩)⟩

end Above

/-! ## Ranges of elements above one another -/

/-- Every element but the first one has an element above it, whose range contains its own. -/
structure Nested (o : Outline) : Prop where
  size_pos : 0 < o.size
  child : ∀ j, j < o.size → j ≠ 0 →
    ∃ p, o.parentOf? j = some p ∧ (o.rangeOf p).containsRegion (o.rangeOf j) = true

section Nested

variable {o : Outline} {i j : Nat}

theorem lt_size_of_parentOf? (h : o.parentOf? j = some i) : j < o.size := by
  obtain ⟨-, e, he, -⟩ := parentOf?_eq_some_iff.1 h
  exact (List.getElem?_eq_some_iff.1 he).1

private theorem Nested.containsRegion_of_parentOf? (h : o.Nested) (hp : o.parentOf? j = some i) :
    (o.rangeOf i).containsRegion (o.rangeOf j) = true := by
  have hpos : j ≠ 0 := Nat.ne_of_gt (Nat.lt_of_le_of_lt (Nat.zero_le i) (lt_of_parentOf? hp))
  obtain ⟨p, hp', hin⟩ := h.child j (lt_size_of_parentOf? hp) hpos
  rw [hp, Option.some.injEq] at hp'
  exact hp' ▸ hin

theorem Nested.containsRegion_of_mem_above (h : o.Nested) (hi : i ∈ o.above j) :
    (o.rangeOf i).containsRegion (o.rangeOf j) = true := by
  induction j using Nat.strongRecOn with
  | _ j ih =>
    obtain ⟨p, hp, hip⟩ := mem_above_iff.1 hi
    have hin := h.containsRegion_of_parentOf? hp
    rcases hip with rfl | hip
    · exact hin
    · exact Region.containsRegion_trans (ih p (lt_of_parentOf? hp) hip) hin

theorem Nested.eq_zero_or_mem_above (h : o.Nested) (hj : j < o.size) : 0 = j ∨ 0 ∈ o.above j := by
  induction j using Nat.strongRecOn with
  | _ j ih =>
    by_cases h0 : j = 0
    · exact .inl h0.symm
    · obtain ⟨p, hp, -⟩ := h.child j hj h0
      have hlt := lt_of_parentOf? hp
      exact .inr (mem_above_iff.2 ⟨p, hp, ih p hlt (Nat.lt_trans hlt hj)⟩)

end Nested

end Outline

/-! ## Additions -/

namespace OutlineBuilder

variable {b b' : OutlineBuilder} {e : Element} {i j parent : Nat}

private theorem parentOf?_push_of_lt (h : j < b.outline.size) :
    (b.push e).outline.parentOf? j = b.outline.parentOf? j := by
  rw [Outline.parentOf?, get?_push_of_lt h, Outline.parentOf?]

theorem rangeOf_push_size : (b.push e).outline.rangeOf b.outline.size = e.range := by
  have hrange := @get?_push_size b e _ Element.range fun _ => rfl
  obtain ⟨new, hn, hr⟩ := Option.map_eq_some_iff.1 hrange
  rw [Outline.rangeOf, hn]
  exact hr

/-- What an addition is checked for: its element lies inside the parent and starts no earlier than
the child before it, and its name lies inside it. -/
structure Checked (b : OutlineBuilder) (a : Addition) : Prop where
  parent : a.parent < b.outline.size
  range : (b.outline.rangeOf a.parent).containsRegion a.range = true
  sibling : ∀ j, (b.outline.childrenOf a.parent).getLast? = some j →
    (b.outline.rangeOf j).offset ≤ a.range.offset
  name : ∀ nameRange, a.nameRange? = some nameRange → a.range.containsRegion nameRange = true

private theorem checked_of_tryAdd {a : Addition} (h : b.tryAdd a = .ok (i, b')) : b.Checked a := by
  unfold tryAdd add at h
  cases hg : b.outline.get? a.parent with
  | none =>
    rw [hg] at h
    cases h
  | some above =>
    have hrange : b.outline.rangeOf a.parent = above.range := by
      rw [Outline.rangeOf, hg, Option.elim_some]
    simp only [hg] at h
    refine ⟨(List.getElem?_eq_some_iff.1 hg).1, ?_, fun j hj => Nat.le_of_not_lt fun hlt => ?_,
      fun nameRange hname => ?_⟩
    · rw [hrange]
      cases hin : above.range.containsRegion a.range with
      | true => rfl
      | false =>
        rw [hin] at h
        cases h
    · simp only [hj, hlt, if_true] at h
      repeat' split at h
      all_goals cases h
    · cases hin : a.range.containsRegion nameRange with
      | true => rfl
      | false =>
        simp only [hname, hin, Bool.not_false, if_true] at h
        repeat' split at h
        all_goals cases h

/-- What every addition that passes its checks keeps, holds behind any additions. -/
theorem after_induction {P : OutlineBuilder → Prop}
    (hpush : ∀ b a, P b → b.Checked a → P (b.push a.element)) (h : P b) (as : List Addition) :
    P (b.after as) := by
  induction as generalizing b with
  | nil => exact h
  | cons a as ih =>
    cases ha : b.tryAdd a with
    | error fault =>
      simp only [OutlineBuilder.after, ha]
      exact ih h
    | ok added =>
      obtain ⟨i, b'⟩ := added
      have hchecked := checked_of_tryAdd ha
      obtain ⟨-, rfl⟩ := add_eq_ok ha
      simp only [OutlineBuilder.after, ha]
      exact ih (hpush b a h hchecked)

private theorem nested_push (h : b.outline.Nested) (hparent : parent < b.outline.size)
    (hp : e.parent? = some parent)
    (hin : (b.outline.rangeOf parent).containsRegion e.range = true) :
    (b.push e).outline.Nested where
  size_pos := by
    rw [size_push]
    exact Nat.succ_pos _
  child := by
    intro j hj h0
    rw [size_push] at hj
    rcases Nat.lt_or_eq_of_le (Nat.le_of_lt_succ hj) with hlt | rfl
    · obtain ⟨p, hp', hin'⟩ := h.child j hlt h0
      have hp_lt := Nat.lt_trans (Outline.lt_of_parentOf? hp') hlt
      refine ⟨p, by rw [parentOf?_push_of_lt hlt, hp'], ?_⟩
      rwa [rangeOf_push_of_lt hp_lt, rangeOf_push_of_lt hlt]
    · have hnew := @get?_push_size b e _ Element.parent? fun _ => rfl
      obtain ⟨new, hn, hnp⟩ := Option.map_eq_some_iff.1 hnew
      refine ⟨parent, Outline.parentOf?_eq_some_iff.2 ⟨hparent, new, hn, hnp.trans hp⟩, ?_⟩
      rwa [rangeOf_push_of_lt hparent, rangeOf_push_size]

theorem nested_start (modelType unit : String) (range : Region) (isReadOnly : Bool) :
    (start modelType unit range isReadOnly).outline.Nested where
  size_pos := by
    rw [size_start]
    exact Nat.one_pos
  child := by
    intro j hj h0
    rw [size_start] at hj
    omega

/-- Additions leave an outline nested, and the range of the unit as it is. -/
theorem nested_after (h : b.outline.Nested) (as : List Addition) :
    (b.after as).outline.Nested ∧ (b.after as).outline.rangeOf root = b.outline.rangeOf root := by
  refine after_induction (P := fun c => c.outline.Nested ∧
    c.outline.rangeOf root = b.outline.rangeOf root) ?_ ⟨h, rfl⟩ as
  rintro c a ⟨hnested, hrange⟩ hchecked
  exact ⟨nested_push hnested hchecked.parent rfl hchecked.range,
    (rangeOf_push_of_lt hnested.size_pos).trans hrange⟩

end OutlineBuilder

end SourceModel
