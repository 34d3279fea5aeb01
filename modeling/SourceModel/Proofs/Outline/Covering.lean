import SourceModel.Proofs.Outline.Nesting
import SourceModel.Proofs.Tree.Covering

/-!
# Descents to an element

A search from the unit down enters, round after round, the first child that contains the offset, and
if none does, the first one that the offset touches. All elements that contain the offset would be
on its way if only one of several children could contain it. But children may overlap: then the
search goes into the first of them, and what lies below the others stays hidden from it, however
deep it is. So the element that is found is the deepest one but for those that are hidden in this
way.
-/

namespace SourceModel

namespace Outline

variable {o : Outline} {offset i j k : Nat}

/-! ## One round -/

private theorem touches_of_childAt? (h : o.childAt? offset i = some k) :
    (o.rangeOf k).touches offset = true := by
  rcases Option.or_eq_some_iff.1 h with h | ⟨-, h⟩
  · have hk := List.find?_some (p := fun j => (o.rangeOf j).contains offset) h
    exact (searchable_offset offset).meets_of_holds _ hk
  · exact List.find?_some (p := fun j => (o.rangeOf j).touches offset) h

private theorem touches_eq_false_of_childAt? (h : o.childAt? offset i = none)
    (hj : j ∈ o.childrenOf i) : (o.rangeOf j).touches offset = false := by
  have hnone := List.find?_eq_none.1 (Option.or_eq_none_iff.1 h).2 j hj
  exact Bool.eq_false_iff.2 hnone

/-- If some child contains the offset, the first one that does is entered. -/
theorem contains_of_childAt? (h : o.childAt? offset i = some k) (hj : j ∈ o.childrenOf i)
    (hcontains : (o.rangeOf j).contains offset = true) :
    (o.rangeOf k).contains offset = true ∧ k ≤ j := by
  rcases Option.or_eq_some_iff.1 h with h | ⟨h, -⟩
  · obtain ⟨hk, before, behind, hsplit, hbefore⟩ := List.find?_eq_some_iff_append.1 h
    refine ⟨hk, ?_⟩
    have hsorted := o.pairwise_lt_childrenOf i
    rw [hsplit] at hj hsorted
    rcases List.mem_append.1 hj with hj | hj
    · have hnot := hbefore j hj
      rw [hcontains] at hnot
      cases hnot
    · rcases List.mem_cons.1 hj with rfl | hj
      · exact Nat.le_refl _
      · have hbehind := (List.pairwise_append.1 hsorted).2.1
        exact Nat.le_of_lt ((List.pairwise_cons.1 hbehind).1 j hj)
  · exact absurd hcontains (List.find?_eq_none.1 h j hj)

/-! ## All rounds -/

/-- The element with number `i` or one above it has a later neighbour, both contain the offset, and
the neighbour is the element with number `j` or stands above it. -/
def Hides (o : Outline) (offset i j : Nat) : Prop :=
  ∃ p a b, o.parentOf? a = some p ∧ o.parentOf? b = some p ∧ a < b ∧
    (o.rangeOf a).contains offset = true ∧ (o.rangeOf b).contains offset = true ∧
    (a = i ∨ a ∈ o.above i) ∧ (b = j ∨ b ∈ o.above j)

/-- What holds of the elements that a search passes: the offset touches them, and every element that
contains the offset lies above or below, or is hidden. -/
structure Passed (o : Outline) (offset i : Nat) : Prop where
  mem : i < o.size
  touched : (o.rangeOf i).touches offset = true
  comparable : ∀ j, j < o.size → (o.rangeOf j).contains offset = true →
    j ∈ o.above i ∨ (i = j ∨ i ∈ o.above j) ∨ o.Hides offset i j

/-- What holds of the element at which a search ends: the offset touches it and none of its
children, and every element that contains the offset is that one or one above it, and so no deeper,
or is hidden. -/
structure Reached (o : Outline) (offset i : Nat) : Prop where
  mem : i < o.size
  touched : (o.rangeOf i).touches offset = true
  bottom : ∀ k ∈ o.childrenOf i, (o.rangeOf k).touches offset = false
  deepest : ∀ j, j < o.size → (o.rangeOf j).contains offset = true →
    (j = i ∨ j ∈ o.above i) ∧ o.depthOf j ≤ o.depthOf i ∨ o.Hides offset i j

private theorem Hides.enter (h : o.Hides offset i j) (hk : k ∈ o.childrenOf i) :
    o.Hides offset k j := by
  obtain ⟨p, a, b, ha, hb, hab, hain, hbin, hai, hbj⟩ := h
  refine ⟨p, a, b, ha, hb, hab, hain, hbin, .inr ?_, hbj⟩
  rw [above_of_mem_childrenOf hk]
  exact List.mem_cons.2 hai

/-- An element below another one that contains an offset lies in a child that does. -/
theorem Nested.exists_child (h : o.Nested) (hi : i ∈ o.above j)
    (hcontains : (o.rangeOf j).contains offset = true) :
    ∃ b ∈ o.childrenOf i, (o.rangeOf b).contains offset = true ∧ (b = j ∨ b ∈ o.above j) := by
  obtain ⟨b, hb, hbj⟩ := exists_child_of_mem_above hi
  refine ⟨b, hb, ?_, hbj⟩
  rcases hbj with rfl | hbj
  · exact hcontains
  · exact (searchable_offset offset).mono _ _ (h.containsRegion_of_mem_above hbj) hcontains

private theorem Passed.enter (hn : o.Nested) (h : o.Passed offset i)
    (hk : o.childAt? offset i = some k) : o.Passed offset k := by
  have hchild := mem_of_childAt? hk
  have habove : o.above k = i :: o.above i := above_of_mem_childrenOf hchild
  refine ⟨(lt_of_mem_childrenOf hchild).2, touches_of_childAt? hk, fun j hj hcontains => ?_⟩
  rcases h.comparable j hj hcontains with hji | (rfl | hij) | hhidden
  · rw [habove]
    exact .inl (List.mem_cons_of_mem _ hji)
  · rw [habove]
    exact .inl List.mem_cons_self
  · obtain ⟨b, hb, hbin, hbj⟩ := hn.exists_child hij hcontains
    obtain ⟨hkin, hkb⟩ := contains_of_childAt? hk hb hbin
    -- Of the children that contain the offset, a later one than the one entered is hidden by it.
    rcases Nat.lt_or_eq_of_le hkb with hlt | rfl
    · exact .inr (.inr ⟨i, k, b, mem_childrenOf_iff_parentOf?.1 hchild,
        mem_childrenOf_iff_parentOf?.1 hb, hlt, hkin, hbin, .inl rfl, hbj⟩)
    · exact .inr (.inl hbj)
  · exact .inr (.inr (hhidden.enter hchild))

private theorem Passed.reached (hn : o.Nested) (h : o.Passed offset i)
    (hend : o.childAt? offset i = none) : o.Reached offset i := by
  refine ⟨h.mem, h.touched, fun k => touches_eq_false_of_childAt? hend, fun j hj hcontains => ?_⟩
  rcases h.comparable j hj hcontains with hji | (rfl | hij) | hhidden
  · exact .inl ⟨.inr hji, Nat.le_of_lt (depthOf_lt_of_mem_above hji)⟩
  · exact .inl ⟨.inl rfl, Nat.le_refl _⟩
  · obtain ⟨b, hb, hbin, -⟩ := hn.exists_child hij hcontains
    have htouches := (searchable_offset offset).meets_of_holds _ hbin
    rw [touches_eq_false_of_childAt? hend hb] at htouches
    cases htouches
  · exact .inr hhidden

private theorem coveringFrom_eq (o : Outline) (offset i : Nat) :
    o.coveringFrom offset i = (o.childAt? offset i).elim i (o.coveringFrom offset) := by
  rw [coveringFrom]
  split
  · rename_i h
    rw [h, Option.elim_none]
  · rename_i k h
    rw [h, Option.elim_some]

private theorem Passed.coveringFrom (hn : o.Nested) (h : o.Passed offset i) :
    o.Reached offset (o.coveringFrom offset i) := by
  induction i using coveringFrom.induct o offset with
  | case1 i hend =>
    rw [coveringFrom_eq, hend]
    exact h.reached hn hend
  | case2 i k hk ih =>
    rw [coveringFrom_eq, hk]
    exact ih (h.enter hn hk)

private theorem Nested.passed_zero (hn : o.Nested) (h : (o.rangeOf 0).touches offset = true) :
    o.Passed offset 0 :=
  ⟨hn.size_pos, h, fun _ hj _ => .inr (.inl (hn.eq_zero_or_mem_above hj))⟩

end Outline

namespace OutlineBuilder

/-- After any additions to a new outline there is an element at an offset just if the range of the
unit touches the offset. The offset touches it and none of its children, and it is at least as deep
as all elements that contain the offset, but for those that come below the later one of two
overlapping neighbours. -/
theorem covering_after (modelType unit : String) (range : Region) (isReadOnly : Bool)
    (as : List Addition) (offset : Nat) :
    (((start modelType unit range isReadOnly).after as).finish.covering? offset = none ↔
        range.touches offset = false) ∧
      ∀ i, ((start modelType unit range isReadOnly).after as).finish.covering? offset = some i →
        ((start modelType unit range isReadOnly).after as).finish.Reached offset i := by
  obtain ⟨hn, hroot⟩ := nested_after (nested_start modelType unit range isReadOnly) as
  have hrange : ((start modelType unit range isReadOnly).after as).outline.rangeOf 0 = range :=
    hroot.trans rangeOf_push_size
  unfold finish Outline.covering?
  rw [hrange]
  cases htouches : range.touches offset with
  | false => simp
  | true =>
    refine ⟨by simp, fun i hi => ?_⟩
    rw [if_pos rfl, Option.some.injEq] at hi
    rw [← hrange] at htouches
    exact hi ▸ (hn.passed_zero htouches).coveringFrom hn

/-- An outline with two overlapping declarations, of which the second one has one below it. -/
def overlapping : Outline :=
  ((start "test" "u" ⟨0, 40, by decide⟩ false).after
    [{ parent := 0, type := .declaration, name := .simple "x", range := ⟨0, 20, by decide⟩ },
      { parent := 0, type := .declaration, name := .simple "y", range := ⟨10, 20, by decide⟩ },
      { parent := 2, type := .declaration, name := .simple "z",
        range := ⟨12, 4, by decide⟩ }]).finish

/-- At the end of an element that element is found. -/
theorem covering_after_stop : overlapping.covering? 30 = some 2 ∧ overlapping.Reached 30 2 := by
  have h : overlapping.covering? 30 = some 2 := by decide +kernel
  exact ⟨h, (covering_after "test" "u" ⟨0, 40, by decide⟩ false _ 30).2 2 h⟩

/-- Inside both of them the first one is found, although a deeper element contains the offset. -/
theorem covering_overlapping :
    overlapping.covering? 13 = some 1 ∧
      (∃ e, overlapping.get? 3 = some e ∧ e.range.contains 13 = true) ∧
      overlapping.depthOf 1 < overlapping.depthOf 3 := by
  refine ⟨by decide +kernel, ⟨_, rfl, by decide⟩, by decide +kernel⟩

end OutlineBuilder

end SourceModel
