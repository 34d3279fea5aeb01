import SourceModel.Outline

/-!
# What the outline builder accepts

An element can be added below another one as long as additions go forward in the source. An
addition changes only what lies below its parent.
-/

namespace SourceModel.OutlineBuilder

/-! ## Elements of a longer outline -/

section Push

variable {b : OutlineBuilder} {e : Element} {i j : Nat}

theorem size_push : (b.push e).outline.size = b.outline.size + 1 := by
  simp [push, Outline.size]

theorem get?_push_of_lt (h : i < b.outline.size) :
    (b.push e).outline.get? i = b.outline.get? i := by
  simp only [push, Outline.get?]
  exact List.getElem?_append_left h

theorem rangeOf_push_of_lt (h : i < b.outline.size) :
    (b.push e).outline.rangeOf i = b.outline.rangeOf i := by
  rw [Outline.rangeOf, Outline.rangeOf, get?_push_of_lt h]

theorem get?_push_size {α : Type} (f : Element → α) (hf : ∀ id, f { e with id := id } = f e) :
    ((b.push e).outline.get? b.outline.size).map f = some (f e) := by
  simp [push, Outline.get?, Outline.size, hf]

theorem childrenOf_push :
    (b.push e).outline.childrenOf i =
      b.outline.childrenOf i ++
        if i < b.outline.size ∧ e.parent? = some i then [b.outline.size] else [] := by
  simp only [Outline.childrenOf, push, Outline.size, List.zipIdx_append, List.zipIdx_singleton,
    List.filter_append, List.map_append, Nat.zero_add]
  by_cases h : i < b.outline.elements.length ∧ e.parent? = some i <;> simp [h]

end Push

/-! ## Additions -/

/-- Elements can be added below the one with number `i` within `[lo, hi)`. -/
structure Accepts (b : OutlineBuilder) (i lo hi : Nat) : Prop where
  range : ∃ above, b.outline.get? i = some above ∧ above.range.offset ≤ lo ∧ hi ≤ above.range.stop
  children : ∀ j ∈ b.outline.childrenOf i, (b.outline.rangeOf j).offset ≤ lo

section Accepts

variable {b : OutlineBuilder} {e : Element} {i parent lo hi lo' hi' : Nat}

theorem Accepts.lt_size (h : b.Accepts i lo hi) : i < b.outline.size := by
  obtain ⟨above, hg, _⟩ := h.range
  exact (List.getElem?_eq_some_iff.1 hg).1

theorem Accepts.mono (h : b.Accepts i lo hi) (hlo : lo ≤ lo') (hhi : hi' ≤ hi) :
    b.Accepts i lo' hi' := by
  obtain ⟨above, hg, ho, hs⟩ := h.range
  exact ⟨⟨above, hg, Nat.le_trans ho hlo, Nat.le_trans hhi hs⟩,
    fun j hj => Nat.le_trans (h.children j hj) hlo⟩

theorem Accepts.push_of_ne (h : b.Accepts i lo hi) (hp : e.parent? ≠ some i) :
    (b.push e).Accepts i lo hi := by
  obtain ⟨above, hg, hr⟩ := h.range
  refine ⟨⟨above, by rw [get?_push_of_lt h.lt_size, hg], hr⟩, fun j hj => ?_⟩
  rw [childrenOf_push, if_neg fun hc => hp hc.2, List.append_nil] at hj
  rw [rangeOf_push_of_lt (Outline.lt_of_mem_childrenOf hj).2]
  exact h.children j hj

theorem Accepts.push (h : b.Accepts i lo hi) (hlo : lo ≤ e.range.offset) :
    (b.push e).Accepts i e.range.offset hi := by
  obtain ⟨above, hg, ho, hs⟩ := h.range
  refine ⟨⟨above, by rw [get?_push_of_lt h.lt_size, hg], Nat.le_trans ho hlo, hs⟩, fun j hj => ?_⟩
  rw [childrenOf_push, List.mem_append] at hj
  rcases hj with hj | hj
  · rw [rangeOf_push_of_lt (Outline.lt_of_mem_childrenOf hj).2]
    exact Nat.le_trans (h.children j hj) hlo
  · have hsize : j = b.outline.size := by
      split at hj
      · exact List.mem_singleton.1 hj
      · cases hj
    have hrange := @get?_push_size b e _ Element.range fun _ => rfl
    obtain ⟨new, hn, hr⟩ := Option.map_eq_some_iff.1 hrange
    rw [hsize, Outline.rangeOf, hn]
    exact Nat.le_of_eq (congrArg Region.offset hr)

theorem accepts_push_size :
    (b.push e).Accepts b.outline.size e.range.offset e.range.stop := by
  have hrange := @get?_push_size b e _ Element.range fun _ => rfl
  obtain ⟨new, hn, hr⟩ := Option.map_eq_some_iff.1 hrange
  refine ⟨⟨new, hn, Nat.le_of_eq (congrArg _ hr), Nat.le_of_eq (congrArg _ hr).symm⟩,
    fun j hj => ?_⟩
  have hj' := Outline.lt_of_mem_childrenOf hj
  rw [size_push] at hj'
  omega

end Accepts

/-- An addition that goes forward in the source is accepted while there are numbers. -/
theorem add_eq {b : OutlineBuilder} {parent lo hi : Nat} {range : Region}
    (h : b.Accepts parent lo hi) (hlo : lo ≤ range.offset) (hhi : range.stop ≤ hi)
    (hn : b.outline.size < maxElements) (type : ElementType) (name : ElementName)
    (nameRange? : Option Region)
    (hname : ∀ nameRange, nameRange? = some nameRange → range.containsRegion nameRange = true)
    (node? : Option Nat) :
    b.add parent type name range nameRange? node? = .ok (b.outline.size,
      b.push { type, name, id := "", parent? := some parent, range, nameRange?, node? }) := by
  obtain ⟨above, hg, ho, hs⟩ := h.range
  have hin : above.range.containsRegion range = true := by
    rw [Region.containsRegion_iff]
    omega
  have hsibling : ∀ j, (b.outline.childrenOf parent).getLast? = some j →
      ¬ range.offset < (b.outline.rangeOf j).offset := fun j hj => by
    have := h.children j (List.mem_of_getLast? hj)
    omega
  have hmax : ¬ b.outline.size ≥ maxElements := by omega
  unfold add
  simp only [hg, hin, hmax, if_false, Bool.not_true, Bool.false_eq_true]
  cases hl : (b.outline.childrenOf parent).getLast? with
  | none =>
    cases nameRange? with
    | none => rfl
    | some nameRange => simp only [hname nameRange rfl, Bool.not_true, Bool.false_eq_true]; rfl
  | some j =>
    cases nameRange? with
    | none => simp only [hsibling j hl]; rfl
    | some nameRange =>
      simp only [hsibling j hl, hname nameRange rfl, Bool.not_true, Bool.false_eq_true]
      rfl

theorem accepts_start (modelType unit : String) (range : Region) (isReadOnly : Bool) :
    (start modelType unit range isReadOnly).Accepts root range.offset range.stop :=
  accepts_push_size

theorem size_start (modelType unit : String) (range : Region) (isReadOnly : Bool) :
    (start modelType unit range isReadOnly).outline.size = 1 := size_push

end SourceModel.OutlineBuilder
