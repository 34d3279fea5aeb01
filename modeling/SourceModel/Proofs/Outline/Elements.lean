import SourceModel.Proofs.Outline.Building

/-!
# Elements of an outline

An addition appends the element that was asked for, with an identifier of the builder's own. So the
elements of a unit are known up to their identifiers from the additions. The children of an element
are those that name it as their parent, which stands before them, and where elements with the same
parent lie one behind the other, the children do.
-/

namespace SourceModel

def Element.plain (e : Element) : Element := { e with id := "" }

/-- Whether an element lies before another one if both come below the same element. -/
def Element.Apart (d e : Element) : Prop := d.parent? = e.parent? → d.range.stop ≤ e.range.offset

namespace Outline

def Rooted (es : List Element) : Prop :=
  ∀ (i j : Nat) (e : Element), es[j]? = some e → e.parent? = some i → i < j

theorem rooted_append {es fs : List Element} (h : Rooted es)
    (hfs : ∀ (i j : Nat) (e : Element), fs[j]? = some e → e.parent? = some i → i < es.length + j) :
    Rooted (es ++ fs) := by
  intro i j e he hp
  by_cases hj : j < es.length
  · rw [List.getElem?_append_left hj] at he
    exact h i j e he hp
  · rw [List.getElem?_append_right (Nat.le_of_not_lt hj)] at he
    have hlt := hfs i (j - es.length) e he hp
    omega

def plains (o : Outline) : List Element := o.elements.map Element.plain

section Children

variable {o : Outline} {i j : Nat}

theorem length_plains (o : Outline) : o.plains.length = o.size := List.length_map _

theorem filter_type_plains (o : Outline) (type : ElementType) :
    o.plains.filter (·.type = type) = (o.elements.filter (·.type = type)).map Element.plain :=
  List.filter_map

theorem mem_childrenOf :
    j ∈ o.childrenOf i ↔ i < j ∧ ∃ e, o.get? j = some e ∧ e.parent? = some i := by
  rw [childrenOf, List.mem_map]
  constructor
  · rintro ⟨⟨e, k⟩, hmem, rfl⟩
    obtain ⟨hzip, hp⟩ := List.mem_filter.1 hmem
    rw [Bool.and_eq_true, beq_iff_eq, decide_eq_true_eq] at hp
    exact ⟨hp.1, e, List.mem_zipIdx_iff_getElem?.1 hzip, hp.2⟩
  · rintro ⟨hlt, e, hj, hp⟩
    refine ⟨(e, j), List.mem_filter.2 ⟨List.mem_zipIdx_iff_getElem?.2 hj, ?_⟩, rfl⟩
    rw [Bool.and_eq_true, beq_iff_eq]
    exact ⟨decide_eq_true hlt, hp⟩

theorem mem_childrenOf_iff (h : Rooted o.plains) :
    j ∈ o.childrenOf i ↔ ∃ e, o.get? j = some e ∧ e.parent? = some i := by
  rw [mem_childrenOf, and_iff_right_of_imp]
  rintro ⟨e, hj, hp⟩
  have hplain : o.plains[j]? = some e.plain := by
    rw [plains, List.getElem?_map]
    exact congrArg (Option.map Element.plain) hj
  exact h i j e.plain hplain hp

theorem pairwise_childrenOf (h : o.plains.Pairwise Element.Apart) (i : Nat) :
    (o.childrenOf i).Pairwise fun j k => (o.rangeOf j).stop ≤ (o.rangeOf k).offset := by
  have hrange : ∀ {e : Element} {j : Nat}, (e, j) ∈ o.elements.zipIdx → o.rangeOf j = e.range := by
    intro e j he
    rw [rangeOf, get?, List.mem_zipIdx_iff_getElem?.1 he, Option.elim_some]
  have hzip : o.elements.zipIdx.Pairwise fun d e => Element.Apart d.1 e.1 := by
    rw [← List.pairwise_map (f := Prod.fst), List.zipIdx_map_fst]
    exact (List.pairwise_map (f := Element.plain)).1 h
  rw [childrenOf, List.pairwise_map]
  refine (hzip.filter _).imp_of_mem ?_
  rintro ⟨d, j⟩ ⟨e, k⟩ hd he hapart
  obtain ⟨hdmem, hdp⟩ := List.mem_filter.1 hd
  obtain ⟨hemem, hep⟩ := List.mem_filter.1 he
  rw [Bool.and_eq_true, beq_iff_eq] at hdp hep
  rw [hrange hdmem, hrange hemem]
  exact hapart (hdp.2.trans hep.2.symm)

end Children

end Outline

namespace OutlineBuilder

variable {b b' : OutlineBuilder}

theorem plains_push (b : OutlineBuilder) (e : Element) :
    (b.push e).outline.plains = b.outline.plains ++ [e.plain] := by
  simp only [Outline.plains, push, List.map_append, List.map_singleton]
  rfl

theorem plains_start (modelType unit : String) (range : Region) (isReadOnly : Bool) :
    (start modelType unit range isReadOnly).outline.plains =
      [{ type := .sourceUnit, name := .simple unit, id := "", range }] := plains_push ..

theorem add_eq_ok {parent k : Nat} {type : ElementType} {name : ElementName} {range : Region}
    {nameRange? : Option Region} {node? : Option Nat}
    (h : b.add parent type name range nameRange? node? = .ok (k, b')) :
    k = b.outline.size ∧
      b' = b.push { type, name, id := "", parent? := some parent, range, nameRange?, node? } := by
  unfold add at h
  cases hg : b.outline.get? parent with
  | none =>
    rw [hg] at h
    cases h
  | some above =>
    simp only [hg] at h
    repeat' split at h
    all_goals cases h <;> exact ⟨rfl, rfl⟩

theorem add_ok {parent k : Nat} {type : ElementType} {name : ElementName} {range : Region}
    {nameRange? : Option Region} {node? : Option Nat}
    (h : b.add parent type name range nameRange? node? = .ok (k, b')) :
    k = b.outline.size ∧ b'.outline.plains = b.outline.plains ++
      [{ type, name, id := "", parent? := some parent, range, nameRange?, node? }] := by
  obtain ⟨rfl, rfl⟩ := add_eq_ok h
  exact ⟨rfl, plains_push ..⟩

end OutlineBuilder

end SourceModel
