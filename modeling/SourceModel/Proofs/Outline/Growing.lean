import Mathlib.Data.List.Pairwise
import SourceModel.Proofs.Outline.Arena
import SourceModel.Proofs.Stack

/-!
# Outlines that grow

Whatever is added below whichever elements, the elements of a unit form a tree: every element but
the unit stands once among the children of one earlier element and of no other, lies inside that
element, and starts no earlier than the child before it, however many additions elsewhere came
between the two. What an addition is checked for is what keeps it so, and a refused addition changes
nothing. An iterator over the elements ends, and gives them in preorder.
-/

namespace SourceModel

open OutlineBuilder (Addition)

/-! ## Names and neighbours -/

/-- Names lie inside their elements, and the children of an element start one after the other. -/
structure Outline.Ordered (o : Outline) : Prop where
  name : ∀ e ∈ o.elements, ∀ nameRange, e.nameRange? = some nameRange →
    e.range.containsRegion nameRange = true
  children : ∀ i, (o.childrenOf i).Pairwise fun j k => (o.rangeOf j).offset ≤ (o.rangeOf k).offset

namespace OutlineBuilder

variable {b : OutlineBuilder}

private theorem ordered_push {a : Addition} (h : b.outline.Ordered) (hchecked : b.Checked a) :
    (b.push a.element).outline.Ordered where
  name := by
    intro d hd nameRange
    rcases List.mem_append.1 hd with hd | hd
    · exact h.name d hd nameRange
    · rw [List.mem_singleton.1 hd]
      exact hchecked.name nameRange
  children := by
    intro i
    have hold : (b.outline.childrenOf i).Pairwise fun j k =>
        ((b.push a.element).outline.rangeOf j).offset ≤
          ((b.push a.element).outline.rangeOf k).offset := by
      refine (h.children i).imp_of_mem fun hj hk hjk => ?_
      rwa [rangeOf_push_of_lt (Outline.lt_of_mem_childrenOf hj).2,
        rangeOf_push_of_lt (Outline.lt_of_mem_childrenOf hk).2]
    rw [childrenOf_push, List.pairwise_append]
    refine ⟨hold, by split <;> simp, fun j hj k hk => ?_⟩
    split at hk
    · rename_i hnew
      obtain rfl : a.parent = i := Option.some.inj hnew.2
      rw [List.mem_singleton.1 hk, rangeOf_push_size,
        rangeOf_push_of_lt (Outline.lt_of_mem_childrenOf hj).2]
      -- Only the last child was compared with the new one, and no child starts behind that one.
      have hlast := (h.children a.parent).rel_getLast_of_rel_getLast_getLast hj (Nat.le_refl _)
      exact Nat.le_trans hlast (hchecked.sibling _ (List.getLast?_eq_some_getLast _))
    · cases hk

private theorem ordered_start (modelType unit : String) (range : Region) (isReadOnly : Bool) :
    (start modelType unit range isReadOnly).outline.Ordered where
  name := by
    intro e he nameRange hname
    rw [List.mem_singleton.1 he] at hname
    cases hname
  children := fun _ => .nil

private theorem ordered_after (h : b.outline.Ordered) (as : List Addition) :
    (b.after as).outline.Ordered :=
  after_induction (P := fun c => c.outline.Ordered) (fun _ _ => ordered_push) h as

private theorem parent_root_after (modelType unit : String) (range : Region) (isReadOnly : Bool)
    (as : List Addition) :
    ∃ e, ((start modelType unit range isReadOnly).after as).outline.get? root = some e ∧
      e.parent? = none := by
  have hplains := ((identified_start modelType unit range isReadOnly).after as).2
  rw [plains_start] at hplains
  have hfirst := congrArg (fun es : List Element => es[0]?) hplains
  simp only [Outline.plains, List.getElem?_map, List.singleton_append, List.getElem?_cons_zero]
    at hfirst
  obtain ⟨e, he, hplain⟩ := Option.map_eq_some_iff.1 hfirst
  exact ⟨e, he, congrArg Element.parent? hplain⟩

end OutlineBuilder

/-! ## Arenas -/

namespace OutlineArena

/-- The elements of an arena form a tree with the unit on top. -/
structure WellFormed (t : OutlineArena) : Prop where
  root : ∃ unit : Slot, t.slots[OutlineBuilder.root]? = some unit ∧ unit.element.parent? = none
  parent : ∀ (j : Nat) (slot : Slot), t.slots[j]? = some slot → j ≠ OutlineBuilder.root →
    ∃ (i : Nat) (above : Slot), slot.element.parent? = some i ∧ i < j ∧
      t.slots[i]? = some above ∧ above.children.count j = 1 ∧
        above.element.range.containsRegion slot.element.range = true
  child : ∀ (i : Nat) (above : Slot), t.slots[i]? = some above → ∀ j ∈ above.children,
    ∃ slot : Slot, t.slots[j]? = some slot ∧ slot.element.parent? = some i
  name : ∀ (j : Nat) (slot : Slot) (nameRange : Region), t.slots[j]? = some slot →
    slot.element.nameRange? = some nameRange →
      slot.element.range.containsRegion nameRange = true
  siblings : ∀ (i : Nat) (above : Slot), t.slots[i]? = some above →
    above.children.Pairwise fun j k => (t.rangeAt j).offset ≤ (t.rangeAt k).offset

variable {b : OutlineBuilder}

private theorem exists_of_slots_of {i : Nat} {slot : Slot} (h : (of b).slots[i]? = some slot) :
    ∃ e, b.outline.get? i = some e ∧ slot = ⟨e, b.outline.childrenOf i⟩ := by
  rw [slots_of] at h
  obtain ⟨e, he, rfl⟩ := Option.map_eq_some_iff.1 h
  exact ⟨e, he, rfl⟩

private theorem slots_of_of_get? {i : Nat} {e : Element} (h : b.outline.get? i = some e) :
    (of b).slots[i]? = some ⟨e, b.outline.childrenOf i⟩ := by
  rw [slots_of, h, Option.map_some]

private theorem wellFormed_of
    (hroot : ∃ e, b.outline.get? OutlineBuilder.root = some e ∧ e.parent? = none)
    (hnested : b.outline.Nested) (hordered : b.outline.Ordered) : (of b).WellFormed where
  root := by
    obtain ⟨e, he, hp⟩ := hroot
    exact ⟨_, slots_of_of_get? he, hp⟩
  parent := by
    intro j slot hslot hj
    obtain ⟨e, he, rfl⟩ := exists_of_slots_of hslot
    obtain ⟨i, hi, hin⟩ := hnested.child j (List.getElem?_eq_some_iff.1 he).1 hj
    obtain ⟨hlt, e', he', hp⟩ := Outline.parentOf?_eq_some_iff.1 hi
    rw [he, Option.some.injEq] at he'
    subst he'
    have hsize : i < b.outline.size := Nat.lt_trans hlt (List.getElem?_eq_some_iff.1 he).1
    have habove : b.outline.get? i = some _ := List.getElem?_eq_getElem hsize
    rw [Outline.rangeOf, Outline.rangeOf, habove, he] at hin
    refine ⟨i, _, hp, hlt, slots_of_of_get? habove, ?_, hin⟩
    have hnodup : (b.outline.childrenOf i).Nodup :=
      (b.outline.pairwise_lt_childrenOf i).imp Nat.ne_of_lt
    exact List.count_eq_one_of_mem hnodup (Outline.mem_childrenOf_iff_parentOf?.2 hi)
  child := by
    intro i above habove j hj
    obtain ⟨e, he, rfl⟩ := exists_of_slots_of habove
    obtain ⟨-, d, hd, hp⟩ := Outline.mem_childrenOf.1 hj
    exact ⟨_, slots_of_of_get? hd, hp⟩
  name := by
    intro j slot nameRange hslot hname
    obtain ⟨e, he, rfl⟩ := exists_of_slots_of hslot
    exact hordered.name e (List.mem_of_getElem? he) nameRange hname
  siblings := by
    intro i above habove
    obtain ⟨e, he, rfl⟩ := exists_of_slots_of habove
    refine (hordered.children i).imp fun hjk => ?_
    rwa [rangeAt_of, rangeAt_of]

structure Grown (b : OutlineBuilder) (t : OutlineArena) : Prop where
  eq_of : t = of b
  wellFormed : t.WellFormed
  add_run : ∀ a, (add a).run t =
    match b.tryAdd a with
    | .ok (i, b') => .ok i (of b')
    | .error fault => .error fault t
  refused : ∀ a fault t', (add a).run t = .error fault t' → t' = t
  yields : ∀ is, Stack.Yields t.childrenAt [OutlineBuilder.root] is ↔ is = b.finish.preorder
  visit : b.finish.visit = b.finish.preorder
  perm : b.finish.preorder.Perm (List.range t.slots.length)

/-- Additions in any order, below any elements, of which some may be refused, build a tree that an
iterator gives in preorder. -/
theorem grown_after (modelType unit : String) (range : Region) (isReadOnly : Bool)
    (as : List Addition) :
    Grown ((OutlineBuilder.start modelType unit range isReadOnly).after as)
      ((start modelType unit range isReadOnly).after as) := by
  rw [start_eq_of, after_of]
  have hnested := (OutlineBuilder.nested_after
    (OutlineBuilder.nested_start modelType unit range isReadOnly) as).1
  have hordered := OutlineBuilder.ordered_after
    (OutlineBuilder.ordered_start modelType unit range isReadOnly) as
  have hroot := OutlineBuilder.parent_root_after modelType unit range isReadOnly as
  generalize (OutlineBuilder.start modelType unit range isReadOnly).after as = b at *
  exact {
    eq_of := rfl
    wellFormed := wellFormed_of hroot hnested hordered
    add_run := add_run b
    refused := by
      intro a fault t' h
      rw [add_run] at h
      split at h <;> cases h
      rfl
    yields := by
      intro is
      rw [funext (childrenAt_of b)]
      exact Stack.yields_iff b.outline.preorderFrom_eq OutlineBuilder.root
    visit := b.finish.visit_eq_preorder
    perm := by
      rw [length_slots_of]
      exact hnested.perm_preorder }

/-- Two declarations and one inside the first of them, which is added last. Another one is refused
in between as its name lies outside. -/
def belatedChild : List Addition :=
  [{ parent := 0, type := .declaration, name := .simple "x", range := ⟨0, 11, by decide⟩ },
    { parent := 0, type := .declaration, name := .simple "y", range := ⟨11, 21, by decide⟩ },
    { parent := 0, type := .declaration, name := .simple "z", range := ⟨32, 5, by decide⟩,
      nameRange? := some ⟨38, 1, by decide⟩ },
    { parent := 1, type := .declaration, name := .simple "z", range := ⟨4, 5, by decide⟩ }]

example :
    ((start "test" "u" ⟨0, 44, by decide⟩ false).after belatedChild).slots.map
        (fun slot => (slot.element.id, slot.children)) =
      [("200:u#1", [1, 2]), ("600:x#1", [3]), ("600:y#1", []), ("600:z#1", [])] := by
  decide +kernel

end OutlineArena

end SourceModel
