import Mathlib.Data.List.Basic
import Mathlib.Data.List.Nodup
import SourceModel.Proofs.Entries
import SourceModel.Proofs.Outline.Elements

/-!
# Identifiers of elements

An identifier can be read back: three digits give the type, and the number of the element stands
behind the last number sign, whatever signs the name has. So identifiers are distinct as long as the
elements of each type and name are numbered one after the other, which holds after any additions. A
refused addition takes no number.
-/

namespace SourceModel

/-! ## Reading an identifier back -/

namespace ElementType

private theorem length_display (t : ElementType) : t.display.toList.length = 3 := by
  rw [display, Text.toList_hex_three t.code.isLt]
  rfl

private theorem display_injective {s t : ElementType} (h : s.display = t.display) : s = t := by
  have hchar : ∀ a b : Fin 16, Nat.digitChar a = Nat.digitChar b → a = b := by decide
  have hdigit : ∀ {a b : Nat}, a < 16 → b < 16 → a.digitChar = b.digitChar → a = b := by
    intro a b ha hb hab
    exact congrArg Fin.val (hchar ⟨a, ha⟩ ⟨b, hb⟩ hab)
  have hs := s.code.isLt
  have ht := t.code.isLt
  have hlist : s.display.toList = t.display.toList := by rw [h]
  simp only [display, Text.toList_hex_three hs, Text.toList_hex_three ht, List.cons.injEq] at hlist
  obtain ⟨h₁, h₂, h₃, -⟩ := hlist
  have hfirst := hdigit (by omega) (by omega) h₁
  have hsecond := hdigit (by omega) (by omega) h₂
  have hthird := hdigit (by omega) (by omega) h₃
  have hcode : s.code.val = t.code.val := by omega
  cases s
  cases t
  exact congrArg _ (Fin.ext hcode)

end ElementType

namespace OutlineBuilder

private theorem eq_of_append_cons_eq {α : Type} {a : α} {xs ys us vs : List α} (hu : a ∉ us)
    (hv : a ∉ vs) (h : xs ++ a :: us = ys ++ a :: vs) : xs = ys ∧ us = vs := by
  rcases List.append_eq_append_iff.1 h with ⟨ws, hys, hcons⟩ | ⟨ws, hxs, hcons⟩
  · cases ws with
    | nil =>
      rw [List.append_nil] at hys
      exact ⟨hys.symm, (List.cons.inj hcons).2⟩
    | cons w ws =>
      rw [(List.cons.inj hcons).2] at hu
      exact absurd (List.mem_append_right ws List.mem_cons_self) hu
  · cases ws with
    | nil =>
      rw [List.append_nil] at hxs
      exact ⟨hxs, (List.cons.inj hcons).2.symm⟩
    | cons w ws =>
      rw [(List.cons.inj hcons).2] at hv
      exact absurd (List.mem_append_right ws List.mem_cons_self) hv

private theorem makeId_injective {s t : ElementType} {m n : String} {j k : Nat}
    (h : makeId s m j = makeId t n k) : s = t ∧ m = n ∧ j = k := by
  have hsign : ∀ i : Nat, '#' ∉ Nat.toDigits 10 i := by
    intro i hmem
    have hdigit := Nat.isDigit_of_mem_toDigits (by decide) (by decide) hmem
    exact absurd hdigit (by decide)
  have hlist : s.display.toList ++ ':' :: (m.toList ++ '#' :: Nat.toDigits 10 j) =
      t.display.toList ++ ':' :: (n.toList ++ '#' :: Nat.toDigits 10 k) := by
    have hl := congrArg String.toList h
    simpa [makeId, toString] using hl
  obtain ⟨htype, hrest⟩ := List.append_inj hlist (s.length_display.trans t.length_display.symm)
  obtain ⟨hname, hdigits⟩ := eq_of_append_cons_eq (hsign j) (hsign k) (List.cons.inj hrest).2
  have hnumber : j = k := by
    calc
      j = Nat.ofDigitChars 10 (Nat.toDigits 10 j) 0 := Nat.ofDigitChars_ten_toDigits.symm
      _ = Nat.ofDigitChars 10 (Nat.toDigits 10 k) 0 := by rw [hdigits]
      _ = k := Nat.ofDigitChars_ten_toDigits
  exact ⟨ElementType.display_injective (String.toList_injective htype),
    String.toList_injective hname, hnumber⟩

end OutlineBuilder

/-! ## Numbers of elements -/

def Outline.named (o : Outline) (type : ElementType) (name : String) : List Element :=
  o.elements.filter fun e => e.type = type ∧ e.name.display = name

private theorem Outline.mem_named {o : Outline} {e : Element} (h : e ∈ o.elements) :
    e ∈ o.named e.type e.name.display := by
  apply List.mem_filter.2
  exact ⟨h, by simp⟩

namespace OutlineBuilder

variable {b : OutlineBuilder} {e : Element} {type : ElementType} {name : String}

private theorem occurrencesOf_push :
    (b.push e).occurrencesOf type name =
      if (type, name) = (e.type, e.name.display) then b.occurrencesOf type name + 1
      else b.occurrencesOf type name := by
  rw [occurrencesOf, push, lookup_replace]
  by_cases h : (type, name) = (e.type, e.name.display)
  · obtain ⟨rfl, rfl⟩ := Prod.mk.inj h
    simp
  · rw [if_neg h, if_neg h, occurrencesOf]

def nextId (b : OutlineBuilder) (type : ElementType) (name : String) : String :=
  makeId type name (b.occurrencesOf type name + 1)

private theorem named_push :
    (b.push e).outline.named type name = b.outline.named type name ++
      if (type, name) = (e.type, e.name.display) then
        [{ e with id := b.nextId e.type e.name.display }]
      else [] := by
  rw [Outline.named, push, List.filter_append, Outline.named]
  congr 1
  by_cases h : (type, name) = (e.type, e.name.display)
  · obtain ⟨rfl, rfl⟩ := Prod.mk.inj h
    simp [nextId]
  · have hne : ¬ (e.type = type ∧ e.name.display = name) := by
      rintro ⟨rfl, rfl⟩
      exact h rfl
    simp [h, hne]

/-- The elements of each type and name are numbered from one on, and the builder knows how many
there are. -/
structure Identified (b : OutlineBuilder) : Prop where
  occurrences : ∀ type name, b.occurrencesOf type name = (b.outline.named type name).length
  numbered : ∀ type name k e, (b.outline.named type name)[k]? = some e →
    e.id = makeId type name (k + 1)
  nodup : (b.outline.elements.map Element.id).Nodup

private theorem Identified.push (h : b.Identified) (e : Element) : (b.push e).Identified where
  occurrences := by
    intro type name
    rw [occurrencesOf_push, named_push, h.occurrences]
    split <;> simp
  numbered := by
    intro type name k d hd
    rw [named_push] at hd
    by_cases hk : k < (b.outline.named type name).length
    · rw [List.getElem?_append_left hk] at hd
      exact h.numbered type name k d hd
    · rw [List.getElem?_append_right (Nat.le_of_not_lt hk)] at hd
      split at hd
      · rename_i hkey
        obtain ⟨rfl, rfl⟩ := Prod.mk.inj hkey
        obtain ⟨hlt, rfl⟩ := List.getElem?_eq_some_iff.1 hd
        have hlast : k = (b.outline.named e.type e.name.display).length := by
          rw [List.length_singleton] at hlt
          omega
        simp only [List.getElem_singleton, nextId, h.occurrences, hlast]
      · cases hd
  nodup := by
    have hpush : (b.push e).outline.elements =
        b.outline.elements ++ [{ e with id := b.nextId e.type e.name.display }] := rfl
    rw [hpush, List.map_append, List.map_singleton, List.nodup_append]
    refine ⟨h.nodup, List.nodup_singleton _, ?_⟩
    intro id hid new hnew heq
    obtain ⟨d, hd, rfl⟩ := List.mem_map.1 hid
    obtain ⟨k, hk, hget⟩ := List.getElem_of_mem (Outline.mem_named hd)
    have hdid := h.numbered d.type d.name.display k d (List.getElem?_eq_some_iff.2 ⟨hk, hget⟩)
    rw [List.mem_singleton.1 hnew, hdid] at heq
    obtain ⟨htype, hname, hnumber⟩ := makeId_injective heq
    rw [h.occurrences, ← htype, ← hname] at hnumber
    omega

theorem identified_start (modelType unit : String) (range : Region) (isReadOnly : Bool) :
    (start modelType unit range isReadOnly).Identified := by
  apply Identified.push
  exact ⟨fun _ _ => rfl, fun _ _ _ _ h => (nomatch h), List.nodup_nil⟩

private theorem Identified.find? (h : b.Identified) {i : Nat} (he : b.outline.get? i = some e) :
    b.outline.find? e.id = some i := by
  obtain ⟨hi, rfl⟩ := List.getElem?_eq_some_iff.1 he
  apply List.findIdx?_eq_some_iff_getElem.2
  refine ⟨hi, beq_self_eq_true _, ?_⟩
  intro j hji hj
  have hnodup := List.pairwise_map.1 h.nodup
  exact List.pairwise_iff_getElem.1 hnodup j i (Nat.lt_trans hji hi) hi hji (beq_iff_eq.1 hj)

/-! ## Runs -/

structure Addition where
  parent : Nat
  type : ElementType
  name : ElementName
  range : Region
  nameRange? : Option Region := none
  node? : Option Nat := none

/-- The element that an addition asks for; its identifier is up to the builder. -/
def Addition.element (a : Addition) : Element :=
  { type := a.type, name := a.name, id := "", parent? := some a.parent, range := a.range,
    nameRange? := a.nameRange?, node? := a.node? }

def tryAdd (b : OutlineBuilder) (a : Addition) : Except Fault (Nat × OutlineBuilder) :=
  b.add a.parent a.type a.name a.range a.nameRange? a.node?

def takeId (type : ElementType) (name : String) : EStateM Fault OutlineBuilder String := do
  let occurrence := (← get).occurrencesOf type name + 1
  modify fun b =>
    { b with
      occurrences :=
        ((type, name), occurrence) :: b.occurrences.filter fun entry => entry.1 != (type, name) }
  return makeId type name occurrence

/-- An addition in place. What it writes before it fails stays written. -/
def addInPlace (a : Addition) : EStateM Fault OutlineBuilder Nat := do
  let o := (← get).outline
  let some above := o.get? a.parent | throw (Refusal.unknownParent a.parent).fault
  if !above.range.containsRegion a.range then
    throw (Refusal.exceedsParent a.name.display a.range above.range).fault
  if let some sibling := (o.childrenOf a.parent).getLast? then
    if a.range.offset < (o.rangeOf sibling).offset then
      throw (Refusal.precedesSibling a.name.display a.range.offset).fault
  if let some nameRange := a.nameRange? then
    if !a.range.containsRegion nameRange then
      throw (Refusal.nameOutside a.name.display nameRange a.range).fault
  if o.size ≥ maxElements then throw (.internal "source structure exceeds u32 ids")
  let id ← takeId a.type a.name.display
  modify fun b =>
    { b with outline.elements := b.outline.elements ++ [{ a.element with id }] }
  return o.size

/-- Whether an action in place comes to a given result, where a failure leaves all as it was. The
action works on what `f` makes of a builder. -/
def Agrees {σ : Type} (f : OutlineBuilder → σ) (b : OutlineBuilder) (action : EStateM Fault σ Nat)
    (result : Except Fault (Nat × OutlineBuilder)) : Prop :=
  action.run (f b) =
    match result with
    | .ok (i, b') => .ok i (f b')
    | .error fault => .error fault (f b)

theorem agrees_guard {σ : Type} {f : OutlineBuilder → σ} {c : Prop} [Decidable c] {fault : Fault}
    {refused action : EStateM Fault σ Nat} {refused' result : Except Fault (Nat × OutlineBuilder)}
    (h : Agrees f b action result) :
    Agrees f b (if c then throw fault >>= fun _ : PUnit => refused else action)
      (if c then throw fault >>= fun _ : PUnit => refused' else result) := by
  by_cases hc : c
  · rw [if_pos hc, if_pos hc]
    rfl
  · rw [if_neg hc, if_neg hc]
    exact h

private theorem addInPlace_run (b : OutlineBuilder) (a : Addition) :
    (addInPlace a).run b =
      match b.tryAdd a with
      | .ok (i, b') => .ok i b'
      | .error fault => .error fault b := by
  obtain ⟨parent, type, name, range, nameRange?, node?⟩ := a
  simp only [addInPlace, EStateM.run_bind, EStateM.run_get, tryAdd, add]
  cases b.outline.get? parent with
  | none => rfl
  | some above =>
    change Agrees id b _ _
    apply agrees_guard
    cases (b.outline.childrenOf parent).getLast? <;> cases nameRange?
    all_goals
      repeat apply agrees_guard
      rfl

def after (b : OutlineBuilder) : List Addition → OutlineBuilder
  | [] => b
  | a :: as =>
    match b.tryAdd a with
    | .ok (_, b') => after b' as
    | .error _ => after b as

def accepted (b : OutlineBuilder) : List Addition → List Addition
  | [] => []
  | a :: as =>
    match b.tryAdd a with
    | .ok (_, b') => a :: accepted b' as
    | .error _ => accepted b as

theorem Identified.after (h : b.Identified) (as : List Addition) :
    (b.after as).Identified ∧
      (b.after as).outline.plains =
        b.outline.plains ++ (b.accepted as).map Addition.element := by
  induction as generalizing b with
  | nil => exact ⟨h, by simp [accepted, OutlineBuilder.after]⟩
  | cons a as ih =>
    cases ha : b.tryAdd a with
    | error fault =>
      simp only [OutlineBuilder.after, accepted, ha]
      exact ih h
    | ok added =>
      obtain ⟨i, b'⟩ := added
      obtain ⟨-, rfl⟩ := add_eq_ok ha
      obtain ⟨hidentified, hplains⟩ := ih (h.push _)
      simp only [OutlineBuilder.after, accepted, ha]
      refine ⟨hidentified, ?_⟩
      rw [hplains, plains_push, List.append_assoc, List.map_cons]
      rfl

/-- After any additions to a new outline, whatever their types and names, its elements are the unit
and those of the accepted additions. The elements of each type and written name are numbered from
one on, all identifiers are distinct, and each element is found by its own. A refused addition
leaves the builder as it is, also in place. -/
theorem identified_after (modelType unit : String) (range : Region) (isReadOnly : Bool)
    (as : List Addition) :
    ((start modelType unit range isReadOnly).after as).finish.plains =
        { type := .sourceUnit, name := .simple unit, id := "", range } ::
          ((start modelType unit range isReadOnly).accepted as).map Addition.element ∧
      (((start modelType unit range isReadOnly).after as).finish.elements.map Element.id).Nodup ∧
      (∀ type name k e,
        (((start modelType unit range isReadOnly).after as).finish.named type name)[k]? = some e →
          e.id = makeId type name (k + 1)) ∧
      (∀ i e, ((start modelType unit range isReadOnly).after as).finish.get? i = some e →
        ((start modelType unit range isReadOnly).after as).finish.find? e.id = some i) ∧
      (∀ a, (addInPlace a).run ((start modelType unit range isReadOnly).after as) =
        match ((start modelType unit range isReadOnly).after as).tryAdd a with
        | .ok (i, b') => .ok i b'
        | .error fault => .error fault ((start modelType unit range isReadOnly).after as)) := by
  obtain ⟨h, hplains⟩ := (identified_start modelType unit range isReadOnly).after as
  rw [plains_start, List.singleton_append] at hplains
  exact ⟨hplains, h.nodup, h.numbered, fun _ _ => h.find?, addInPlace_run _⟩

/-- Additions whose names look like parts of identifiers, one of which has no parent. -/
def lookalikes : List Addition :=
  [{ parent := 0, type := .declaration, name := .simple "x#1", range := ⟨10, 3, by decide⟩ },
    { parent := 9, type := .declaration, name := .simple "x", range := ⟨20, 1, by decide⟩ },
    { parent := 0, type := .declaration, name := .simple "x", range := ⟨20, 1, by decide⟩ },
    { parent := 0, type := .declaration, name := .simple "x#1", range := ⟨30, 3, by decide⟩ }]

theorem identified_after_lookalikes :
    (((start "calc" "u" ⟨0, 40, by decide⟩ false).after lookalikes).finish.elements.map
        Element.id).Nodup ∧
      (((start "calc" "u" ⟨0, 40, by decide⟩ false).after lookalikes).finish.elements.map
        Element.id) = ["200:u#1", "600:x#1#1", "600:x#1", "600:x#1#2"] ∧
      ((start "calc" "u" ⟨0, 40, by decide⟩ false).after lookalikes).finish.find? "600:x#1" =
        some 2 := by
  obtain ⟨-, hnodup, -, hfind, -⟩ := identified_after "calc" "u" ⟨0, 40, by decide⟩ false lookalikes
  exact ⟨hnodup, by decide, hfind 2 _ rfl⟩

end OutlineBuilder

end SourceModel
