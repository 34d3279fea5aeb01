import SourceModel.Proofs.Outline.Preorder

/-!
# Outlines in place

A builder can hold the numbers of the children beside each element instead of looking for the
elements that name a parent. An addition then writes to three places one after the other: the
numbers of elements of a type and name, the list of elements, and the children of the parent. It
checks everything before it writes, so a refused one leaves all three as they were; and the children
that it wrote are those that the outline has.
-/

namespace SourceModel

open OutlineBuilder (Addition Refusal makeId maxElements)

private theorem Outline.childrenOf_eq_nil {o : Outline} {i : Nat} (h : o.size ≤ i) :
    o.childrenOf i = [] := by
  refine List.eq_nil_iff_forall_not_mem.2 fun j hj => ?_
  have hlt := Outline.lt_of_mem_childrenOf hj
  omega

/-- An element together with the numbers of its children. -/
structure Slot where
  element : Element
  children : List Nat := []

/-- A builder that holds the children of each element. -/
structure OutlineArena where
  modelType : String
  isReadOnly : Bool
  slots : List Slot
  occurrences : List ((ElementType × String) × Nat)

namespace OutlineArena

def rangeAt (t : OutlineArena) (i : Nat) : Region := t.slots[i]?.elim default (·.element.range)

def childrenAt (t : OutlineArena) (i : Nat) : List Nat := t.slots[i]?.elim [] Slot.children

/-! ## Additions -/

def takeId (type : ElementType) (name : String) : EStateM Fault OutlineArena String := do
  let occurrence := ((← get).occurrences.lookup (type, name)).getD 0 + 1
  modify fun t =>
    { t with
      occurrences :=
        ((type, name), occurrence) :: t.occurrences.filter fun entry => entry.1 != (type, name) }
  return makeId type name occurrence

def pushElement (e : Element) : EStateM Fault OutlineArena Unit :=
  modify fun t => { t with slots := t.slots ++ [{ element := e }] }

def pushChild (parent child : Nat) : EStateM Fault OutlineArena Unit :=
  modify fun t =>
    { t with
      slots := t.slots.modify parent fun slot =>
        { slot with children := slot.children ++ [child] } }

/-- An addition. What it writes before it fails stays written. -/
def add (a : Addition) : EStateM Fault OutlineArena Nat := do
  let t ← get
  let some above := t.slots[a.parent]? | throw (Refusal.unknownParent a.parent).fault
  if !above.element.range.containsRegion a.range then
    throw (Refusal.exceedsParent a.name.display a.range above.element.range).fault
  if let some sibling := above.children.getLast? then
    if a.range.offset < (t.rangeAt sibling).offset then
      throw (Refusal.precedesSibling a.name.display a.range.offset).fault
  if let some nameRange := a.nameRange? then
    if !a.range.containsRegion nameRange then
      throw (Refusal.nameOutside a.name.display nameRange a.range).fault
  if t.slots.length ≥ maxElements then throw (.internal "source structure exceeds u32 ids")
  let id ← takeId a.type a.name.display
  pushElement { a.element with id }
  pushChild a.parent t.slots.length
  return t.slots.length

def start (modelType unit : String) (range : Region) (isReadOnly : Bool) : OutlineArena :=
  { modelType, isReadOnly, slots := [{ element :=
      { type := .sourceUnit, name := .simple unit, id := makeId .sourceUnit unit 1, range } }],
    occurrences := [((.sourceUnit, unit), 1)] }

/-- The arena behind several additions; where one fails, the next one finds what it left. -/
def after (t : OutlineArena) : List Addition → OutlineArena
  | [] => t
  | a :: as =>
    match (add a).run t with
    | .ok _ t' => t'.after as
    | .error _ t' => t'.after as

/-! ## The children that an outline has -/

def of (b : OutlineBuilder) : OutlineArena :=
  { modelType := b.outline.modelType, isReadOnly := b.outline.isReadOnly,
    slots := b.outline.elements.mapIdx fun i e => ⟨e, b.outline.childrenOf i⟩,
    occurrences := b.occurrences }

section Of

variable {b : OutlineBuilder} {e : Element} {i parent : Nat}

theorem length_slots_of (b : OutlineBuilder) : (of b).slots.length = b.outline.size :=
  List.length_mapIdx

theorem slots_of (b : OutlineBuilder) (i : Nat) :
    (of b).slots[i]? = (b.outline.get? i).map fun e => ⟨e, b.outline.childrenOf i⟩ :=
  List.getElem?_mapIdx

theorem rangeAt_of (b : OutlineBuilder) (i : Nat) : (of b).rangeAt i = b.outline.rangeOf i := by
  rw [rangeAt, slots_of, Outline.rangeOf]
  cases b.outline.get? i <;> rfl

theorem childrenAt_of (b : OutlineBuilder) (i : Nat) :
    (of b).childrenAt i = b.outline.childrenOf i := by
  rw [childrenAt, slots_of]
  rcases Nat.lt_or_ge i b.outline.size with hi | hi
  · rw [Outline.get?, List.getElem?_eq_getElem hi]
    rfl
  · rw [Outline.childrenOf_eq_nil hi, Outline.get?, List.getElem?_eq_none hi]
    rfl

theorem start_eq_of (modelType unit : String) (range : Region) (isReadOnly : Bool) :
    start modelType unit range isReadOnly =
      of (OutlineBuilder.start modelType unit range isReadOnly) := by
  rfl

private theorem slots_of_push (hp : e.parent? = some parent) (h : parent < b.outline.size) :
    (of (b.push e)).slots =
      ((of b).slots ++
        [{ element := { e with id := b.nextId e.type e.name.display } : Slot }]).modify parent
          fun slot => { slot with children := slot.children ++ [b.outline.size] } := by
  apply List.ext_getElem?
  intro i
  rw [slots_of, List.getElem?_modify, OutlineBuilder.childrenOf_push, hp]
  by_cases hi : i < b.outline.size
  · rw [OutlineBuilder.get?_push_of_lt hi, List.getElem?_append_left (by rwa [length_slots_of]),
      slots_of]
    by_cases hpi : parent = i <;> simp [hi, hpi, Function.comp_def]
  · have hle := Nat.le_of_not_lt hi
    have hnew : (b.push e).outline.get? i =
        [{ e with id := b.nextId e.type e.name.display }][i - b.outline.size]? :=
      List.getElem?_append_right hle
    rw [hnew, List.getElem?_append_right (by rwa [length_slots_of]), length_slots_of,
      Outline.childrenOf_eq_nil hle]
    have hpi : parent ≠ i := by omega
    rcases Nat.eq_zero_or_pos (i - b.outline.size) with hzero | hpos
    · simp [hzero, hi, hpi, hp]
    · rw [List.getElem?_eq_none (Nat.succ_le_of_lt hpos),
        List.getElem?_eq_none (Nat.succ_le_of_lt hpos)]
      rfl

/-- What an addition writes is what the builder gets. -/
theorem agrees_write (a : Addition) (h : a.parent < b.outline.size) :
    OutlineBuilder.Agrees of b
      (do
        let id ← takeId a.type a.name.display
        pushElement { a.element with id }
        pushChild a.parent b.outline.size
        return b.outline.size)
      (.ok (b.outline.size, b.push a.element)) := by
  have hslots : (of (b.push a.element)).slots = _ := slots_of_push rfl h
  exact congrArg (fun slots => EStateM.Result.ok b.outline.size
    { of (b.push a.element) with slots }) hslots.symm

theorem add_run (b : OutlineBuilder) (a : Addition) :
    (add a).run (of b) =
      match b.tryAdd a with
      | .ok (i, b') => .ok i (of b')
      | .error fault => .error fault (of b) := by
  obtain ⟨parent, type, name, range, nameRange?, node?⟩ := a
  simp only [add, EStateM.run_bind, EStateM.run_get, OutlineBuilder.tryAdd, OutlineBuilder.add,
    slots_of]
  cases hg : b.outline.get? parent with
  | none => rfl
  | some above =>
    have hparent : parent < b.outline.size := (List.getElem?_eq_some_iff.1 hg).1
    have hwrite := agrees_write ⟨parent, type, name, range, nameRange?, node?⟩ hparent
    simp only [Option.map_some, rangeAt_of, length_slots_of]
    change OutlineBuilder.Agrees of b _ _
    apply OutlineBuilder.agrees_guard
    cases (b.outline.childrenOf parent).getLast? <;> cases nameRange?
    all_goals
      repeat apply OutlineBuilder.agrees_guard
      exact hwrite

theorem after_of (b : OutlineBuilder) (as : List Addition) :
    (of b).after as = of (b.after as) := by
  induction as generalizing b with
  | nil => rfl
  | cons a as ih =>
    rw [after, add_run, OutlineBuilder.after]
    cases b.tryAdd a with
    | error fault => exact ih b
    | ok added => exact ih added.2

end Of

end OutlineArena

end SourceModel
