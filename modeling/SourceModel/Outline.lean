import SourceModel.Element
import SourceModel.Region
import SourceModel.Text.Quoted
import SourceModel.Word

/-!
# Outlines

The outline of a source unit is its tree of declarations and embedded parts. Elements are numbered
in the order in which they are added, the unit itself has number zero, and an element comes below
one that was there before. The identifier of an element is made of its type, its name and the
number of elements so far that have both.
-/

namespace SourceModel

structure Element where
  type : ElementType
  name : ElementName
  id : String
  parent? : Option Nat := none
  range : Region
  nameRange? : Option Region := none
  /-- Number of the syntax node that the element stands for. -/
  node? : Option Nat := none
deriving DecidableEq, Repr, Inhabited

/-- The elements of a unit. -/
structure Outline where
  modelType : String
  isReadOnly : Bool := false
  elements : List Element
deriving DecidableEq, Repr, Inhabited

namespace Outline

def size (o : Outline) : Nat := o.elements.length

def get? (o : Outline) (i : Nat) : Option Element := o.elements[i]?

def rangeOf (o : Outline) (i : Nat) : Region := (o.get? i).elim default Element.range

def idOf (o : Outline) (i : Nat) : String := (o.get? i).elim "" Element.id

/-- Numbers of the elements right below the element with number `i`, in the order in which they
were added. All of them were added later than that element. -/
def childrenOf (o : Outline) (i : Nat) : List Nat :=
  (o.elements.zipIdx.filter fun (e, j) => i < j && e.parent? == some i).map Prod.snd

theorem lt_of_mem_childrenOf {o : Outline} {i j : Nat} (h : j ∈ o.childrenOf i) :
    i < j ∧ j < o.size := by
  obtain ⟨⟨e, k⟩, hmem, rfl⟩ := List.mem_map.1 h
  obtain ⟨hz, hp⟩ := List.mem_filter.1 hmem
  obtain ⟨_, hlt, _⟩ := List.mem_zipIdx hz
  simp only [Bool.and_eq_true, decide_eq_true_eq] at hp
  exact ⟨hp.1, by simpa [size] using hlt⟩

def find? (o : Outline) (id : String) : Option Nat := o.elements.findIdx? (·.id == id)

/-- The child of the element with number `i` to be entered for `offset`: the first one that
contains it, otherwise the first one that it touches. -/
def childAt? (o : Outline) (offset i : Nat) : Option Nat :=
  ((o.childrenOf i).find? fun j => (o.rangeOf j).contains offset).or
    ((o.childrenOf i).find? fun j => (o.rangeOf j).touches offset)

theorem mem_of_childAt? {o : Outline} {offset i j : Nat} (h : o.childAt? offset i = some j) :
    j ∈ o.childrenOf i := by
  rcases Option.or_eq_some_iff.1 h with h | ⟨_, h⟩ <;> exact List.mem_of_find?_eq_some h

/-- The deepest element at `offset` from the element with number `i` down. -/
def coveringFrom (o : Outline) (offset i : Nat) : Nat :=
  match _h : o.childAt? offset i with
  | none => i
  | some j => o.coveringFrom offset j
termination_by o.size - i
decreasing_by
  have := lt_of_mem_childrenOf (mem_of_childAt? _h)
  omega

/-- The deepest element at `offset`. -/
def covering? (o : Outline) (offset : Nat) : Option Nat :=
  if (o.rangeOf 0).touches offset then some (o.coveringFrom offset 0) else none

/-- Numbers of the element with number `i` and of all elements below it, parents first. -/
def preorderFrom (o : Outline) (i : Nat) : List Nat :=
  i :: (o.childrenOf i).attach.flatMap fun ⟨j, _⟩ => o.preorderFrom j
termination_by o.size - i
decreasing_by
  rename_i h
  have := lt_of_mem_childrenOf h
  omega

/-- Numbers of all elements, parents first. -/
def preorder (o : Outline) : List Nat := o.preorderFrom 0

/-- Number of elements that the entries of a worklist stand for. -/
def pendingSize (o : Outline) (pending : List Nat) : Nat :=
  (pending.flatMap o.preorderFrom).length

theorem preorderFrom_eq (o : Outline) (i : Nat) :
    o.preorderFrom i = i :: (o.childrenOf i).flatMap o.preorderFrom := by
  rw [preorderFrom]
  simp [List.flatMap_subtype, List.unattach_attach]

theorem pendingSize_expand (o : Outline) (i : Nat) (pending : List Nat) :
    o.pendingSize (o.childrenOf i ++ pending) < o.pendingSize (i :: pending) := by
  simp [pendingSize, preorderFrom_eq o i]

/-- Numbers of the elements that are still to be visited and of those below them. A visited element
is replaced by its children. -/
def visitFrom (o : Outline) : List Nat → List Nat
  | [] => []
  | i :: pending => i :: o.visitFrom (o.childrenOf i ++ pending)
termination_by pending => o.pendingSize pending
decreasing_by exact o.pendingSize_expand i pending

/-- Numbers of all elements in the order in which a walk meets them. -/
def visit (o : Outline) : List Nat := o.visitFrom [0]

/-- Written form of an element that names its parts. -/
def inspect (e : Element) : String :=
  "SourceElement \x7b id: " ++ Text.quoted e.id ++ ", type: ElementType(" ++
    toString e.type.code.val ++ "), range: " ++ e.range.inspect ++ " \x7d"

end Outline

/-- An outline to which elements can still be added, with the number of elements of each type and
name so far. -/
structure OutlineBuilder where
  outline : Outline
  occurrences : List ((ElementType × String) × Nat) := []
deriving DecidableEq, Repr, Inhabited

namespace OutlineBuilder

inductive Refusal where
  | unknownParent (parent : Nat)
  | exceedsParent (name : String) (range parentRange : Region)
  | precedesSibling (name : String) (offset : Nat)
  | nameOutside (name : String) (nameRange range : Region)
deriving DecidableEq, Repr

def Refusal.message : Refusal → String
  | unknownParent parent => s!"unknown parent element ElementId({parent})"
  | exceedsParent name range parentRange =>
    s!"element '{name}' {range.display} exceeds parent {parentRange.display}"
  | precedesSibling name offset => s!"element '{name}' at {offset} precedes its previous sibling"
  | nameOutside name nameRange range =>
    s!"name range {nameRange.display} of '{name}' lies outside {range.display}"

def Refusal.fault (refusal : Refusal) : Fault := .contract refusal.message

def maxElements : Nat := halfWordLimit

/-- Number of elements so far with the given type and name. -/
def occurrencesOf (b : OutlineBuilder) (type : ElementType) (name : String) : Nat :=
  (b.occurrences.lookup (type, name)).getD 0

/-- Identifier of the element that is number `occurrence` of its type and name. -/
def makeId (type : ElementType) (name : String) (occurrence : Nat) : String :=
  s!"{type.display}:{name}#{occurrence}"

/-- Appends an element, which gets the next identifier of its type and name. -/
def push (b : OutlineBuilder) (e : Element) : OutlineBuilder :=
  let key := (e.type, e.name.display)
  let occurrence := b.occurrencesOf key.1 key.2 + 1
  let e := { e with id := makeId key.1 key.2 occurrence }
  { outline := { b.outline with elements := b.outline.elements ++ [e] }
    occurrences := (key, occurrence) :: b.occurrences.filter fun entry => entry.1 != key }

/-- An outline of the unit alone. -/
def start (modelType unit : String) (range : Region) (isReadOnly : Bool) : OutlineBuilder :=
  push { outline := { modelType, isReadOnly, elements := [] } }
    { type := .sourceUnit, name := .simple unit, id := "", range }

/-- Number of the unit's own element. -/
def root : Nat := 0

/-- Adds an element below the one with number `parent`. Its range has to lie in that of the parent
and must not start before that of the previous child; the name has to lie in the range. -/
def add (b : OutlineBuilder) (parent : Nat) (type : ElementType) (name : ElementName)
    (range : Region) (nameRange? : Option Region) (node? : Option Nat) :
    Except Fault (Nat × OutlineBuilder) := do
  let some above := b.outline.get? parent | throw (Refusal.unknownParent parent).fault
  if !above.range.containsRegion range then
    throw (Refusal.exceedsParent name.display range above.range).fault
  if let some sibling := (b.outline.childrenOf parent).getLast? then
    if range.offset < (b.outline.rangeOf sibling).offset then
      throw (Refusal.precedesSibling name.display range.offset).fault
  if let some nameRange := nameRange? then
    if !range.containsRegion nameRange then
      throw (Refusal.nameOutside name.display nameRange range).fault
  if b.outline.size ≥ maxElements then throw (.internal "source structure exceeds u32 ids")
  return (b.outline.size,
    b.push { type, name, id := "", parent? := some parent, range, nameRange?, node? })

def finish (b : OutlineBuilder) : Outline := b.outline

end OutlineBuilder

end SourceModel
