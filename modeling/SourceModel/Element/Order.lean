import SourceModel.Outline
import SourceModel.Text.Case

/-!
# Orders of elements

Elements are listed by position or by name. Of two elements that start together the longer one comes
first. Names are compared without regard to case, and only then as they are written.
-/

namespace SourceModel

/-- Texts are compared character by character. -/
def compareText (s t : String) : Ordering :=
  if s < t then .lt else if s = t then .eq else .gt

namespace Element

def compareByPosition (a b : Element) : Ordering :=
  ((compare a.range.offset b.range.offset).then (compare b.range.length a.range.length)).then
    (a.type.compare b.type)

/-- Order by name, where `fold` removes the difference between capital and small letters. -/
def compareByNameWith (fold : String → String) (a b : Element) : Ordering :=
  ((compareText (fold a.name.display) (fold b.name.display)).then
    (compareText a.name.display b.name.display)).then (a.type.compare b.type)

def compareByName (a b : Element) : Ordering := compareByNameWith Text.toLowerCase a b

end Element

/-- How elements are listed. -/
inductive ElementOrder where
  | position
  | name
deriving DecidableEq, Repr, Inhabited

namespace ElementOrder

/-- Comparison of two elements. Elements with the same name are listed by position. -/
def compare : ElementOrder → Element → Element → Ordering
  | position, a, b => a.compareByPosition b
  | name, a, b => (a.compareByName b).then (a.compareByPosition b)

/-- The elements in order. Elements that compare equal stay as they are. -/
def sort (order : ElementOrder) (elements : List Element) : List Element :=
  elements.mergeSort fun a b => order.compare a b != .gt

end ElementOrder

end SourceModel
