import Mathlib.Data.List.Sort
import SourceModel.Element.Order

/-!
# Sorted elements

The comparisons of elements put any elements into a line, in which elements that compare equal share
a place. So a list that is sorted stays as it is when it is sorted again, and how the elements were
arranged before does not show in what an order looks at.
-/

namespace SourceModel

/-! ## Lists sorted by a comparison -/

section Sorted

variable {α κ : Type} {cmp : α → α → Ordering} [Std.TransCmp cmp] {l m : List α}

private theorem bne_gt_eq_isLE (o : Ordering) : (o != .gt) = o.isLE := by
  cases o <;> rfl

private theorem pairwise_mergeSort_cmp (l : List α) :
    (l.mergeSort fun a b => cmp a b != .gt).Pairwise fun a b => (cmp a b).isLE := by
  simp only [bne_gt_eq_isLE]
  refine List.pairwise_mergeSort (fun _ _ _ => Std.TransCmp.isLE_trans) (fun a b => ?_) l
  have hswap : cmp b a = (cmp a b).swap := Std.OrientedCmp.eq_swap
  rw [hswap]
  cases cmp a b <;> rfl

omit [Std.TransCmp cmp] in
private theorem mergeSort_cmp_of_pairwise (h : l.Pairwise fun a b => (cmp a b).isLE) :
    (l.mergeSort fun a b => cmp a b != .gt) = l := by
  simp only [bne_gt_eq_isLE]
  exact List.mergeSort_of_pairwise h

private theorem map_eq_of_perm {key : α → κ} (hkey : ∀ {a b}, cmp a b = .eq ↔ key a = key b)
    (hl : l.Pairwise fun a b => (cmp a b).isLE) (hm : m.Pairwise fun a b => (cmp a b).isLE)
    (h : l.Perm m) : l.map key = m.map key := by
  let le (x y : κ) : Prop := ∃ a b, key a = x ∧ key b = y ∧ (cmp a b).isLE
  have hle : ∀ {k : List α}, (k.Pairwise fun a b => (cmp a b).isLE) → (k.map key).Pairwise le :=
    fun hk => List.pairwise_map.2 (hk.imp fun hab => ⟨_, _, rfl, rfl, hab⟩)
  refine List.Perm.eq_of_pairwise ?_ (hle hl) (hle hm) (h.map key)
  rintro x y - - ⟨a, b, rfl, rfl, hab⟩ ⟨b', a', hb, ha, hba⟩
  rw [← hkey] at ha hb ⊢
  rw [Std.TransCmp.congr_left hb, Std.TransCmp.congr_right ha] at hba
  exact Std.OrientedCmp.isLE_antisymm hab hba

end Sorted

/-! ## Comparisons of elements -/

private theorem compareText_eq_compare (s t : String) : compareText s t = compare s t := rfl

private theorem ElementType.compare_eq_eq_iff {s t : ElementType} : s.compare t = .eq ↔ s = t := by
  rw [ElementType.compare, Std.compare_eq_iff_eq, ElementType.mk.injEq]

private theorem Region.eq_iff {r s : Region} :
    r = s ↔ r.offset = s.offset ∧ r.length = s.length := by
  cases r
  cases s
  simp

namespace Element

variable {a b : Element} {fold : String → String}

private theorem transCmp_length :
    Std.TransCmp fun a b : Element => compare b.range.length a.range.length :=
  @Std.TransCmp.opposite Element (compareOn fun e => e.range.length) _

instance transCmp_compareByPosition : Std.TransCmp compareByPosition :=
  have := transCmp_length
  inferInstanceAs (Std.TransCmp (compareLex
    (compareLex (compareOn fun e : Element => e.range.offset) fun a b =>
      compare b.range.length a.range.length)
    (compareOn fun e => e.type.code)))

instance transCmp_compareByNameWith (fold : String → String) :
    Std.TransCmp (compareByNameWith fold) :=
  inferInstanceAs (Std.TransCmp (compareLex
    (compareLex (compareOn fun e : Element => fold e.name.display)
      (compareOn fun e => e.name.display))
    (compareOn fun e => e.type.code)))

private theorem compareByPosition_eq_eq_iff :
    a.compareByPosition b = .eq ↔ a.range = b.range ∧ a.type = b.type := by
  rw [compareByPosition, Ordering.then_eq_eq, Ordering.then_eq_eq, Std.compare_eq_iff_eq,
    Std.compare_eq_iff_eq, ElementType.compare_eq_eq_iff, Region.eq_iff,
    eq_comm (a := b.range.length)]

private theorem compareByNameWith_eq_eq_iff :
    a.compareByNameWith fold b = .eq ↔ a.name.display = b.name.display ∧ a.type = b.type := by
  rw [compareByNameWith, Ordering.then_eq_eq, Ordering.then_eq_eq, compareText_eq_compare,
    compareText_eq_compare, Std.compare_eq_iff_eq, Std.compare_eq_iff_eq,
    ElementType.compare_eq_eq_iff]
  have hfold : a.name.display = b.name.display → fold a.name.display = fold b.name.display :=
    congrArg fold
  tauto

end Element

namespace ElementOrder

variable {a b : Element} {l m : List Element} {order : ElementOrder} {fold : String → String}

/-- The comparison of an order, where `fold` removes the difference between capital and small
letters. -/
def compareWith (fold : String → String) : ElementOrder → Element → Element → Ordering
  | position => Element.compareByPosition
  | name => fun a b => (a.compareByNameWith fold b).then (a.compareByPosition b)

def sortWith (fold : String → String) (order : ElementOrder) (elements : List Element) :
    List Element :=
  elements.mergeSort fun a b => order.compareWith fold a b != .gt

private theorem compare_eq (order : ElementOrder) :
    order.compare = order.compareWith Text.toLowerCase := by
  cases order <;> rfl

private theorem sort_eq (order : ElementOrder) : order.sort = order.sortWith Text.toLowerCase := by
  unfold sort sortWith
  rw [compare_eq]

instance transCmp_compareWith (fold : String → String) (order : ElementOrder) :
    Std.TransCmp (order.compareWith fold) := by
  cases order with
  | position => exact Element.transCmp_compareByPosition
  | name =>
    exact inferInstanceAs (Std.TransCmp (compareLex (Element.compareByNameWith fold)
      Element.compareByPosition))

def seen : ElementOrder → Element → Region × ElementType × Option String
  | position, e => (e.range, e.type, none)
  | name, e => (e.range, e.type, some e.name.display)

private theorem compareWith_eq_eq_iff :
    order.compareWith fold a b = .eq ↔ order.seen a = order.seen b := by
  cases order with
  | position => simp [compareWith, seen, Element.compareByPosition_eq_eq_iff]
  | name =>
    simp only [compareWith, seen, Ordering.then_eq_eq, Element.compareByPosition_eq_eq_iff,
      Element.compareByNameWith_eq_eq_iff, Prod.mk.injEq, Option.some.injEq]
    tauto

/-- Elements are compared by position and by name in a line, whatever removes the difference between
capital and small letters. In either order sorted elements are the same as before and in order,
sorting them again changes nothing, and however they were arranged before, the same ranges and types
come out at every place, and by name also the same names. -/
theorem sorts_perm (fold : String → String) :
    Std.TransCmp Element.compareByPosition ∧ Std.TransCmp (Element.compareByNameWith fold) ∧
      ∀ order : ElementOrder, order.sort = order.sortWith Text.toLowerCase ∧
        ∀ l : List Element, (order.sortWith fold l).Perm l ∧
          (order.sortWith fold l).Pairwise (fun a b => (order.compareWith fold a b).isLE) ∧
          order.sortWith fold (order.sortWith fold l) = order.sortWith fold l ∧
          ∀ m : List Element, l.Perm m →
            (order.sortWith fold l).map order.seen = (order.sortWith fold m).map order.seen := by
  refine ⟨inferInstance, inferInstance, fun order => ⟨order.sort_eq, fun l => ?_⟩⟩
  have hsorted : ∀ l : List Element,
      (order.sortWith fold l).Pairwise fun a b => (order.compareWith fold a b).isLE :=
    pairwise_mergeSort_cmp
  have hperm : ∀ l : List Element, (order.sortWith fold l).Perm l :=
    fun l => List.mergeSort_perm ..
  refine ⟨hperm l, hsorted l, mergeSort_cmp_of_pairwise (hsorted l), fun m h => ?_⟩
  exact map_eq_of_perm compareWith_eq_eq_iff (hsorted l) (hsorted m)
    (((hperm l).trans h).trans (hperm m).symm)

def declared (name : String) (start : Nat) (h : start + 5 < naOffset) : Element where
  type := .declaration
  name := .simple name
  id := name
  range := ⟨start, 5, h⟩

def declarations : List Element :=
  [declared "Alpha" 10 (by decide), declared "alpha" 20 (by decide), declared "beta" 2 (by decide)]

/-- Names that differ in case only stand side by side. -/
theorem sorts_perm_declarations :
    declarations.Perm declarations.reverse ∧
      (name.sort declarations.reverse).map name.seen = declarations.map name.seen := by
  have hperm : declarations.Perm declarations.reverse := (List.reverse_perm _).symm
  have hsorted : name.sort declarations = declarations := by
    rw [sort_eq]
    exact mergeSort_cmp_of_pairwise (by decide)
  obtain ⟨-, -, hsorts⟩ := sorts_perm Text.toLowerCase
  obtain ⟨hsort, hlists⟩ := hsorts name
  obtain ⟨-, -, -, hseen⟩ := hlists declarations
  have hsame := hseen declarations.reverse hperm
  rw [← hsort, hsorted] at hsame
  exact ⟨hperm, hsame.symm⟩

end ElementOrder

end SourceModel
