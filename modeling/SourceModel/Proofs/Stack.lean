import Mathlib.Data.List.Basic

/-!
# Walks with a stack

A walk keeps the values that wait on a stack. It takes the top, gives it, and pushes what comes
below, from the last one to the first one. From whatever stack it starts, it gives each value and
all that comes below before it gets to the next one. So it gives a preorder, and ends behind it.
-/

namespace SourceModel.Stack

variable {α : Type} {children order : α → List α} {stack as bs : List α}

/-- The value that a walk gives next, and its stack behind it. The top stands last. -/
def next? (children : α → List α) (stack : List α) : Option (α × List α) :=
  stack.getLast?.map fun a => (a, stack.dropLast ++ (children a).reverse)

/-- What a walk gives from a stack on until there is nothing more. -/
inductive Yields (children : α → List α) : List α → List α → Prop
  | done {stack : List α} : next? children stack = none → Yields children stack []
  | more {stack stack' as : List α} {a : α} :
    next? children stack = some (a, stack') → Yields children stack' as →
      Yields children stack (a :: as)

theorem Yields.unique (h : Yields children stack as) (h' : Yields children stack bs) : as = bs := by
  induction h generalizing bs with
  | done hnone =>
    cases h' with
    | done => rfl
    | more hsome =>
      rw [hnone] at hsome
      cases hsome
  | more hsome _ ih =>
    cases h' with
    | done hnone =>
      rw [hnone] at hsome
      cases hsome
    | more hsome' hrest =>
      rw [hsome, Option.some.injEq, Prod.mk.injEq] at hsome'
      obtain ⟨rfl, rfl⟩ := hsome'
      rw [ih hrest]

theorem next?_reverse_cons (children : α → List α) (a : α) (pending : List α) :
    next? children (a :: pending).reverse = some (a, (children a ++ pending).reverse) := by
  simp [next?]

theorem yields_flatMap (h : ∀ a, order a = a :: (children a).flatMap order) (pending : List α) :
    Yields children pending.reverse (pending.flatMap order) := by
  -- With each value that is given, what is left of the preorder gets shorter.
  induction hn : (pending.flatMap order).length using Nat.strongRecOn generalizing pending with
  | _ n ih =>
    cases pending with
    | nil => exact .done rfl
    | cons a pending =>
      have hsplit : (a :: pending).flatMap order = a :: (children a ++ pending).flatMap order := by
        rw [List.flatMap_cons, h a, List.flatMap_append, List.cons_append]
      rw [hsplit, List.length_cons] at hn
      rw [hsplit]
      exact .more (next?_reverse_cons children a pending) (ih _ (by omega) _ rfl)

/-- A walk from one value gives just the preorder from that value on. -/
theorem yields_iff (h : ∀ a, order a = a :: (children a).flatMap order) (a : α) :
    Yields children [a] as ↔ as = order a := by
  have hwalk := yields_flatMap h [a]
  rw [List.flatMap_singleton] at hwalk
  exact ⟨fun h => h.unique hwalk, fun h => h ▸ hwalk⟩

end SourceModel.Stack
