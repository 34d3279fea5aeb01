import Mathlib.Data.List.Forall2

/-!
# Related lists

Lists whose elements are related one by one. What holds of one list, its elements or their order,
holds of the other one as far as the relation tells.
-/

namespace SourceModel

section Related

variable {α β γ : Type} {R : α → β → Prop} {as : List α} {bs : List β}

theorem exists_of_mem_forall₂ {b : β} (h : List.Forall₂ R as bs) (hb : b ∈ bs) :
    ∃ a ∈ as, R a b := by
  induction h with
  | nil => cases hb
  | @cons a b' as bs hab _ ih =>
    rcases List.mem_cons.1 hb with rfl | hb
    · exact ⟨a, List.mem_cons_self, hab⟩
    · obtain ⟨a', ha', hr⟩ := ih hb
      exact ⟨a', List.mem_cons_of_mem a ha', hr⟩

theorem pairwise_of_forall₂ {P : α → α → Prop} {Q : β → β → Prop} (h : List.Forall₂ R as bs)
    (hP : as.Pairwise P) (hPQ : ∀ a a' b b', R a b → R a' b' → P a a' → Q b b') :
    bs.Pairwise Q := by
  induction h with
  | nil => exact .nil
  | @cons a b as bs hab hrest ih =>
    obtain ⟨ha, has⟩ := List.pairwise_cons.1 hP
    refine List.pairwise_cons.2 ⟨fun b' hb' => ?_, ih has⟩
    obtain ⟨a', ha', hr⟩ := exists_of_mem_forall₂ hrest hb'
    exact hPQ a a' b b' hab hr (ha a' ha')

theorem forall₂_of_mem {S : α → β → Prop} (h : List.Forall₂ R as bs)
    (hS : ∀ a ∈ as, ∀ b ∈ bs, R a b → S a b) : List.Forall₂ S as bs := by
  induction h with
  | nil => exact .nil
  | @cons a b as bs hab _ ih =>
    refine .cons (hS a List.mem_cons_self b List.mem_cons_self hab) (ih fun a' ha' b' hb' => ?_)
    exact hS a' (List.mem_cons_of_mem a ha') b' (List.mem_cons_of_mem b hb')

theorem forall₂_trans {S : β → γ → Prop} {cs : List γ} (h : List.Forall₂ R as bs)
    (h' : List.Forall₂ S bs cs) : List.Forall₂ (fun a c => ∃ b, R a b ∧ S b c) as cs := by
  induction h generalizing cs with
  | nil =>
    cases h'
    exact .nil
  | cons hab _ ih =>
    cases h' with
    | cons hbc hrest => exact .cons ⟨_, hab, hbc⟩ (ih hrest)

theorem forall₂_filterMap {S : α → γ → Prop} {f : β → Option γ} (h : List.Forall₂ R as bs)
    (hf : ∀ a, ∀ b ∈ bs, R a b → ∃ c, f b = some c ∧ S a c) :
    List.Forall₂ S as (bs.filterMap f) := by
  induction h with
  | nil => exact .nil
  | @cons a b as bs hab _ ih =>
    obtain ⟨c, hc, hac⟩ := hf a b List.mem_cons_self hab
    rw [List.filterMap_cons_some hc]
    exact .cons hac (ih fun a b hb => hf a b (List.mem_cons_of_mem _ hb))

theorem map_eq_of_forall₂ {f : α → γ} {g : β → γ} (h : List.Forall₂ R as bs)
    (hfg : ∀ a b, R a b → f a = g b) : as.map f = bs.map g := by
  induction h with
  | nil => rfl
  | cons hab _ ih => rw [List.map_cons, List.map_cons, hfg _ _ hab, ih]

end Related

end SourceModel
