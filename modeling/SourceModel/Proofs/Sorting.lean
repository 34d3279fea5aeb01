import Mathlib.Data.List.Basic

/-!
# Stable sorting

Merge sort by a key keeps the elements with one key in the order in which they stand. Together with
the order of the keys this determines the result, so that sorting goes with taking a part of a list
and with cutting a list at a key.
-/

namespace SourceModel

section Sorting

variable {α : Type} {key : α → Nat} {l m : List α}

/-- A list sorted by a key; elements with one key stay in their order. -/
def sortOn (key : α → Nat) (l : List α) : List α := l.mergeSort fun a b => key a ≤ key b

private theorem keys_trans (a b c : α) (h : decide (key a ≤ key b) = true)
    (h' : decide (key b ≤ key c) = true) : decide (key a ≤ key c) = true := by
  simp only [decide_eq_true_eq] at h h' ⊢
  exact Nat.le_trans h h'

private theorem keys_total (a b : α) :
    (decide (key a ≤ key b) || decide (key b ≤ key a)) = true := by
  simp only [Bool.or_eq_true, decide_eq_true_eq]
  exact Nat.le_total _ _

theorem sortOn_perm (key : α → Nat) (l : List α) : (sortOn key l).Perm l := List.mergeSort_perm ..

theorem pairwise_sortOn (key : α → Nat) (l : List α) :
    (sortOn key l).Pairwise fun a b => key a ≤ key b := by
  have h := List.pairwise_mergeSort (@keys_trans _ key) keys_total l
  simpa only [sortOn, decide_eq_true_eq] using h

theorem sortOn_of_pairwise (h : l.Pairwise fun a b => key a ≤ key b) : sortOn key l = l :=
  List.mergeSort_of_pairwise (by simpa only [decide_eq_true_eq] using h)

/-- The elements with one key keep their order. -/
theorem filter_key_sortOn (key : α → Nat) (l : List α) (k : Nat) :
    (sortOn key l).filter (fun a => key a = k) = l.filter fun a => key a = k := by
  have hsame : (l.filter fun a => key a = k).Pairwise fun a b => decide (key a ≤ key b) = true := by
    refine List.pairwise_of_forall_mem_list fun a ha b hb => ?_
    have hka := (List.mem_filter.1 ha).2
    have hkb := (List.mem_filter.1 hb).2
    simp only [decide_eq_true_eq] at hka hkb ⊢
    omega
  have hsub : (l.filter fun a => key a = k).Sublist (sortOn key l) :=
    List.sublist_mergeSort keys_trans keys_total hsame List.filter_sublist
  have hfilter := hsub.filter fun a => decide (key a = k)
  rw [List.filter_filter] at hfilter
  simp only [Bool.and_self] at hfilter
  exact (hfilter.eq_of_length ((sortOn_perm key l).filter _).length_eq.symm).symm

/-- A sorted list is determined by its elements of each key. -/
theorem eq_of_filter_key (hl : l.Pairwise fun a b => key a ≤ key b)
    (hm : m.Pairwise fun a b => key a ≤ key b)
    (h : ∀ k, l.filter (fun a => key a = k) = m.filter fun a => key a = k) : l = m := by
  have hmem : ∀ a, a ∈ l ↔ a ∈ m := by
    intro a
    have ha : a ∈ l.filter (fun b => key b = key a) ↔ a ∈ m.filter fun b => key b = key a := by
      rw [h]
    simpa using ha
  induction l generalizing m with
  | nil => exact (List.eq_nil_iff_forall_not_mem.2 fun a ha => by simpa using (hmem a).2 ha).symm
  | cons a l ih =>
    cases m with
    | nil => exact absurd ((hmem a).1 (by simp)) (by simp)
    | cons b m =>
      have hab : key a = key b := by
        have hba : key b ≤ key a := by
          rcases List.mem_cons.1 ((hmem a).1 (by simp)) with hb | hb
          · exact Nat.le_of_eq (congrArg key hb.symm)
          · exact (List.pairwise_cons.1 hm).1 a hb
        have hab : key a ≤ key b := by
          rcases List.mem_cons.1 ((hmem b).2 (by simp)) with ha | ha
          · exact Nat.le_of_eq (congrArg key ha.symm)
          · exact (List.pairwise_cons.1 hl).1 b ha
        omega
      have hhead := h (key a)
      simp only [List.filter_cons, hab, decide_true, if_true, List.cons.injEq] at hhead
      obtain ⟨rfl, -⟩ := hhead
      have htail : ∀ k, l.filter (fun c => key c = k) = m.filter fun c => key c = k := by
        intro k
        have hk := h k
        simp only [List.filter_cons] at hk
        split at hk
        · exact (List.cons.inj hk).2
        · exact hk
      have hmem' : ∀ c, c ∈ l ↔ c ∈ m := by
        intro c
        have hc : c ∈ l.filter (fun d => key d = key c) ↔ c ∈ m.filter fun d => key d = key c := by
          rw [htail]
        simpa using hc
      rw [ih (List.pairwise_cons.1 hl).2 (List.pairwise_cons.1 hm).2 htail hmem']

theorem filter_sortOn (key : α → Nat) (p : α → Bool) (l : List α) :
    (sortOn key l).filter p = sortOn key (l.filter p) := by
  refine eq_of_filter_key ((pairwise_sortOn key l).filter p) (pairwise_sortOn key _) fun k => ?_
  rw [filter_key_sortOn, List.filter_comm, filter_key_sortOn, List.filter_comm]

theorem sortOn_cut (key : α → Nat) (bound : Nat) (l : List α) :
    sortOn key l =
      sortOn key (l.filter (key · < bound)) ++ sortOn key (l.filter (bound ≤ key ·)) := by
  have hcross : ∀ a ∈ sortOn key (l.filter (key · < bound)),
      ∀ b ∈ sortOn key (l.filter (bound ≤ key ·)), key a ≤ key b := by
    intro a ha b hb
    have hlt := (List.mem_filter.1 ((sortOn_perm key _).mem_iff.1 ha)).2
    have hle := (List.mem_filter.1 ((sortOn_perm key _).mem_iff.1 hb)).2
    simp only [decide_eq_true_eq] at hlt hle
    omega
  have hsorted := List.pairwise_append.2 ⟨pairwise_sortOn key _, pairwise_sortOn key _, hcross⟩
  refine eq_of_filter_key (pairwise_sortOn key _) hsorted fun k => ?_
  simp only [List.filter_append, filter_key_sortOn, List.filter_filter]
  by_cases hk : k < bound
  · have hbelow : l.filter (fun a => key a = k ∧ key a < bound) = l.filter fun a => key a = k :=
      List.filter_congr fun a _ => decide_eq_decide.2 (by omega)
    have habove : l.filter (fun a => key a = k ∧ bound ≤ key a) = [] :=
      List.filter_eq_nil_iff.2 fun a _ => by simp only [decide_eq_true_eq]; omega
    simp only [← Bool.decide_and, hbelow, habove, List.append_nil]
  · have hbelow : l.filter (fun a => key a = k ∧ key a < bound) = [] :=
      List.filter_eq_nil_iff.2 fun a _ => by simp only [decide_eq_true_eq]; omega
    have habove : l.filter (fun a => key a = k ∧ bound ≤ key a) = l.filter fun a => key a = k :=
      List.filter_congr fun a _ => decide_eq_decide.2 (by omega)
    simp only [← Bool.decide_and, hbelow, habove, List.nil_append]

theorem sortOn_append_cut {bound : Nat} {l' m' : List α} (hl : ∀ a ∈ l, key a < bound)
    (hm : ∀ a ∈ m, bound ≤ key a) (hl' : ∀ a ∈ l', key a < bound) (hm' : ∀ a ∈ m', bound ≤ key a) :
    sortOn key (l ++ m ++ (l' ++ m')) = sortOn key (l ++ l') ++ sortOn key (m ++ m') := by
  have hbelow : ∀ {l : List α}, (∀ a ∈ l, key a < bound) →
      l.filter (key · < bound) = l ∧ l.filter (bound ≤ key ·) = [] := by
    intro l hl
    refine ⟨List.filter_eq_self.2 fun a ha => decide_eq_true (hl a ha), ?_⟩
    exact List.filter_eq_nil_iff.2 fun a ha => by simpa using hl a ha
  have habove : ∀ {m : List α}, (∀ a ∈ m, bound ≤ key a) →
      m.filter (key · < bound) = [] ∧ m.filter (bound ≤ key ·) = m := by
    intro m hm
    refine ⟨List.filter_eq_nil_iff.2 fun a ha => by simpa using hm a ha, ?_⟩
    exact List.filter_eq_self.2 fun a ha => decide_eq_true (hm a ha)
  rw [sortOn_cut key bound]
  simp only [List.filter_append, hbelow hl, hbelow hl', habove hm, habove hm', List.append_nil,
    List.nil_append]

theorem sortOn_map {β : Type} {key' : β → Nat} {f : α → β}
    (h : ∀ a b, key a ≤ key b ↔ key' (f a) ≤ key' (f b)) (l : List α) :
    sortOn key' (l.map f) = (sortOn key l).map f :=
  (List.map_mergeSort fun a _ b _ => decide_eq_decide.2 (h a b)).symm

end Sorting

end SourceModel
