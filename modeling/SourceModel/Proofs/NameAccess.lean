import SourceModel.NameAccess
import SourceModel.Proofs.Entries
import Mathlib.Data.List.Induction
import Mathlib.Data.List.Nodup

/-!
# Groups of name accesses

The group of a name holds the accesses of the name in the order in which they were given, and the
groups stand in the order of the first accesses. Where the accesses are given in source order, so
stand the groups of the set, and nothing is sorted. If moreover no two of them touch, an offset
belongs to one access at most.
-/

namespace SourceModel

namespace NameAccessSet

/-! ## Grouping -/

section Group

variable {as : List NameAccess} {a : NameAccess} {labels : List String} {label : String}
  {f : String → List NameAccess}

private theorem eraseDups_concat (labels : List String) (label : String) :
    (labels ++ [label]).eraseDups =
      if label ∈ labels then labels.eraseDups else labels.eraseDups ++ [label] := by
  rw [List.eraseDups_append]
  by_cases h : label ∈ labels <;> simp [List.removeAll, h, List.eraseDups_cons]

theorem nodup_eraseDups (labels : List String) : labels.eraseDups.Nodup := by
  induction labels using List.reverseRecOn with
  | nil => exact List.nodup_nil
  | append_singleton labels label ih =>
    rw [eraseDups_concat]
    split
    · exact ih
    · rename_i h
      refine List.nodup_append.2 ⟨ih, List.nodup_singleton _, ?_⟩
      intro a ha b hb hab
      rw [List.mem_eraseDups] at ha
      rw [hab, List.mem_singleton.1 hb] at ha
      exact h ha

/-- Groups that are given by a function on their labels. -/
def tabulate (labels : List String) (f : String → List NameAccess) :
    List (String × List NameAccess) := labels.map fun label => (label, f label)

private theorem insert_tabulate_of_notMem (h : a.label ∉ labels) :
    insert a (tabulate labels f) = tabulate labels f ++ [(a.label, [a])] := by
  induction labels with
  | nil => rfl
  | cons label labels ih =>
    obtain ⟨hne, hrest⟩ := not_or.1 (mt List.mem_cons.2 h)
    have hlabel : ¬ label = a.label := fun e => hne e.symm
    have htail := ih hrest
    simp only [tabulate, List.map_cons, insert, if_neg hlabel, List.cons_append] at htail ⊢
    rw [htail]

private theorem insert_tabulate_of_mem (hn : labels.Nodup) (h : a.label ∈ labels) :
    insert a (tabulate labels f) =
      tabulate labels fun label => f label ++ if a.label = label then [a] else [] := by
  induction labels with
  | nil => cases h
  | cons label labels ih =>
    obtain ⟨hout, hn⟩ := List.nodup_cons.1 hn
    by_cases hlabel : label = a.label
    · have htail : ∀ l ∈ labels, (l, f l) = (l, f l ++ if a.label = l then [a] else []) := by
        intro l hl
        have hne : ¬ a.label = l := fun e => hout (hlabel ▸ e ▸ hl)
        rw [if_neg hne, List.append_nil]
      simp only [tabulate, List.map_cons, insert, if_pos hlabel, if_pos hlabel.symm]
      rw [List.map_congr_left htail]
    · have htail := ih hn ((List.mem_cons.1 h).resolve_left fun e => hlabel e.symm)
      have hne : ¬ a.label = label := fun e => hlabel e.symm
      simp only [tabulate, List.map_cons, insert, if_neg hlabel, if_neg hne,
        List.append_nil] at htail ⊢
      rw [htail]

def named (as : List NameAccess) (label : String) : List NameAccess :=
  as.filter fun a => a.label = label

private theorem named_concat (as : List NameAccess) (a : NameAccess) (label : String) :
    named (as ++ [a]) label = named as label ++ if a.label = label then [a] else [] := by
  by_cases h : a.label = label <;> simp [named, h]

/-- There is a group for each name, by first accesses, with all accesses of the name. -/
theorem group_eq (as : List NameAccess) :
    group as = tabulate (as.map NameAccess.label).eraseDups (named as) := by
  induction as using List.reverseRecOn with
  | nil => rfl
  | append_singleton as a ih =>
    have hgroup : group (as ++ [a]) = insert a (group as) := List.foldl_concat ..
    have hnamed : named (as ++ [a]) = fun label =>
        named as label ++ if a.label = label then [a] else [] := funext (named_concat as a)
    rw [hgroup, ih, List.map_append, List.map_singleton, eraseDups_concat]
    by_cases h : a.label ∈ as.map NameAccess.label
    · rw [if_pos h, hnamed]
      exact insert_tabulate_of_mem (nodup_eraseDups _) (List.mem_eraseDups.2 h)
    · have hout : a.label ∉ (as.map NameAccess.label).eraseDups := fun hm =>
        h (List.mem_eraseDups.1 hm)
      have hnone : named as a.label = [] := by
        simpa [named] using fun b hb e => h (List.mem_map.2 ⟨b, hb, e⟩)
      have hsame : ∀ l ∈ (as.map NameAccess.label).eraseDups,
          (l, named as l) = (l, named (as ++ [a]) l) := by
        intro l hl
        have hne : ¬ a.label = l := fun e => hout (e ▸ hl)
        rw [named_concat, if_neg hne, List.append_nil]
      rw [if_neg h, insert_tabulate_of_notMem hout]
      simp only [tabulate, List.map_append, List.map_singleton, named_concat, hnone, if_true,
        List.nil_append, List.map_congr_left hsame]

end Group

/-! ## Accesses in source order -/

def Ordered (as : List NameAccess) : Prop := as.Pairwise fun a b => (a.compare b != .gt) = true

section Ordered

variable {as : List NameAccess} {a b : NameAccess} {label : String} {offset : Nat}

private theorem startsNoLater_iff {g h : String × List NameAccess} :
    startsNoLater g h = true ↔
      ∀ a ∈ g.2.head?, ∀ b ∈ h.2.head?, (a.compare b != .gt) = true := by
  obtain ⟨_, _ | ⟨a, as⟩⟩ := g <;> obtain ⟨_, _ | ⟨b, bs⟩⟩ := h <;> simp [startsNoLater]

private theorem named_ne_nil (h : label ∈ as.map NameAccess.label) : named as label ≠ [] := by
  obtain ⟨a, ha, rfl⟩ := List.mem_map.1 h
  exact List.ne_nil_of_mem (List.mem_filter.2 ⟨ha, decide_eq_true rfl⟩)

private theorem pairwise_group (h : Ordered as) :
    (group as).Pairwise fun g h => startsNoLater g h = true := by
  rw [group_eq, tabulate, List.pairwise_map]
  induction as using List.reverseRecOn with
  | nil => exact .nil
  | append_singleton as a ih =>
    obtain ⟨has, -, hlast⟩ := List.pairwise_append.1 h
    have hkept : ∀ l ∈ as.map NameAccess.label,
        (named (as ++ [a]) l).head? = (named as l).head? := by
      intro l hl
      rw [named_concat, List.head?_append_of_ne_nil _ (named_ne_nil hl)]
    have hold : (as.map NameAccess.label).eraseDups.Pairwise fun l l' =>
        startsNoLater (l, named (as ++ [a]) l) (l', named (as ++ [a]) l') = true := by
      refine (ih has).imp_of_mem fun {l l'} hl hl' hle => ?_
      rw [startsNoLater_iff] at hle ⊢
      rw [hkept l (List.mem_eraseDups.1 hl), hkept l' (List.mem_eraseDups.1 hl')]
      exact hle
    rw [List.map_append, List.map_singleton, eraseDups_concat]
    split
    · exact hold
    · rename_i hnew
      refine List.pairwise_append.2 ⟨hold, List.pairwise_singleton .., fun l hl l' hl' => ?_⟩
      rw [List.mem_singleton.1 hl', startsNoLater_iff, hkept l (List.mem_eraseDups.1 hl)]
      intro b hb c hc
      have hnone : named as a.label = [] := by
        simpa [named] using fun b hb e => hnew (List.mem_map.2 ⟨b, hb, e⟩)
      rw [named_concat, hnone, if_pos rfl] at hc
      cases hc
      have hbas := (List.mem_filter.1 (List.mem_of_mem_head? hb)).1
      exact hlast b hbas a (List.mem_singleton_self a)

private theorem groups_ofList (h : Ordered as) : (ofList as).groups = group as := by
  have hsorted : (ofList as).groups = ((group as).map fun g =>
      (g.1, g.2.mergeSort fun a b => a.compare b != .gt)).mergeSort startsNoLater := rfl
  have hgroups : (group as).map (fun g =>
      (g.1, g.2.mergeSort fun a b => a.compare b != .gt)) = group as := by
    rw [group_eq, tabulate, List.map_map]
    refine List.map_congr_left fun label _ => ?_
    have hnamed : Ordered (named as label) := List.Pairwise.sublist List.filter_sublist h
    simp only [Function.comp_apply, List.mergeSort_of_pairwise hnamed]
  rw [hsorted, hgroups]
  exact List.mergeSort_of_pairwise (pairwise_group h)

theorem names_ofList (h : Ordered as) :
    (ofList as).names = (as.map NameAccess.label).eraseDups := by
  rw [names, groups_ofList h, group_eq, tabulate, List.map_map]
  exact List.map_id _

private theorem lookup_tabulate (labels : List String) (f : String → List NameAccess)
    (label : String) :
    (tabulate labels f).lookup label = if label ∈ labels then some (f label) else none := by
  induction labels with
  | nil => rfl
  | cons l labels ih =>
    simp only [tabulate, List.map_cons, lookup_entry] at ih ⊢
    by_cases h : label = l <;> simp [h, ih]

theorem allOf_ofList (h : Ordered as) (label : String) :
    (ofList as).allOf label = named as label := by
  rw [allOf, groups_ofList h, group_eq, lookup_tabulate]
  split
  · rfl
  · rename_i hout
    have hnone : named as label = [] := by
      simpa [named] using fun b hb e => hout (List.mem_eraseDups.2 (List.mem_map.2 ⟨b, hb, e⟩))
    rw [hnone]
    rfl

end Ordered

/-! ## Accesses that do not touch -/

def accesses (s : NameAccessSet) : List NameAccess := s.groups.flatMap Prod.snd

/-- Whether accesses stand in source order and none touches another one. -/
def Apart (as : List NameAccess) : Prop :=
  as.Pairwise fun a b => a.region.stop < b.region.offset

def NoneTouched (a b : NameAccess) : Prop :=
  ∀ offset, ¬ (a.region.touches offset = true ∧ b.region.touches offset = true)

section Apart

variable {as : List NameAccess} {a b : NameAccess} {offset : Nat}

theorem Apart.ordered (h : Apart as) : Ordered as := by
  refine h.imp fun {a b} hlt => ?_
  have hoffset : a.region.offset < b.region.offset :=
    Nat.lt_of_le_of_lt a.region.offset_le_stop hlt
  simp [NameAccess.compare, Nat.compare_eq_lt.2 hoffset]

private theorem insert_perm (a : NameAccess) (groups : List (String × List NameAccess)) :
    ((insert a groups).flatMap Prod.snd).Perm (groups.flatMap Prod.snd ++ [a]) := by
  induction groups with
  | nil => exact .refl _
  | cons g groups ih =>
    obtain ⟨label, bs⟩ := g
    rw [insert]
    split
    · simp only [List.flatMap_cons, List.append_assoc]
      exact (List.perm_append_comm).append_left bs
    · simp only [List.flatMap_cons, List.append_assoc]
      exact ih.append_left bs

theorem group_perm (as : List NameAccess) : ((group as).flatMap Prod.snd).Perm as := by
  induction as using List.reverseRecOn with
  | nil => exact .nil
  | append_singleton as a ih =>
    have hgroup : group (as ++ [a]) = insert a (group as) := List.foldl_concat ..
    rw [hgroup]
    exact (insert_perm a _).trans (ih.append_right [a])

theorem accesses_perm (h : Ordered as) : (ofList as).accesses.Perm as := by
  rw [accesses, groups_ofList h]
  exact group_perm as

theorem Apart.noneTouched (h : Apart as) : (ofList as).accesses.Pairwise NoneTouched := by
  have hsymm : ∀ {a b : NameAccess}, NoneTouched a b → NoneTouched b a :=
    fun hab offset hba => hab offset ⟨hba.2, hba.1⟩
  refine ((accesses_perm h.ordered).pairwise_iff hsymm).2 (h.imp fun {a b} hlt offset => ?_)
  simp only [Region.touches, Bool.and_eq_true, decide_eq_true_eq]
  omega

private theorem eq_of_touches (h : as.Pairwise NoneTouched) (ha : a ∈ as) (hb : b ∈ as)
    (hta : a.region.touches offset = true) (htb : b.region.touches offset = true) : a = b := by
  induction as with
  | nil => cases ha
  | cons c as ih =>
    obtain ⟨hc, has⟩ := List.pairwise_cons.1 h
    rcases List.mem_cons.1 ha with rfl | ha'
    · rcases List.mem_cons.1 hb with rfl | hb'
      · rfl
      · exact absurd ⟨hta, htb⟩ (hc b hb' offset)
    · rcases List.mem_cons.1 hb with rfl | hb'
      · exact absurd ⟨htb, hta⟩ (hc a ha' offset)
      · exact ih has ha' hb'

/-- The access at an offset is the one that touches it. -/
theorem accessAt?_eq_some_iff {s : NameAccessSet} (h : s.accesses.Pairwise NoneTouched) :
    s.accessAt? offset = some a ↔ a ∈ s.accesses ∧ a.region.touches offset = true := by
  have htouches : ∀ {b}, s.accessAt? offset = some b → b.region.touches offset = true := fun hb =>
    List.find?_some (p := fun b : NameAccess => b.region.touches offset) hb
  constructor
  · intro hfind
    exact ⟨List.mem_of_find?_eq_some hfind, htouches hfind⟩
  · rintro ⟨ha, hta⟩
    cases hfind : s.accessAt? offset with
    | none => exact absurd hta (List.find?_eq_none.1 hfind a ha)
    | some b =>
      have hb := List.mem_of_find?_eq_some hfind
      rw [eq_of_touches h ha hb hta (htouches hfind)]

end Apart

end NameAccessSet

end SourceModel
