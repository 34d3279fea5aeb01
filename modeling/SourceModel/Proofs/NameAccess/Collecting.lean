import SourceModel.Proofs.NameAccess
import Mathlib.Data.List.Perm.Basic

/-!
# Accesses in any order

The accesses of a set are those of the list that it has been made from, each once and with its own
name. Both the accesses of a name and the names are sorted by places. Where no two accesses stand at
the same place nothing else decides the order, and so the order of the list does not count.
-/

namespace SourceModel

/-- Whether an access does not come behind another one: by the offset of the name, then by its
length. -/
def NameAccess.NotBehind (a b : NameAccess) : Prop :=
  a.region.offset < b.region.offset ∨
    a.region.offset = b.region.offset ∧ a.region.length ≤ b.region.length

namespace NameAccessSet

variable {as bs : List NameAccess} {a b c : NameAccess} {label : String}
  {g h : String × List NameAccess}

/-! ## Sorting by places -/

private theorem compare_iff : (a.compare b != .gt) = true ↔ a.NotBehind b := by
  unfold NameAccess.compare NameAccess.NotBehind
  simp only [bne_iff_ne, ne_eq, Ordering.then_eq_gt, Nat.compare_eq_gt, Nat.compare_eq_eq]
  omega

private theorem compare_trans (a b c : NameAccess) (hab : (a.compare b != .gt) = true)
    (hbc : (b.compare c != .gt) = true) : (a.compare c != .gt) = true := by
  rw [compare_iff, NameAccess.NotBehind] at hab hbc ⊢
  omega

private theorem compare_total (a b : NameAccess) :
    ((a.compare b != .gt) || (b.compare a != .gt)) = true := by
  rw [Bool.or_eq_true, compare_iff, compare_iff, NameAccess.NotBehind, NameAccess.NotBehind]
  omega

private theorem region_eq (hab : a.NotBehind b) (hba : b.NotBehind a) : a.region = b.region := by
  unfold NameAccess.NotBehind at hab hba
  apply Region.eq_of_bounds
  · omega
  · unfold Region.stop
    omega

def bucket (as : List NameAccess) (label : String) : List NameAccess :=
  (named as label).mergeSort fun a b => a.compare b != .gt

private theorem bucket_perm (as : List NameAccess) (label : String) :
    (bucket as label).Perm (named as label) := List.mergeSort_perm ..

private theorem ordered_bucket (as : List NameAccess) (label : String) :
    Ordered (bucket as label) :=
  List.pairwise_mergeSort compare_trans compare_total _

private theorem mem_bucket : a ∈ bucket as label ↔ a ∈ as ∧ a.label = label := by
  rw [(bucket_perm as label).mem_iff, named, List.mem_filter, decide_eq_true_eq]

private theorem bucket_ne_nil (h : label ∈ as.map NameAccess.label) : bucket as label ≠ [] := by
  obtain ⟨a, ha, hlabel⟩ := List.mem_map.1 h
  exact List.ne_nil_of_mem (mem_bucket.2 ⟨ha, hlabel⟩)

private theorem bucket_eq_nil (h : label ∉ as.map NameAccess.label) : bucket as label = [] := by
  refine List.eq_nil_iff_forall_not_mem.2 fun a ha => h ?_
  obtain ⟨has, hlabel⟩ := mem_bucket.1 ha
  exact List.mem_map.2 ⟨a, has, hlabel⟩

/-! ## Sorting groups -/

/-- Whether the first access of a group does not come behind that of another one. Unlike
`startsNoLater` this orders groups without accesses, too. -/
def startsFirst (g h : String × List NameAccess) : Bool :=
  (g.2.headD default).compare (h.2.headD default) != .gt

private theorem startsNoLater_eq (hg : g.2 ≠ []) (hh : h.2 ≠ []) :
    startsNoLater g h = startsFirst g h := by
  obtain ⟨_, _ | ⟨a, as⟩⟩ := g
  · exact absurd rfl hg
  · obtain ⟨_, _ | ⟨b, bs⟩⟩ := h
    · exact absurd rfl hh
    · rfl

private theorem groups_eq (as : List NameAccess) :
    (ofList as).groups =
      (tabulate (as.map NameAccess.label).eraseDups (bucket as)).mergeSort startsFirst := by
  have hgroups : (group as).map (fun g => (g.1, g.2.mergeSort fun a b => a.compare b != .gt)) =
      tabulate (as.map NameAccess.label).eraseDups (bucket as) := by
    rw [group_eq, tabulate, List.map_map]
    rfl
  have hne : ∀ g ∈ tabulate (as.map NameAccess.label).eraseDups (bucket as), g.2 ≠ [] := by
    intro g hg
    obtain ⟨label, hlabel, rfl⟩ := List.mem_map.1 hg
    exact bucket_ne_nil (List.mem_eraseDups.1 hlabel)
  have hsame := List.map_mergeSort (f := id) fun g hg h hh => startsNoLater_eq (hne g hg) (hne h hh)
  rw [List.map_id, List.map_id] at hsame
  rw [← hsame, ← hgroups]
  rfl

private theorem groups_perm (as : List NameAccess) :
    (ofList as).groups.Perm (tabulate (as.map NameAccess.label).eraseDups (bucket as)) := by
  rw [groups_eq]
  exact List.mergeSort_perm ..

private theorem pairwise_groups (as : List NameAccess) :
    (ofList as).groups.Pairwise fun g h => startsFirst g h = true := by
  rw [groups_eq]
  have htrans : ∀ f g h, startsFirst f g = true → startsFirst g h = true →
      startsFirst f h = true := fun _ _ _ => compare_trans _ _ _
  have htotal : ∀ g h, (startsFirst g h || startsFirst h g) = true := fun _ _ => compare_total _ _
  exact List.pairwise_mergeSort htrans htotal _

private theorem mem_groups : g ∈ (ofList as).groups ↔
    g.1 ∈ as.map NameAccess.label ∧ g.2 = bucket as g.1 := by
  rw [(groups_perm as).mem_iff, tabulate, List.mem_map]
  constructor
  · rintro ⟨label, hlabel, rfl⟩
    exact ⟨List.mem_eraseDups.1 hlabel, rfl⟩
  · rintro ⟨hlabel, hbucket⟩
    exact ⟨g.1, List.mem_eraseDups.2 hlabel, by rw [← hbucket]⟩

private theorem nodup_names (as : List NameAccess) : (ofList as).names.Nodup := by
  have hperm := (groups_perm as).map Prod.fst
  rw [tabulate, List.map_map] at hperm
  exact hperm.nodup_iff.2 (by simpa [Function.comp_def] using nodup_eraseDups _)

private theorem allOf_eq_bucket (as : List NameAccess) (label : String) :
    (ofList as).allOf label = bucket as label := by
  rw [allOf]
  cases hlookup : (ofList as).groups.lookup label with
  | some found => exact (mem_groups.1 (mem_of_lookup hlookup)).2
  | none =>
    refine (bucket_eq_nil fun hlabel => ?_).symm
    have hgroup : (label, bucket as label) ∈ (ofList as).groups := mem_groups.2 ⟨hlabel, rfl⟩
    rw [lookup_of_mem (nodup_names as) hgroup] at hlookup
    cases hlookup

theorem perm_accesses (as : List NameAccess) : (ofList as).accesses.Perm as := by
  refine ((groups_perm as).flatMap_right Prod.snd).trans (.trans ?_ (group_perm as))
  rw [group_eq, tabulate, tabulate, List.flatMap_map, List.flatMap_map]
  exact List.Perm.flatMap_left _ fun label _ => bucket_perm as label

/-! ## Accesses at distinct places -/

private theorem eq_of_notBehind (hn : (as.map NameAccess.region).Nodup) (ha : a ∈ as) (hb : b ∈ as)
    (hab : (a.compare b != .gt) = true) (hba : (b.compare a != .gt) = true) : a = b :=
  List.inj_on_of_nodup_map hn ha hb (region_eq (compare_iff.1 hab) (compare_iff.1 hba))

private theorem bucket_eq_of_perm (hp : as.Perm bs) (hn : (as.map NameAccess.region).Nodup)
    (label : String) : bucket as label = bucket bs label := by
  refine List.Perm.eq_of_pairwise (fun a b ha hb => ?_) (ordered_bucket as label)
    (ordered_bucket bs label) ?_
  · exact eq_of_notBehind hn (mem_bucket.1 ha).1 (hp.mem_iff.2 (mem_bucket.1 hb).1)
  · have hnamed : (named as label).Perm (named bs label) := hp.filter _
    exact (bucket_perm as label).trans (hnamed.trans (bucket_perm bs label).symm)

private theorem eq_of_startsFirst (hn : (as.map NameAccess.region).Nodup)
    (hg : g ∈ (ofList as).groups) (hh : h ∈ (ofList as).groups) (hgh : startsFirst g h = true)
    (hhg : startsFirst h g = true) : g = h := by
  obtain ⟨hglabel, hgbucket⟩ := mem_groups.1 hg
  obtain ⟨hhlabel, hhbucket⟩ := mem_groups.1 hh
  have hfirst : ∀ {label}, label ∈ as.map NameAccess.label →
      (bucket as label).headD default ∈ bucket as label := by
    intro label hlabel
    cases hbucket : bucket as label with
    | nil => exact absurd hbucket (bucket_ne_nil hlabel)
    | cons a rest => exact List.mem_cons_self
  have hgfirst := mem_bucket.1 (hfirst hglabel)
  have hhfirst := mem_bucket.1 (hfirst hhlabel)
  rw [startsFirst, hgbucket, hhbucket] at hgh hhg
  have hsame := eq_of_notBehind hn hgfirst.1 hhfirst.1 hgh hhg
  have hlabel : g.1 = h.1 := by rw [← hgfirst.2, hsame, hhfirst.2]
  exact Prod.ext hlabel (by rw [hgbucket, hhbucket, hlabel])

private theorem ofList_eq_of_perm (hp : as.Perm bs) (hn : (as.map NameAccess.region).Nodup) :
    ofList as = ofList bs := by
  have hmem : ∀ g, g ∈ (ofList as).groups ↔ g ∈ (ofList bs).groups := by
    intro g
    rw [mem_groups, mem_groups, (hp.map _).mem_iff, bucket_eq_of_perm hp hn]
  have hnodup : ∀ cs : List NameAccess, (ofList cs).groups.Nodup := fun cs =>
    (nodup_names cs).of_map
  have hperm := (List.perm_ext_iff_of_nodup (hnodup as) (hnodup bs)).2 hmem
  have hgroups : (ofList as).groups = (ofList bs).groups := by
    refine List.Perm.eq_of_pairwise (fun g h hg hh => ?_) (pairwise_groups as)
      (pairwise_groups bs) hperm
    exact eq_of_startsFirst hn hg ((hmem h).2 hh)
  exact congrArg NameAccessSet.mk hgroups

/-! ## Sets of accesses -/

/-- A set has all accesses of a list, each once and with its own name. The accesses of a name are
sorted by places, and so are the names by their first accesses. -/
structure Gathers (as : List NameAccess) (s : NameAccessSet) : Prop where
  accesses : s.accesses.Perm as
  groups : s.groups = s.names.map fun label => (label, s.allOf label)
  named : ∀ label, (s.allOf label).Perm (as.filter fun a => a.label = label)
  sorted : ∀ label, (s.allOf label).Pairwise NameAccess.NotBehind
  names : s.names.Nodup ∧ ∀ label, label ∈ s.names ↔ ∃ a ∈ as, a.label = label
  firsts : s.names.Pairwise fun l m =>
    ∃ a as b bs, s.allOf l = a :: as ∧ s.allOf m = b :: bs ∧ a.NotBehind b

/-- A set gathers the accesses of the list that it has been made from, and where no two of them
stand at the same place, the order of the list does not count. -/
theorem gathered (as : List NameAccess) :
    Gathers as (ofList as) ∧
      ∀ bs, as.Perm bs → (as.map NameAccess.region).Nodup → ofList as = ofList bs := by
  refine ⟨?_, fun bs => ofList_eq_of_perm⟩
  have hnames : ∀ label, label ∈ (ofList as).names ↔ ∃ a ∈ as, a.label = label := by
    intro label
    rw [names, List.mem_map]
    constructor
    · rintro ⟨g, hg, rfl⟩
      exact List.mem_map.1 (mem_groups.1 hg).1
    · intro hlabel
      exact ⟨(label, bucket as label), mem_groups.2 ⟨List.mem_map.2 hlabel, rfl⟩, rfl⟩
  exact {
    accesses := perm_accesses as
    named := fun label => allOf_eq_bucket as label ▸ bucket_perm as label
    sorted := fun label => by
      rw [allOf_eq_bucket]
      exact (ordered_bucket as label).imp compare_iff.1
    names := ⟨nodup_names as, hnames⟩
    groups := by
      rw [names, List.map_map]
      refine (List.map_id _).symm.trans (List.map_congr_left fun g hg => ?_)
      rw [Function.comp_apply, allOf_eq_bucket, ← (mem_groups.1 hg).2]
      rfl
    firsts := by
      rw [names, List.pairwise_map]
      refine (pairwise_groups as).imp_of_mem fun {g h} hg hh hgh => ?_
      obtain ⟨hglabel, hgbucket⟩ := mem_groups.1 hg
      obtain ⟨hhlabel, hhbucket⟩ := mem_groups.1 hh
      obtain ⟨a, as', ha⟩ := List.exists_cons_of_ne_nil (bucket_ne_nil hglabel)
      obtain ⟨b, bs', hb⟩ := List.exists_cons_of_ne_nil (bucket_ne_nil hhlabel)
      rw [startsFirst, hgbucket, hhbucket, ha, hb] at hgh
      exact ⟨a, as', b, bs', (allOf_eq_bucket as _).trans ha, (allOf_eq_bucket as _).trans hb,
        compare_iff.1 hgh⟩ }

/-- Accesses of two names, in the order of the tree and in another one. -/
def scattered : List NameAccess :=
  [⟨"x", 3, 4, ⟨15, 1, by decide⟩, false⟩, ⟨"y", 5, 6, ⟨7, 1, by decide⟩, true⟩,
    ⟨"x", 1, 2, ⟨3, 1, by decide⟩, true⟩, ⟨"x", 7, 8, ⟨11, 1, by decide⟩, false⟩]

theorem gathered_scattered :
    scattered.Perm scattered.reverse ∧ (scattered.map NameAccess.region).Nodup ∧
      ofList scattered = ofList scattered.reverse ∧
      (ofList scattered).names.Nodup ∧ "y" ∈ (ofList scattered).names := by
  have hperm : scattered.Perm scattered.reverse := (List.reverse_perm _).symm
  have hregions : (scattered.map NameAccess.region).Nodup := by decide
  obtain ⟨hgathers, hsame⟩ := gathered scattered
  exact ⟨hperm, hregions, hsame _ hperm hregions, hgathers.names.1,
    (hgathers.names.2 "y").2 ⟨_, List.mem_cons_of_mem _ List.mem_cons_self, rfl⟩⟩

end NameAccessSet

end SourceModel
