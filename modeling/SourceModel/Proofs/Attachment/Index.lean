import Mathlib.Data.List.Basic
import Mathlib.Data.List.Nodup
import SourceModel.Attachment
import SourceModel.Proofs.Entries

/-!
# Lookup of attachments by kind

Objects are attached and taken off again in any order, also one that is attached already. The index
by kind then holds of each object the places that it got since it was last taken off, and the
ordered list may hold older ones: taking an object off takes one place out of the list and all out
of the index. So a lookup by kind finds what a scan of the list finds just if no object of that kind
has a place that is older than its last removal.
-/

namespace SourceModel

variable {ν τ : Type}

/-- The object with an identity, where `contents` tells what each object holds. -/
def Attachment.of (contents : Nat → ν) (identity : Nat) : Attachment ν :=
  ⟨identity, contents identity⟩

/-- What a client may do to the attachments of an owner. -/
inductive AttachmentCall where
  | add (identity : Nat)
  | remove (identity : Nat)
deriving DecidableEq, Repr

namespace Attachments

/-! ## The index -/

section Index

variable [DecidableEq τ] [Kinded ν τ] {a : Attachment ν} {kind : τ}
  {index : List (τ × List (Attachment ν))}

structure Tidy (index : List (τ × List (Attachment ν))) : Prop where
  nodup : (index.map Prod.fst).Nodup
  ne_nil : ∀ entry ∈ index, entry.2 ≠ []

omit [DecidableEq τ] [Kinded ν τ] in
private theorem Tidy.tail {entry : τ × List (Attachment ν)} (h : Tidy (entry :: index)) :
    Tidy index :=
  ⟨(List.nodup_cons.1 h.nodup).2, fun other ho => h.ne_nil other (List.mem_cons_of_mem _ ho)⟩

private theorem lookup_indexAdd :
    (indexAdd a index).lookup kind =
      if kind = a.kind then some ((index.lookup kind).getD [] ++ [a]) else index.lookup kind := by
  induction index with
  | nil =>
    rw [indexAdd, lookup_entry]
    split <;> rfl
  | cons entry rest ih =>
    obtain ⟨first, as⟩ := entry
    by_cases hfirst : first = a.kind
    · rw [indexAdd, if_pos hfirst, lookup_entry, lookup_entry]
      by_cases hkind : kind = first
      · simp [hkind, hfirst]
      · rw [if_neg hkind, if_neg hkind, if_neg (hfirst ▸ hkind)]
    · rw [indexAdd, if_neg hfirst, lookup_entry, lookup_entry, ih]
      by_cases hkind : kind = first
      · simp [hkind, hfirst]
      · rw [if_neg hkind, if_neg hkind]

private theorem mem_map_fst_indexAdd :
    kind ∈ (indexAdd a index).map Prod.fst ↔ kind = a.kind ∨ kind ∈ index.map Prod.fst := by
  induction index with
  | nil => simp [indexAdd]
  | cons entry rest ih =>
    obtain ⟨first, as⟩ := entry
    by_cases hfirst : first = a.kind
    · simp [indexAdd, hfirst]
    · rw [indexAdd, if_neg hfirst, List.map_cons, List.mem_cons, ih, List.map_cons, List.mem_cons,
        or_left_comm]

private theorem Tidy.indexAdd (h : Tidy index) : Tidy (indexAdd a index) := by
  induction index with
  | nil => exact ⟨List.nodup_singleton _, by simp [Attachments.indexAdd]⟩
  | cons entry rest ih =>
    obtain ⟨first, as⟩ := entry
    have hrest := ih h.tail
    by_cases hfirst : first = a.kind
    · rw [Attachments.indexAdd, if_pos hfirst]
      exact ⟨h.nodup, List.forall_mem_cons.2 ⟨by simp, h.tail.ne_nil⟩⟩
    · rw [Attachments.indexAdd, if_neg hfirst]
      refine ⟨List.nodup_cons.2 ⟨?_, hrest.nodup⟩, List.forall_mem_cons.2 ⟨?_, hrest.ne_nil⟩⟩
      · rw [mem_map_fst_indexAdd]
        exact not_or.2 ⟨hfirst, (List.nodup_cons.1 h.nodup).1⟩
      · exact h.ne_nil _ List.mem_cons_self

private theorem map_fst_indexRemove_sublist :
    ((indexRemove a index).map Prod.fst).Sublist (index.map Prod.fst) := by
  induction index with
  | nil => exact List.Sublist.slnil
  | cons entry rest ih =>
    obtain ⟨first, as⟩ := entry
    rw [indexRemove]
    split
    · split
      · exact List.sublist_cons_self _ _
      · exact List.Sublist.refl _
    · exact ih.cons_cons _

private theorem Tidy.indexRemove (h : Tidy index) : Tidy (indexRemove a index) := by
  refine ⟨h.nodup.sublist map_fst_indexRemove_sublist, ?_⟩
  induction index with
  | nil => exact h.ne_nil
  | cons entry rest ih =>
    obtain ⟨first, as⟩ := entry
    rw [Attachments.indexRemove]
    split
    · split
      · exact h.tail.ne_nil
      · rename_i hkept
        exact List.forall_mem_cons.2 ⟨hkept, h.tail.ne_nil⟩
    · exact List.forall_mem_cons.2 ⟨h.ne_nil _ List.mem_cons_self, ih h.tail⟩

omit [Kinded ν τ] in
private theorem Tidy.lookup_tail {entry : τ × List (Attachment ν)} (h : Tidy (entry :: index)) :
    index.lookup entry.1 = none := by
  rw [List.lookup_eq_none_iff]
  intro other hother
  have hfirst : entry.1 ≠ other.1 := fun heq =>
    (List.nodup_cons.1 h.nodup).1 (heq ▸ List.mem_map_of_mem hother)
  exact bne_iff_ne.2 hfirst

private theorem Tidy.lookup_indexRemove (h : Tidy index) :
    ((Attachments.indexRemove a index).lookup kind).getD [] =
      if kind = a.kind then ((index.lookup kind).getD []).filter fun b => !b.isSame a
      else (index.lookup kind).getD [] := by
  induction index with
  | nil => simp [Attachments.indexRemove]
  | cons entry rest ih =>
    obtain ⟨first, as⟩ := entry
    have hnone : rest.lookup first = none := h.lookup_tail
    by_cases hfirst : first = a.kind
    · rw [Attachments.indexRemove, if_pos hfirst, lookup_entry]
      by_cases hkind : kind = first
      · subst hkind
        split
        · rename_i hempty
          simp [← hfirst, hnone, hempty]
        · simp [hfirst]
      · rw [if_neg hkind, if_neg (hfirst ▸ hkind)]
        split
        · rfl
        · rw [lookup_entry, if_neg hkind]
    · rw [Attachments.indexRemove, if_neg hfirst, lookup_entry, lookup_entry]
      by_cases hkind : kind = first
      · simp [hkind, hfirst]
      · rw [if_neg hkind, if_neg hkind, ih h.tail]

private theorem Tidy.indexRemove_indexAdd (h : Tidy index)
    (hnew : ∀ b ∈ (index.lookup a.kind).getD [], b.isSame a = false) :
    Attachments.indexRemove a (Attachments.indexAdd a index) = index := by
  have hself : a.isSame a = true := beq_self_eq_true a.identity
  induction index with
  | nil => simp [Attachments.indexAdd, Attachments.indexRemove, hself]
  | cons entry rest ih =>
    obtain ⟨first, as⟩ := entry
    by_cases hfirst : first = a.kind
    · have has : ∀ b ∈ as, b.isSame a = false := by simpa [lookup_entry, hfirst] using hnew
      have hkept : (as ++ [a]).filter (fun b => !b.isSame a) = as := by
        rw [List.filter_append, List.filter_eq_self.2 fun b hb => by simp [has b hb]]
        simp [hself]
      have hne : as ≠ [] := h.ne_nil _ List.mem_cons_self
      rw [Attachments.indexAdd, if_pos hfirst, Attachments.indexRemove, if_pos hfirst, hkept]
      cases as with
      | nil => exact absurd rfl hne
      | cons b bs => rfl
    · have hrest : ∀ b ∈ (rest.lookup a.kind).getD [], b.isSame a = false := by
        simpa [lookup_entry, Ne.symm hfirst] using hnew
      rw [Attachments.indexAdd, if_neg hfirst, Attachments.indexRemove, if_neg hfirst,
        ih h.tail hrest]

end Index

/-! ## Places of objects -/

section Places

variable {n m : Nat → Nat} {identity : Nat} {a : Attachment ν} {as : List (Attachment ν)}

/-- How often an object has a place in a list. -/
def placesOf (identity : Nat) (as : List (Attachment ν)) : Nat :=
  as.countP fun a => a.identity == identity

/-- Of the places of each object in a list as many of the last ones as `n` says. -/
def lastPlaces (n : Nat → Nat) : List (Attachment ν) → List (Attachment ν)
  | [] => []
  | a :: as =>
    if placesOf a.identity as < n a.identity then a :: lastPlaces n as else lastPlaces n as

private theorem lastPlaces_sublist : (lastPlaces n as).Sublist as := by
  induction as with
  | nil => exact List.Sublist.slnil
  | cons a as ih =>
    rw [lastPlaces]
    split
    · exact ih.cons_cons a
    · exact ih.cons a

private theorem lastPlaces_congr (h : ∀ a ∈ as, n a.identity = m a.identity) :
    lastPlaces n as = lastPlaces m as := by
  induction as with
  | nil => rfl
  | cons a as ih =>
    obtain ⟨ha, has⟩ := List.forall_mem_cons.1 h
    rw [lastPlaces, lastPlaces, ha, ih has]

private theorem lastPlaces_concat (hself : m a.identity = n a.identity + 1)
    (hother : ∀ i, i ≠ a.identity → m i = n i) :
    lastPlaces m (as ++ [a]) = lastPlaces n as ++ [a] := by
  induction as with
  | nil => simp [lastPlaces, placesOf, hself]
  | cons b bs ih =>
    have hplaces : placesOf b.identity (bs ++ [a]) < m b.identity ↔
        placesOf b.identity bs < n b.identity := by
      by_cases hb : b.identity = a.identity
      · rw [hb, hself]
        simp [placesOf]
      · simp [placesOf, hother _ hb, Ne.symm hb]
    rw [List.cons_append, lastPlaces, lastPlaces, ih]
    simp only [hplaces]
    split <;> rfl

private theorem lastPlaces_filter (hzero : m identity = 0)
    (hother : ∀ i, i ≠ identity → m i = n i) :
    (lastPlaces n as).filter (fun a => !a.identity == identity) = lastPlaces m as := by
  induction as with
  | nil => rfl
  | cons a as ih =>
    by_cases ha : a.identity = identity
    · rw [lastPlaces, lastPlaces, ← ih, ha, hzero, if_neg (Nat.not_lt_zero _)]
      split <;> simp [ha]
    · rw [lastPlaces, lastPlaces, ← ih, hother _ ha]
      split <;> simp [ha]

private theorem lastPlaces_filter_self (as : List (Attachment ν)) (hzero : n identity = 0) :
    lastPlaces n (as.filter fun a => !a.identity == identity) = lastPlaces n as := by
  induction as with
  | nil => rfl
  | cons a as ih =>
    by_cases ha : a.identity = identity
    · rw [lastPlaces, ha, hzero, if_neg (Nat.not_lt_zero _), ← ih]
      simp [ha]
    · have hplaces : placesOf a.identity (as.filter fun b => !b.identity == identity) =
          placesOf a.identity as := by
        simp only [placesOf, List.countP_filter]
        refine List.countP_congr fun b _ => ?_
        by_cases hb : b.identity = a.identity
        · simp [hb, ha]
        · simp [hb]
      rw [List.filter_cons_of_pos (by simp [ha]), lastPlaces, lastPlaces, ih, hplaces]

private theorem lastPlaces_eq_self_iff :
    lastPlaces n as = as ↔ ∀ a ∈ as, placesOf a.identity as ≤ n a.identity := by
  induction as with
  | nil => simp [lastPlaces]
  | cons a as ih =>
    have hself : placesOf a.identity (a :: as) = placesOf a.identity as + 1 := by simp [placesOf]
    rw [List.forall_mem_cons, hself, Nat.succ_le_iff, lastPlaces]
    by_cases ha : placesOf a.identity as < n a.identity
    · rw [if_pos ha, List.cons.injEq, ih, eq_self, true_and, and_iff_right ha]
      refine forall₂_congr fun b _ => ?_
      by_cases hb : a.identity = b.identity
      · rw [← hb, hself]
        exact iff_of_true (Nat.le_of_lt ha) ha
      · simp [placesOf, hb]
    · rw [if_neg ha]
      refine iff_of_false (fun heq => ?_) fun h => ha h.1
      have hlength := congrArg List.length heq
      have hle : (lastPlaces n as).length ≤ as.length := lastPlaces_sublist.length_le
      rw [List.length_cons] at hlength
      omega

private theorem filter_eraseP {p q : Attachment ν → Bool} (h : ∀ a ∈ as, p a = true → q a = false) :
    (as.eraseP p).filter q = as.filter q := by
  induction as with
  | nil => rfl
  | cons a as ih =>
    obtain ⟨ha, has⟩ := List.forall_mem_cons.1 h
    by_cases hp : p a = true
    · rw [List.eraseP_cons_of_pos hp, List.filter_cons_of_neg (by simp [ha hp])]
    · rw [List.eraseP_cons_of_neg hp, List.filter_cons, List.filter_cons, ih has]

end Places

/-! ## Runs -/

section Runs

/-- How often an object has been added since it was last removed. -/
def addedSinceRemoval (calls : List AttachmentCall) (identity : Nat) : Nat :=
  (calls.reverse.takeWhile fun c => c != .remove identity).count (.add identity)

section Counts

variable (calls : List AttachmentCall) {i j : Nat}

private theorem addedSinceRemoval_add :
    addedSinceRemoval (calls ++ [.add j]) i =
      addedSinceRemoval calls i + if i = j then 1 else 0 := by
  simp only [addedSinceRemoval, List.reverse_append, List.reverse_singleton, List.singleton_append]
  rw [List.takeWhile_cons_of_pos (by rfl), List.count_cons]
  by_cases h : i = j
  · simp [h]
  · simp [h, Ne.symm h]

private theorem addedSinceRemoval_remove :
    addedSinceRemoval (calls ++ [.remove j]) i =
      if i = j then 0 else addedSinceRemoval calls i := by
  simp only [addedSinceRemoval, List.reverse_append, List.reverse_singleton, List.singleton_append]
  by_cases h : i = j
  · simp [h]
  · rw [List.takeWhile_cons_of_pos (by simp [Ne.symm h]), List.count_cons_of_ne (by simp), if_neg h]

end Counts

variable [DecidableEq τ] [Kinded ν τ]

/-- What a scan of the ordered list finds of a kind. -/
def scan (as : Attachments ν τ) (kind : τ) : List (Attachment ν) :=
  as.ordered.filter fun a => a.kind = kind

variable (contents : Nat → ν)

def call (as : Attachments ν τ) : AttachmentCall → Option Bool × Attachments ν τ
  | .add identity => (none, as.add (.of contents identity))
  | .remove identity =>
    (some (as.remove (.of contents identity)).1, (as.remove (.of contents identity)).2)

def after (as : Attachments ν τ) (calls : List AttachmentCall) : Attachments ν τ :=
  calls.foldl (fun as c => (as.call contents c).2) as

/-- The answers of the removals among several calls. -/
def answers (as : Attachments ν τ) : List AttachmentCall → List Bool
  | [] => []
  | c :: calls => (as.call contents c).1.toList ++ (as.call contents c).2.answers calls

structure Indexed (calls : List AttachmentCall) (as : Attachments ν τ) : Prop where
  held : ∀ a ∈ as.ordered, a = .of contents a.identity
  tidy : Tidy as.byKind
  bucket_eq : ∀ kind, as.bucket kind = lastPlaces (addedSinceRemoval calls) (as.scan kind)

variable {contents} {calls : List AttachmentCall} {as : Attachments ν τ} {a : Attachment ν}
  {kind : τ} {identity : Nat}

theorem after_concat (c : AttachmentCall) :
    as.after contents (calls ++ [c]) = ((as.after contents calls).call contents c).2 := by
  rw [after, List.foldl_append]
  rfl

theorem bucket_add :
    (as.add a).bucket kind = if kind = a.kind then as.bucket kind ++ [a] else as.bucket kind := by
  rw [bucket, add, lookup_indexAdd]
  split <;> rfl

private theorem scan_add :
    (as.add a).scan kind = if kind = a.kind then as.scan kind ++ [a] else as.scan kind := by
  rw [scan, add, List.filter_append]
  by_cases h : kind = a.kind
  · simp [scan, h]
  · simp [scan, h, Ne.symm h]

private theorem indexed_empty : Indexed contents [] ({} : Attachments ν τ) where
  held _ ha := nomatch ha
  tidy := ⟨List.nodup_nil, fun _ he => nomatch he⟩
  bucket_eq _ := rfl

private theorem Indexed.kind_eq (h : Indexed contents calls as) (ha : a ∈ as.ordered) :
    a.kind = (Attachment.of contents a.identity).kind := congrArg Attachment.kind (h.held a ha)

private theorem Indexed.mem_scan (h : Indexed contents calls as) (ha : a ∈ as.scan kind)
    (hid : a.identity = identity) : kind = (Attachment.of contents identity).kind := by
  obtain ⟨hmem, hkind⟩ := List.mem_filter.1 ha
  rw [← hid, ← h.kind_eq hmem]
  exact (of_decide_eq_true hkind).symm

private theorem Indexed.add (h : Indexed contents calls as) (identity : Nat) :
    Indexed contents (calls ++ [.add identity]) (as.add (.of contents identity)) where
  held a ha := by
    rcases List.mem_append.1 ha with ha | ha
    · exact h.held a ha
    · rw [List.mem_singleton.1 ha]
      rfl
  tidy := h.tidy.indexAdd
  bucket_eq kind := by
    have hother : ∀ i, i ≠ identity →
        addedSinceRemoval (calls ++ [.add identity]) i = addedSinceRemoval calls i := fun i hi => by
      rw [addedSinceRemoval_add, if_neg hi, Nat.add_zero]
    rw [bucket_add, scan_add]
    by_cases hkind : kind = (Attachment.of contents identity).kind
    · rw [if_pos hkind, if_pos hkind, h.bucket_eq]
      refine (lastPlaces_concat ?_ hother).symm
      rw [addedSinceRemoval_add]
      exact congrArg _ (if_pos rfl)
    · rw [if_neg hkind, if_neg hkind, h.bucket_eq]
      refine lastPlaces_congr fun a ha => (hother a.identity fun hid => ?_).symm
      exact hkind (h.mem_scan ha hid)

private theorem remove_eq (as : Attachments ν τ) (a : Attachment ν) :
    as.remove a =
      if placesOf a.identity as.ordered = 0 then (false, as)
      else (true,
        { ordered := as.ordered.eraseP fun b => b.isSame a
          byKind := indexRemove a as.byKind }) := by
  have hany : (as.ordered.any fun b => b.isSame a) = true ↔ placesOf a.identity as.ordered ≠ 0 := by
    rw [placesOf, Nat.ne_zero_iff_zero_lt, List.countP_pos_iff, List.any_eq_true]
    rfl
  rw [remove]
  by_cases h : placesOf a.identity as.ordered = 0
  · rw [if_pos h, if_neg fun ht => hany.1 ht h]
  · rw [if_neg h, if_pos (hany.2 h)]

private theorem Indexed.remove (h : Indexed contents calls as) (identity : Nat) :
    Indexed contents (calls ++ [.remove identity]) (as.remove (.of contents identity)).2 := by
  have hzero : addedSinceRemoval (calls ++ [.remove identity]) identity = 0 := by
    rw [addedSinceRemoval_remove, if_pos rfl]
  have hother : ∀ i, i ≠ identity →
      addedSinceRemoval (calls ++ [.remove identity]) i = addedSinceRemoval calls i := by
    intro i hi
    rw [addedSinceRemoval_remove, if_neg hi]
  rw [remove_eq]
  split
  · rename_i habsent
    refine ⟨h.held, h.tidy, fun kind => ?_⟩
    rw [h.bucket_eq]
    refine lastPlaces_congr fun a ha => (hother a.identity fun hid => ?_).symm
    exact absurd (beq_iff_eq.2 hid) (List.countP_eq_zero.1 habsent a (List.mem_of_mem_filter ha))
  · refine ⟨fun a ha => h.held a (List.mem_of_mem_eraseP ha), h.tidy.indexRemove, fun kind => ?_⟩
    rw [bucket, h.tidy.lookup_indexRemove, ← bucket, h.bucket_eq]
    by_cases hkind : kind = (Attachment.of contents identity).kind
    · rw [if_pos hkind]
      refine (lastPlaces_filter hzero hother).trans ?_
      -- The first place of the object is one that is not looked at any more.
      rw [← lastPlaces_filter_self _ hzero, ← lastPlaces_filter_self (scan _ kind) hzero, scan,
        scan, List.filter_filter, List.filter_filter, filter_eraseP]
      intro a _ hsame
      have hid : a.identity = identity := beq_iff_eq.1 hsame
      simp [hid]
    · rw [if_neg hkind, scan, scan, filter_eraseP]
      · refine lastPlaces_congr fun a ha => (hother a.identity fun hid => ?_).symm
        exact hkind (h.mem_scan ha hid)
      · intro a ha hsame
        have hid : a.identity = identity := beq_iff_eq.1 hsame
        rw [h.kind_eq ha, hid]
        exact decide_eq_false (Ne.symm hkind)

theorem Indexed.after {past : List AttachmentCall} (h : Indexed contents past as)
    (calls : List AttachmentCall) :
    Indexed contents (past ++ calls) (as.after contents calls) := by
  induction calls generalizing as past with
  | nil => rwa [List.append_nil]
  | cons c calls ih =>
    rw [List.append_cons]
    cases c with
    | add identity => exact ih (h.add identity)
    | remove identity => exact ih (h.remove identity)

/-- Attachments behind any calls. -/
theorem indexed_after (contents : Nat → ν) (calls : List AttachmentCall) :
    Indexed contents calls (({} : Attachments ν τ).after contents calls) :=
  indexed_empty.after calls

theorem Indexed.has_eq (h : Indexed contents calls as) (kind : τ) :
    as.has kind = true ↔ as.bucket kind ≠ [] := by
  unfold has bucket
  cases hlookup : as.byKind.lookup kind with
  | none => simp
  | some places =>
    obtain ⟨before, behind, hentries, -⟩ := List.lookup_eq_some_iff.1 hlookup
    have hne := h.tidy.ne_nil (kind, places) (hentries ▸ List.mem_append_right _ List.mem_cons_self)
    simpa using hne

theorem Indexed.eq_empty (h : Indexed contents calls as) (hempty : as.isEmpty = true) :
    as = {} := by
  obtain ⟨ordered, byKind⟩ := as
  have hordered : ordered = [] := List.isEmpty_iff.1 hempty
  subst hordered
  cases byKind with
  | nil => rfl
  | cons entry rest =>
    obtain ⟨kind, places⟩ := entry
    have hbucket := h.bucket_eq kind
    simp only [bucket, List.lookup_cons_self, Option.getD_some] at hbucket
    exact absurd hbucket (h.tidy.ne_nil _ List.mem_cons_self)

/-- An object that is added where it is not attached and then removed leaves all as it was. -/
theorem Indexed.remove_add (h : Indexed contents calls as)
    (hnew : ∀ a ∈ as.ordered, a.identity ≠ identity) :
    (as.add (.of contents identity)).remove (.of contents identity) = (true, as) := by
  have hsame : ∀ a ∈ as.ordered, a.isSame (.of contents identity) = false := fun a ha =>
    beq_false_of_ne (hnew a ha)
  have hself : (Attachment.of contents identity).isSame (.of contents identity) = true :=
    beq_self_eq_true identity
  have hindex : ∀ a ∈ as.bucket (Attachment.of contents identity).kind,
      a.isSame (.of contents identity) = false := fun a ha => by
    rw [h.bucket_eq] at ha
    exact hsame a (List.mem_of_mem_filter (lastPlaces_sublist.subset ha))
  have hordered : (as.ordered ++ [Attachment.of contents identity]).eraseP
      (fun a => a.isSame (.of contents identity)) = as.ordered := by
    rw [List.eraseP_append_right _ fun a ha => by simp [hsame a ha]]
    simp [hself]
  have hany : ((as.add (.of contents identity)).ordered.any fun a =>
      a.isSame (.of contents identity)) = true := by
    rw [List.any_eq_true]
    exact ⟨_, List.mem_append_right _ (List.mem_singleton_self _), hself⟩
  rw [Attachments.remove, if_pos hany]
  simp only [Attachments.add, hordered, h.tidy.indexRemove_indexAdd hindex]

theorem remove_absent (hnew : ∀ a ∈ as.ordered, a.identity ≠ identity) :
    as.remove (.of contents identity) = (false, as) := by
  rw [remove_eq, if_pos]
  exact List.countP_eq_zero.2 fun a ha hid => hnew a ha (beq_iff_eq.1 hid)

/-- What lookups by kind answer behind some calls, and when they answer what a scan finds. -/
structure LooksUp (as : Attachments ν τ) (calls : List AttachmentCall) : Prop where
  bucket_eq : ∀ kind, as.bucket kind = lastPlaces (addedSinceRemoval calls) (as.scan kind)
  all_eq_iff : ∀ kind, as.all kind = (as.scan kind).map Attachment.value ↔
    ∀ a ∈ as.scan kind, placesOf a.identity as.ordered ≤ addedSinceRemoval calls a.identity
  first?_eq : ∀ kind, as.all kind = (as.scan kind).map Attachment.value →
    as.first? kind = (as.scan kind).head?.map Attachment.value

private theorem Indexed.placesOf_scan (h : Indexed contents calls as) (ha : a ∈ as.scan kind) :
    placesOf a.identity (as.scan kind) = placesOf a.identity as.ordered := by
  rw [placesOf, scan, List.countP_filter]
  refine List.countP_congr fun b hb => ?_
  have hkind : b.identity = a.identity → b.kind = kind := fun hid => by
    rw [h.kind_eq hb, hid, ← h.mem_scan ha rfl]
  simpa using hkind

theorem Indexed.looksUp (h : Indexed contents calls as) : as.LooksUp calls where
  bucket_eq := h.bucket_eq
  all_eq_iff kind := by
    have hplaces : (∀ a ∈ as.scan kind,
        placesOf a.identity as.ordered ≤ addedSinceRemoval calls a.identity) ↔
        ∀ a ∈ as.scan kind,
          placesOf a.identity (as.scan kind) ≤ addedSinceRemoval calls a.identity :=
      forall₂_congr fun a ha => by rw [h.placesOf_scan ha]
    rw [hplaces, ← lastPlaces_eq_self_iff, all, h.bucket_eq]
    refine ⟨fun heq => lastPlaces_sublist.eq_of_length ?_, fun heq => by rw [heq]⟩
    simpa using congrArg List.length heq
  first?_eq kind heq := by
    rw [first?, ← List.head?_map, ← List.head?_map]
    exact congrArg List.head? heq

end Runs

end Attachments

end SourceModel
