import SourceModel.Attachment.Table
import SourceModel.Proofs.Attachment.Index

/-!
# Attachments of many owners

A table acts on each of its owners as on a list of attachments of its own: whatever is attached to
other owners and taken off them, an owner has and answers what it would have and answer alone. An
owner without attachments leaves no entry behind, and taking off what has just been attached leaves
the table as it was.
-/

namespace SourceModel

namespace AttachmentTable

/-! ## Entries -/

section Entries

variable {κ ν τ : Type} [DecidableEq κ] {table : AttachmentTable κ ν τ} {key other : κ}
  {as bs : Attachments ν τ}

structure Tidy (table : AttachmentTable κ ν τ) : Prop where
  nodup : (table.entries.map Prod.fst).Nodup
  isEmpty : ∀ entry ∈ table.entries, entry.2.isEmpty = false

private theorem lookup_isSome_iff {entries : List (κ × Attachments ν τ)} :
    (entries.lookup key).isSome = true ↔ (entries.any fun entry => entry.1 == key) = true := by
  induction entries with
  | nil => simp
  | cons entry rest ih =>
    obtain ⟨first, as⟩ := entry
    rw [lookup_entry, List.any_cons, Bool.or_eq_true, ← ih]
    by_cases h : key = first
    · simp [h]
    · simp [h, Ne.symm h]

private theorem lookup_eq_none_of_any {entries : List (κ × Attachments ν τ)}
    (h : ¬ (entries.any fun entry => entry.1 == key) = true) : entries.lookup key = none := by
  rw [← Option.not_isSome_iff_eq_none, lookup_isSome_iff]
  exact h

private theorem lookup_map_replace {entries : List (κ × Attachments ν τ)} :
    (entries.map fun entry => if entry.1 == key then (entry.1, as) else entry).lookup other =
      if other = key then (entries.lookup key).map fun _ => as else entries.lookup other := by
  induction entries with
  | nil => simp
  | cons entry rest ih =>
    obtain ⟨first, bs⟩ := entry
    by_cases hfirst : first = key
    · subst hfirst
      simp only [List.map_cons, beq_self_eq_true, if_true, lookup_entry, ih]
      split <;> rfl
    · have hne : (first == key) = false := beq_false_of_ne hfirst
      simp only [List.map_cons, hne, Bool.false_eq_true, if_false, lookup_entry, ih,
        if_neg (Ne.symm hfirst)]
      by_cases hother : other = key
      · simp [hother, Ne.symm hfirst]
      · simp [hother]

private theorem owned_put :
    (table.put key as).owned other =
      if other = key then (if as.isEmpty then {} else as) else table.owned other := by
  unfold put owned
  by_cases hempty : as.isEmpty = true
  · rw [if_pos hempty, if_pos hempty]
    by_cases hother : other = key
    · have hnone : (table.entries.filter fun entry => !(entry.1 == key)).lookup key = none := by
        rw [List.lookup_eq_none_iff]
        intro entry hentry
        have hne := (List.mem_filter.1 hentry).2
        rw [Bool.not_eq_true', beq_eq_false_iff_ne] at hne
        exact bne_iff_ne.2 (Ne.symm hne)
      rw [if_pos hother, hother]
      simp only [hnone, Option.getD_none]
    · rw [if_neg hother]
      exact congrArg (Option.getD · _) (lookup_filter_ne hother)
  · rw [if_neg hempty, if_neg hempty]
    split
    · rename_i hany
      obtain ⟨bs, hbs⟩ := Option.isSome_iff_exists.1 (lookup_isSome_iff.2 hany)
      rw [lookup_map_replace]
      split
      · simp [hbs]
      · rfl
    · rename_i hany
      have hnone := lookup_eq_none_of_any hany
      rw [List.lookup_append, lookup_entry]
      by_cases hother : other = key
      · simp [hother, hnone]
      · simp [hother]

private theorem Tidy.put (h : table.Tidy) : (table.put key as).Tidy := by
  unfold AttachmentTable.put
  by_cases hempty : as.isEmpty = true
  · rw [if_pos hempty]
    have hsub := List.filter_sublist (p := fun entry => !(entry.1 == key)) (l := table.entries)
    exact ⟨h.nodup.sublist (hsub.map _), fun entry he => h.isEmpty entry (hsub.subset he)⟩
  have has : as.isEmpty = false := eq_false_of_ne_true hempty
  rw [if_neg hempty]
  split
  · have hkeys : (table.entries.map fun entry =>
        if entry.1 == key then (entry.1, as) else entry).map Prod.fst =
          table.entries.map Prod.fst := by
      rw [List.map_map]
      refine List.map_congr_left fun entry _ => ?_
      simp only [Function.comp_apply]
      split <;> rfl
    refine ⟨hkeys ▸ h.nodup, fun entry he => ?_⟩
    obtain ⟨old, hold, rfl⟩ := List.mem_map.1 he
    split
    · exact has
    · exact h.isEmpty old hold
  · rename_i hany
    refine ⟨?_, fun entry he => ?_⟩
    · rw [List.map_append, List.nodup_append]
      refine ⟨h.nodup, List.nodup_singleton _, ?_⟩
      rintro _ hmem _ hnew rfl
      obtain ⟨entry, he, rfl⟩ := List.mem_map.1 hmem
      refine hany (List.any_eq_true.2 ⟨entry, he, ?_⟩)
      rw [List.map_singleton, List.mem_singleton] at hnew
      exact beq_iff_eq.2 hnew
    · rcases List.mem_append.1 he with he | he
      · exact h.isEmpty entry he
      · rw [List.mem_singleton.1 he]
        exact has

private theorem Tidy.owned_of_mem {entry : κ × Attachments ν τ} (h : table.Tidy)
    (he : entry ∈ table.entries) : table.owned entry.1 = entry.2 := by
  obtain ⟨before, behind, hentries⟩ := List.append_of_mem he
  have hnodup := h.nodup
  rw [hentries, List.map_append, List.map_cons, List.nodup_append] at hnodup
  have hbefore : ∀ other ∈ before, (entry.1 != other.1) = true := fun other hother =>
    bne_iff_ne.2 (hnodup.2.2 _ (List.mem_map_of_mem hother) _ List.mem_cons_self).symm
  have hlookup : table.entries.lookup entry.1 = some entry.2 :=
    List.lookup_eq_some_iff.2 ⟨before, behind, hentries, hbefore⟩
  rw [owned, hlookup, Option.getD_some]

private theorem Tidy.put_owned (h : table.Tidy) : table.put key (table.owned key) = table := by
  obtain ⟨entries⟩ := table
  unfold AttachmentTable.put
  by_cases hany : (entries.any fun entry => entry.1 == key) = true
  · obtain ⟨entry, he, hkey⟩ := List.any_eq_true.1 hany
    have howned := h.owned_of_mem he
    rw [beq_iff_eq.1 hkey] at howned
    rw [howned, h.isEmpty entry he, if_neg Bool.false_ne_true, if_pos hany]
    congr 1
    refine (List.map_congr_left fun other hother => ?_).trans (List.map_id entries)
    split
    · rename_i hsame
      rw [← howned, ← beq_iff_eq.1 hsame, h.owned_of_mem hother, id]
    · rfl
  · have howned : owned ⟨entries⟩ key = ({} : Attachments ν τ) := by
      rw [owned, lookup_eq_none_of_any hany, Option.getD_none]
    have hempty : (owned ⟨entries⟩ key : Attachments ν τ).isEmpty = true := by
      rw [howned]
      rfl
    rw [if_pos hempty]
    congr 1
    refine List.filter_eq_self.2 fun entry he => ?_
    rw [Bool.not_eq_true']
    exact eq_false_of_ne_true fun hkey => hany (List.any_eq_true.2 ⟨entry, he, hkey⟩)

end Entries

/-! ## Runs -/

section Runs

variable {κ ν τ : Type} [DecidableEq κ] [DecidableEq τ] [Kinded ν τ] (contents : Nat → ν)

def call (table : AttachmentTable κ ν τ) (key : κ) :
    AttachmentCall → Option Bool × AttachmentTable κ ν τ
  | .add identity => (none, table.add key (.of contents identity))
  | .remove identity =>
    (some (table.remove key (.of contents identity)).1,
      (table.remove key (.of contents identity)).2)

def after (table : AttachmentTable κ ν τ) (calls : List (κ × AttachmentCall)) :
    AttachmentTable κ ν τ :=
  calls.foldl (fun table c => (table.call contents c.1 c.2).2) table

def answers (table : AttachmentTable κ ν τ) : List (κ × AttachmentCall) → List (κ × Bool)
  | [] => []
  | c :: calls =>
    (table.call contents c.1 c.2).1.toList.map (Prod.mk c.1) ++
      (table.call contents c.1 c.2).2.answers calls

def ofOwner {α : Type} (key : κ) (entries : List (κ × α)) : List α :=
  (entries.filter fun entry => entry.1 = key).map Prod.snd

structure Separates (calls : List (κ × AttachmentCall)) (table : AttachmentTable κ ν τ) :
    Prop where
  tidy : table.Tidy
  owned_eq : ∀ key,
    table.owned key = ({} : Attachments ν τ).after contents (ofOwner key calls)

variable {contents} {table : AttachmentTable κ ν τ} {past : List (κ × AttachmentCall)}
  {key other : κ} {kind : τ} {identity : Nat}

private theorem call_eq (c : AttachmentCall) :
    table.call contents key c =
      (((table.owned key).call contents c).1,
        table.put key ((table.owned key).call contents c).2) := by
  cases c <;> rfl

private theorem ofOwner_concat {α : Type} {entries : List (κ × α)} {a : α} :
    ofOwner other (entries ++ [(key, a)]) =
      ofOwner other entries ++ if key = other then [a] else [] := by
  rw [ofOwner, List.filter_append, List.map_append, ofOwner]
  by_cases h : key = other <;> simp [h]

private theorem separates_empty : Separates contents [] ({} : AttachmentTable κ ν τ) where
  tidy := ⟨List.nodup_nil, fun _ he => nomatch he⟩
  owned_eq _ := rfl

private theorem Separates.indexed (h : Separates contents past table) (key : κ) :
    Attachments.Indexed contents (ofOwner key past) (table.owned key) := by
  rw [h.owned_eq]
  exact Attachments.indexed_after contents _

private theorem Separates.owned_call (h : Separates contents past table) (key : κ)
    (c : AttachmentCall) :
    (table.call contents key c).2.owned other =
      if other = key then ((table.owned key).call contents c).2 else table.owned other := by
  have hnext : Attachments.Indexed contents (ofOwner key past ++ [c])
      ((table.owned key).call contents c).2 := (h.indexed key).after [c]
  rw [call_eq, owned_put]
  by_cases hother : other = key
  · rw [if_pos hother, if_pos hother]
    split
    · rename_i hempty
      exact (hnext.eq_empty hempty).symm
    · rfl
  · rw [if_neg hother, if_neg hother]

private theorem Separates.call (h : Separates contents past table) (key : κ) (c : AttachmentCall) :
    Separates contents (past ++ [(key, c)]) (table.call contents key c).2 where
  tidy := by
    rw [call_eq]
    exact h.tidy.put
  owned_eq other := by
    rw [h.owned_call, ofOwner_concat]
    by_cases hother : other = key
    · rw [if_pos hother, if_pos hother.symm, Attachments.after_concat, hother, h.owned_eq]
    · rw [if_neg hother, if_neg (Ne.symm hother), List.append_nil, h.owned_eq]

private theorem Separates.after (h : Separates contents past table)
    (calls : List (κ × AttachmentCall)) :
    Separates contents (past ++ calls) (table.after contents calls) := by
  induction calls generalizing table past with
  | nil => rwa [List.append_nil]
  | cons c calls ih =>
    rw [List.append_cons]
    exact ih (h.call c.1 c.2)

/-- A table behind any calls. -/
theorem separates_after (contents : Nat → ν) (calls : List (κ × AttachmentCall)) :
    Separates contents calls (({} : AttachmentTable κ ν τ).after contents calls) :=
  separates_empty.after calls

private theorem Separates.answers (h : Separates contents past table) (key : κ)
    (calls : List (κ × AttachmentCall)) :
    ofOwner key (table.answers contents calls) =
      (table.owned key).answers contents (ofOwner key calls) := by
  induction calls generalizing table past with
  | nil => rfl
  | cons c calls ih =>
    obtain ⟨owner, c⟩ := c
    have hrest := ih (h.call owner c)
    rw [h.owned_call] at hrest
    have hanswer : (table.call contents owner c).1 = ((table.owned owner).call contents c).1 := by
      rw [call_eq]
    by_cases howner : owner = key
    · subst howner
      rw [if_pos rfl] at hrest
      have hcalls : ofOwner owner ((owner, c) :: calls) = c :: ofOwner owner calls := by
        simp [ofOwner]
      rw [hcalls, Attachments.answers, ← hrest, ← hanswer, AttachmentTable.answers]
      simp [ofOwner, List.filter_map, Function.comp_def]
    · rw [if_neg (Ne.symm howner)] at hrest
      have hcalls : ofOwner key ((owner, c) :: calls) = ofOwner key calls := by
        simp [ofOwner, howner]
      rw [hcalls, ← hrest, AttachmentTable.answers]
      simp [ofOwner, List.filter_map, Function.comp_def, howner]

private theorem Separates.mem_keysWith (h : Separates contents past table) :
    key ∈ table.keysWith kind ↔ (table.owned key).all kind ≠ [] := by
  rw [Attachments.all, ne_eq, List.map_eq_nil_iff, ← ne_eq, ← (h.indexed key).has_eq, keysWith,
    List.mem_map]
  constructor
  · rintro ⟨entry, he, rfl⟩
    obtain ⟨hmem, hhas⟩ := List.mem_filter.1 he
    rwa [h.tidy.owned_of_mem hmem]
  · intro hhas
    cases hlookup : table.entries.lookup key with
    | none =>
      rw [owned, hlookup] at hhas
      cases hhas
    | some as =>
      obtain ⟨before, behind, hentries, -⟩ := List.lookup_eq_some_iff.1 hlookup
      rw [owned, hlookup, Option.getD_some] at hhas
      refine ⟨(key, as), List.mem_filter.2 ⟨?_, hhas⟩, rfl⟩
      exact hentries ▸ List.mem_append_right _ List.mem_cons_self

private theorem Separates.nodup_keysWith (h : Separates contents past table) :
    (table.keysWith kind).Nodup :=
  h.tidy.nodup.sublist (List.filter_sublist.map _)

private theorem Separates.remove_absent (h : Separates contents past table)
    (hnew : ∀ a ∈ (table.owned key).ordered, a.identity ≠ identity) :
    table.remove key (.of contents identity) = (false, table) := by
  rw [remove, Attachments.remove_absent hnew]
  exact Prod.ext rfl h.tidy.put_owned

private theorem Separates.remove_add (h : Separates contents past table)
    (hnew : ∀ a ∈ (table.owned key).ordered, a.identity ≠ identity) :
    let a := Attachment.of contents identity
    let removal := (table.add key a).remove key a
    removal.1 = true ∧ (∀ other, removal.2.owned other = table.owned other) ∧
      removal.2.remove key a = (false, removal.2) := by
  intro a removal
  have hadded := h.call key (.add identity)
  have hremoved := hadded.call key (.remove identity)
  have howned : ∀ other, (table.add key a).owned other =
      if other = key then (table.owned key).add a else table.owned other := fun other =>
    h.owned_call key (.add identity)
  have hundone : ((table.add key a).owned key).remove a = (true, table.owned key) := by
    rw [howned, if_pos rfl]
    exact (h.indexed key).remove_add hnew
  have hrestored : ∀ other, removal.2.owned other = table.owned other := by
    intro other
    have hcall : removal.2.owned other =
        if other = key then (((table.add key a).owned key).remove a).2
        else (table.add key a).owned other := hadded.owned_call key (.remove identity)
    rw [hcall, hundone, howned]
    by_cases hother : other = key
    · rw [if_pos hother, hother]
    · rw [if_neg hother, if_neg hother]
  refine ⟨congrArg Prod.fst hundone, hrestored, hremoved.remove_absent ?_⟩
  exact fun b hb => hnew b (hrestored key ▸ hb)

/-- After any additions and removals for any owners, each owner has what it would have if only the
calls for it had been made to a list, so that every lookup at it is that of the list, and the
removals at it have answered the same. The owners of an object of a kind are those at which a lookup
of that kind finds something, each listed once. Where an object is not attached, adding it and
removing it again leaves what every owner has as it was, and one more removal answers that the
object is not there and changes nothing. -/
theorem independent_after (contents : Nat → ν) (calls : List (κ × AttachmentCall)) :
    let table := ({} : AttachmentTable κ ν τ).after contents calls
    (∀ key, table.owned key = ({} : Attachments ν τ).after contents (ofOwner key calls) ∧
      ofOwner key (({} : AttachmentTable κ ν τ).answers contents calls) =
        ({} : Attachments ν τ).answers contents (ofOwner key calls)) ∧
    (∀ kind, (table.keysWith kind).Nodup ∧
      ∀ key, key ∈ table.keysWith kind ↔ (table.owned key).all kind ≠ []) ∧
    ∀ key identity, (∀ a ∈ (table.owned key).ordered, a.identity ≠ identity) →
      let a := Attachment.of contents identity
      let removal := (table.add key a).remove key a
      removal.1 = true ∧ (∀ other, removal.2.owned other = table.owned other) ∧
        removal.2.remove key a = (false, removal.2) := by
  intro table
  have h : Separates contents calls table := separates_after contents calls
  have halone : ∀ key, ofOwner key (({} : AttachmentTable κ ν τ).answers contents calls) =
      ({} : Attachments ν τ).answers contents (ofOwner key calls) := fun key =>
    separates_empty.answers key calls
  exact ⟨fun key => ⟨h.owned_eq key, halone key⟩,
    fun kind => ⟨h.nodup_keysWith, fun key => h.mem_keysWith⟩, fun key identity => h.remove_add⟩

/-- Calls for two owners that share an object, which one of them has been given twice and has then
removed once. -/
def sharedCalls : List (Nat × AttachmentCall) :=
  [(1, .add 0), (1, .add 0), (2, .add 0), (1, .remove 0), (2, .add 3)]

/-- The first owner has nothing of the kind of the object that it has once more. -/
theorem independent_after_shared :
    let contents : Nat → AttachmentValue := fun identity => .number identity
    let table := ({} : AttachmentTable Nat).after contents sharedCalls
    let removal := (table.add 1 (.of contents 3)).remove 1 (.of contents 3)
    (∀ a ∈ (table.owned 1).ordered, a.identity ≠ 3) ∧ removal.1 = true ∧
      (∀ other, removal.2.owned other = table.owned other) ∧
      removal.2.remove 1 (.of contents 3) = (false, removal.2) ∧
      (table.owned 1).ordered = [.of contents 0] ∧ table.keysWith .number = [2] := by
  intro contents table removal
  have hnew : ∀ a ∈ (table.owned 1).ordered, a.identity ≠ 3 := by decide
  obtain ⟨hremoved, hrestored, hagain⟩ := (independent_after contents sharedCalls).2.2 1 3 hnew
  exact ⟨hnew, hremoved, hrestored, hagain, by decide, by decide⟩

/-- Behind any calls, to a list as for each owner of a table, the index holds the last places of
each object, as many as it has been given since it was last removed. All that a lookup finds of a
kind is what a scan of the list finds just if the objects of that kind have no further places; then
also the first one is the same. -/
theorem looksUp_after (contents : Nat → ν) :
    (∀ calls, (({} : Attachments ν τ).after contents calls).LooksUp calls) ∧
      ∀ (calls : List (κ × AttachmentCall)) (key : κ),
        ((({} : AttachmentTable κ ν τ).after contents calls).owned key).LooksUp
          (ofOwner key calls) :=
  ⟨fun calls => (Attachments.indexed_after contents calls).looksUp,
    fun calls key => ((separates_after contents calls).indexed key).looksUp⟩

/-- An object that has been added twice and removed once is in the list and not in the index. -/
theorem lookup_reattached :
    let as := ({} : Attachments).after (fun _ => .text "hint") [.add 0, .add 0, .remove 0]
    (as.scan .text).map Attachment.value = [.text "hint"] ∧ as.all .text = [] ∧
      as.first? .text = none := by decide

end Runs

end AttachmentTable

end SourceModel
