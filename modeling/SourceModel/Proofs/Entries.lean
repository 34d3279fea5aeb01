import Mathlib.Data.List.Basic

/-!
# Tables of entries

A table is a list of values with their keys, of which the first one of a key counts. An entry put
in front decides for its own key and for no other one.
-/

namespace SourceModel

section Entries

variable {κ ν : Type} [BEq κ] [LawfulBEq κ] [DecidableEq κ] {key other : κ} {value : ν}
  {entries : List (κ × ν)}

theorem lookup_entry :
    ((key, value) :: entries).lookup other =
      if other = key then some value else entries.lookup other := by
  by_cases h : other = key
  · simp [h]
  · have hne : (other == key) = false := beq_false_of_ne h
    simp [List.lookup_cons, h, hne]

theorem mem_of_lookup (h : entries.lookup key = some value) : (key, value) ∈ entries := by
  induction entries with
  | nil => cases h
  | cons entry rest ih =>
    obtain ⟨first, found⟩ := entry
    rw [lookup_entry] at h
    split at h
    · rename_i hfirst
      cases h
      rw [hfirst]
      exact List.mem_cons_self
    · exact List.mem_cons_of_mem _ (ih h)

theorem lookup_of_mem (hn : (entries.map Prod.fst).Nodup) (h : (key, value) ∈ entries) :
    entries.lookup key = some value := by
  induction entries with
  | nil => cases h
  | cons entry rest ih =>
    obtain ⟨first, found⟩ := entry
    obtain ⟨hfirst, hrest⟩ := List.nodup_cons.1 hn
    rw [lookup_entry]
    rcases List.mem_cons.1 h with heq | hmem
    · cases heq
      rw [if_pos rfl]
    · have hne : key ≠ first := by
        rintro rfl
        exact hfirst (List.mem_map.2 ⟨_, hmem, rfl⟩)
      rw [if_neg hne, ih hrest hmem]

theorem lookup_reverse (hn : (entries.map Prod.fst).Nodup) :
    entries.reverse.lookup other = entries.lookup other := by
  have hreverse : (entries.reverse.map Prod.fst).Nodup := by
    rw [List.map_reverse]
    exact List.pairwise_reverse.2 (hn.imp Ne.symm)
  cases hl : entries.lookup other with
  | some value => exact lookup_of_mem hreverse (List.mem_reverse.2 (mem_of_lookup hl))
  | none =>
    cases hr : entries.reverse.lookup other with
    | none => rfl
    | some value =>
      rw [lookup_of_mem hn (List.mem_reverse.1 (mem_of_lookup hr))] at hl
      cases hl

theorem lookup_filter_ne (h : other ≠ key) :
    (entries.filter fun entry => entry.1 != key).lookup other = entries.lookup other := by
  induction entries with
  | nil => rfl
  | cons entry rest ih =>
    obtain ⟨first, value⟩ := entry
    by_cases hfirst : first = key
    · subst hfirst
      simp [lookup_entry, h, ih]
    · simp [hfirst, lookup_entry, ih]

theorem lookup_replace :
    ((key, value) :: entries.filter fun entry => entry.1 != key).lookup other =
      if other = key then some value else entries.lookup other := by
  rw [lookup_entry]
  by_cases h : other = key
  · rw [if_pos h, if_pos h]
  · rw [if_neg h, if_neg h, lookup_filter_ne h]

end Entries

end SourceModel
