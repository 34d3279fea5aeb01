import SourceModel.Proofs.Tree.Numbering

/-!
# Nested regions

In a nested tree the children of a node lie one behind the other inside the region of the node. So
every subtree lies inside, and in pre-order the subtrees start in the order of the source.
-/

namespace SourceModel.Tree

mutual
/-- Whether the children of every node lie one behind the other inside it. -/
def Nested : Tree → Prop
  | .node data children _ => NestedIn data.region.offset data.region.stop children

/-- Whether trees are nested and lie one behind the other between two offsets. -/
def NestedIn (lo hi : Nat) : List Tree → Prop
  | [] => lo ≤ hi
  | t :: ts => lo ≤ t.region.offset ∧ t.Nested ∧ NestedIn t.region.stop hi ts
end

section Nested

variable {lo lo' hi hi' : Nat} {t u : Tree} {ts us : List Tree}

theorem nested_iff (t : Tree) : t.Nested ↔ NestedIn t.region.offset t.region.stop t.children := by
  cases t
  rfl

theorem nested_leaf (data : NodeData) : (leaf data).Nested := by
  simp only [leaf, Nested, NestedIn]
  exact data.region.offset_le_stop

theorem NestedIn.le (h : NestedIn lo hi ts) : lo ≤ hi := by
  induction ts generalizing lo with
  | nil => exact h
  | cons t ts ih =>
    have hs := t.region.offset_le_stop
    have hle := ih h.2.2
    have hlo := h.1
    omega

theorem NestedIn.mono (h : NestedIn lo hi ts) (hlo : lo' ≤ lo) (hhi : hi ≤ hi') :
    NestedIn lo' hi' ts := by
  induction ts generalizing lo lo' with
  | nil => exact Nat.le_trans hlo (Nat.le_trans h hhi)
  | cons t ts ih => exact ⟨Nat.le_trans hlo h.1, h.2.1, ih h.2.2 (Nat.le_refl _)⟩

theorem NestedIn.append {mid : Nat} (h : NestedIn lo mid ts) (h' : NestedIn mid hi us) :
    NestedIn lo hi (ts ++ us) := by
  induction ts generalizing lo with
  | nil => exact h'.mono h (Nat.le_refl _)
  | cons t ts ih => exact ⟨h.1, h.2.1, ih h.2.2⟩

theorem NestedIn.getLast?_stop_le (h : NestedIn lo hi ts) (hu : ts.getLast? = some u) :
    u.region.stop ≤ hi := by
  induction ts generalizing lo with
  | nil => cases hu
  | cons t ts ih =>
    cases ts with
    | nil =>
      simp only [List.getLast?_singleton, Option.some.injEq] at hu
      exact hu ▸ h.2.2
    | cons v ts => exact ih h.2.2 (by rwa [List.getLast?_cons_cons] at hu)

end Nested

section Preorder

def StartsBefore (t u : Tree) : Prop := t.region.offset ≤ u.region.offset

mutual
/-- The subtrees of a nested tree lie inside it and start in the order of the source. -/
theorem Nested.preorder : ∀ {t : Tree}, t.Nested →
    (∀ u ∈ t.preorder, t.region.offset ≤ u.region.offset ∧ u.region.stop ≤ t.region.stop) ∧
      t.preorder.Pairwise StartsBefore
  | .node data children foreign, h => by
    have hle : (Tree.node data children foreign).region.offset ≤ _ :=
      (Tree.node data children foreign).region.offset_le_stop
    obtain ⟨hin, hord⟩ := NestedIn.preorders ((nested_iff _).1 h)
    rw [Tree.preorder]
    refine ⟨?_, List.pairwise_cons.2 ⟨fun u hu => (hin u hu).1, hord⟩⟩
    intro u hu
    rcases List.mem_cons.1 hu with rfl | hu
    · exact ⟨Nat.le_refl _, Nat.le_refl _⟩
    · exact hin u hu

private theorem NestedIn.preorders : ∀ {lo hi : Nat} {ts : List Tree}, NestedIn lo hi ts →
    (∀ u ∈ Tree.preorders ts, lo ≤ u.region.offset ∧ u.region.stop ≤ hi) ∧
      (Tree.preorders ts).Pairwise StartsBefore
  | lo, hi, [], h => by simp [Tree.preorders]
  | lo, hi, t :: ts, h => by
    obtain ⟨hin, hord⟩ := Nested.preorder h.2.1
    obtain ⟨hin', hord'⟩ := NestedIn.preorders h.2.2
    have hstop := t.region.offset_le_stop
    have hhi := h.2.2.le
    have hlo := h.1
    rw [Tree.preorders]
    refine ⟨?_, List.pairwise_append.2 ⟨hord, hord', ?_⟩⟩
    · intro u hu
      rcases List.mem_append.1 hu with hu | hu
      · have := hin u hu
        omega
      · have := hin' u hu
        omega
    · intro u hu v hv
      have hu' := hin u hu
      have hv' := hin' v hv
      have := u.region.offset_le_stop
      exact Nat.le_trans (by omega) hv'.1
end

end Preorder

section Modify

variable {f : Tree → Tree} {g : NodeData → NodeData}

theorem region_modify (hf : ∀ t, (f t).region = t.region) (id : Nat) (t : Tree) :
    (t.modify (fun above => above) f id).region = t.region := by
  cases t with
  | node data children foreign =>
    cases id with
    | zero => exact hf _
    | succ id => rfl

mutual
/-- A change of one node that keeps its region and its children keeps a tree nested. -/
theorem Nested.modify (hc : ∀ t, (f t).children = t.children)
    (hf : ∀ t, (f t).region = t.region) : ∀ (id : Nat) {t : Tree}, t.Nested →
    (t.modify (fun above => above) f id).Nested
  | 0, .node data children foreign, h => by
    rw [Tree.modify, nested_iff, hc, hf]
    exact h
  | id + 1, .node data children foreign, h => by
    rw [Tree.modify]
    exact NestedIn.modifyAmong hc hf id h

private theorem NestedIn.modifyAmong (hc : ∀ t, (f t).children = t.children)
    (hf : ∀ t, (f t).region = t.region) : ∀ {lo hi : Nat} (id : Nat) {ts : List Tree},
    NestedIn lo hi ts → NestedIn lo hi (modifyAmong (fun above => above) f id ts)
  | lo, hi, _, [], h => by simpa [Tree.modifyAmong] using h
  | lo, hi, id, t :: ts, h => by
    rw [Tree.modifyAmong]
    split
    · refine ⟨?_, Nested.modify hc hf id h.2.1, ?_⟩
      · rw [region_modify hf]
        exact h.1
      · rw [region_modify hf]
        exact h.2.2
    · exact ⟨h.1, h.2.1, NestedIn.modifyAmong hc hf (id - t.size) h.2.2⟩
end

end Modify

end SourceModel.Tree
