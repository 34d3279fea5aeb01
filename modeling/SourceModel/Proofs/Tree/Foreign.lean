import SourceModel.Proofs.Tree.Nesting
import SourceModel.Tree.Problem

/-!
# Trees with sound foreign trees

Where no foreign tree has a problem, the problems of a tree are those of its own nodes.
-/

namespace SourceModel.Tree

mutual
def ForeignSound : Tree → Prop
  | .node _ children none => ForeignSoundAmong children
  | .node _ children (some foreign) => foreign.problems = [] ∧ ForeignSoundAmong children

def ForeignSoundAmong : List Tree → Prop
  | [] => True
  | t :: ts => t.ForeignSound ∧ ForeignSoundAmong ts
end

mutual
/-- Without problems in foreign trees there is one problem for each node in error. -/
theorem problems_eq : ∀ {t : Tree}, t.ForeignSound →
    t.problems = (t.datas.filter fun data => data.status.isError).map Problem.ofNode
  | .node data children none, h => by
    rw [problems, problemsAmong_eq (by simpa [ForeignSound] using h), datas_node, List.filter_cons]
    split <;> simp
  | .node data children (some foreign), h => by
    obtain ⟨hf, hc⟩ := (show foreign.problems = [] ∧ ForeignSoundAmong children from
      by simpa [ForeignSound] using h)
    rw [problems, problemsAmong_eq hc, hf, datas_node, List.filter_cons]
    split <;> simp

private theorem problemsAmong_eq : ∀ {ts : List Tree}, ForeignSoundAmong ts →
    problemsAmong ts = ((datasAmong ts).filter fun data => data.status.isError).map Problem.ofNode
  | [], _ => rfl
  | t :: ts, h => by
    obtain ⟨ht, hts⟩ := (show t.ForeignSound ∧ ForeignSoundAmong ts from
      by simpa [ForeignSoundAmong] using h)
    rw [problemsAmong, problems_eq ht, problemsAmong_eq hts, datasAmong_cons, List.filter_append,
      List.map_append]
end

section Modify

variable {f : Tree → Tree}

mutual
theorem ForeignSound.modify (hf : ∀ t, t.ForeignSound → (f t).ForeignSound) :
    ∀ (id : Nat) {t : Tree}, t.ForeignSound → (t.modify (fun above => above) f id).ForeignSound
  | 0, t, h => by
    rw [Tree.modify]
    exact hf t h
  | id + 1, .node data children none, h => by
    rw [ForeignSound] at h
    rw [Tree.modify, ForeignSound]
    exact ForeignSoundAmong.modifyAmong hf id h
  | id + 1, .node data children (some foreign), h => by
    rw [ForeignSound] at h
    rw [Tree.modify, ForeignSound]
    exact ⟨h.1, ForeignSoundAmong.modifyAmong hf id h.2⟩

private theorem ForeignSoundAmong.modifyAmong (hf : ∀ t, t.ForeignSound → (f t).ForeignSound) :
    ∀ (id : Nat) {ts : List Tree}, ForeignSoundAmong ts →
      ForeignSoundAmong (modifyAmong (fun above => above) f id ts)
  | _, [], _ => by simp [Tree.modifyAmong, ForeignSoundAmong]
  | id, t :: ts, h => by
    rw [ForeignSoundAmong] at h
    rw [Tree.modifyAmong]
    split
    · rw [ForeignSoundAmong]
      exact ⟨ForeignSound.modify hf id h.1, h.2⟩
    · rw [ForeignSoundAmong]
      exact ⟨h.1, ForeignSoundAmong.modifyAmong hf (id - t.size) h.2⟩
end

theorem ForeignSound.withForeign {foreign : Tree} (hf : foreign.problems = []) (t : Tree)
    (h : t.ForeignSound) : (t.withForeign (some foreign)).ForeignSound := by
  cases t with
  | node data children old =>
    rw [Tree.withForeign, ForeignSound]
    cases old with
    | none => exact ⟨hf, by simpa [ForeignSound] using h⟩
    | some old =>
      rw [ForeignSound] at h
      exact ⟨hf, h.2⟩

theorem ForeignSound.mapData (g : NodeData → NodeData) (t : Tree) (h : t.ForeignSound) :
    (t.mapData g).ForeignSound := by
  cases t with
  | node data children foreign =>
    cases foreign <;> simpa [Tree.mapData, ForeignSound] using h

end Modify

end SourceModel.Tree
