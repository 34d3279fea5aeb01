import SourceModel.Proofs.Tree.Links
import SourceModel.Proofs.Tree.Nesting

/-!
# Arranged trees

What it means for the nodes of a syntax tree that its root is nested: by their numbers and their
links, every node lies inside the node above it and behind the children that come before it there.
-/

namespace SourceModel

namespace Tree

open Ast (Node)

section Nested

variable {lo hi id i j : Nat} {ancestors : List Nat} {t u : Tree} {ts : List Tree} {n : Node}

theorem NestedIn.mem (h : NestedIn lo hi ts) (ht : t ∈ ts) :
    lo ≤ t.region.offset ∧ t.region.stop ≤ hi ∧ t.Nested := by
  induction ts generalizing lo with
  | nil => cases ht
  | cons u ts ih =>
    rcases List.mem_cons.1 ht with rfl | ht
    · exact ⟨h.1, h.2.2.le, h.2.1⟩
    · obtain ⟨hlo, hhi, hn⟩ := ih h.2.2 ht
      have hu := u.region.offset_le_stop
      have hle := h.1
      exact ⟨by omega, hhi, hn⟩

theorem mem_of_mem_numbered (h : (i, t) ∈ numbered id ts) : t ∈ ts := by
  rw [← map_snd_numbered id ts]
  exact List.mem_map_of_mem (f := Prod.snd) h

theorem NestedIn.stop_le_offset (h : NestedIn lo hi ts) (ht : (i, t) ∈ numbered id ts)
    (hu : (j, u) ∈ numbered id ts) (hlt : i < j) : t.region.stop ≤ u.region.offset := by
  induction ts generalizing lo id with
  | nil => cases ht
  | cons v ts ih =>
    have hlater : ∀ {k w}, (k, w) ∈ numbered (id + v.size) ts → id < k := fun hw =>
      Nat.lt_of_lt_of_le (Nat.lt_add_of_pos_right v.size_pos) (le_of_mem_numbered hw)
    rcases List.mem_cons.1 ht with ht | ht <;> rcases List.mem_cons.1 hu with hu | hu
    · cases ht
      cases hu
      exact absurd hlt (Nat.lt_irrefl _)
    · cases ht
      exact (h.2.2.mem (mem_of_mem_numbered hu)).1
    · cases hu
      exact absurd hlt (Nat.not_lt_of_gt (hlater ht))
    · exact ih h.2.2 ht hu

mutual
theorem Nested.of_mem_nodesFrom : ∀ {id : Nat} {ancestors : List Nat} {t : Tree} {n : Node},
    t.Nested → n ∈ t.nodesFrom id ancestors → n.tree.Nested
  | id, ancestors, .node data children foreign, n, h, hn => by
    rw [nodesFrom] at hn
    rcases List.mem_cons.1 hn with rfl | hn
    · exact h
    · exact NestedIn.of_mem_nodesAmong ((nested_iff _).1 h) hn

private theorem NestedIn.of_mem_nodesAmong :
    ∀ {lo hi id : Nat} {ancestors : List Nat} {ts : List Tree}
    {n : Node}, NestedIn lo hi ts → n ∈ nodesAmong id ancestors ts → n.tree.Nested
  | lo, hi, id, ancestors, t :: ts, n, h, hn => by
    rw [nodesAmong] at hn
    rcases List.mem_append.1 hn with hn | hn
    · exact Nested.of_mem_nodesFrom h.2.1 hn
    · exact NestedIn.of_mem_nodesAmong h.2.2 hn
end

end Nested

end Tree

namespace Ast

/-- The links and the regions of the nodes fit together. The pre-order visits the numbers from zero
on; a node other than the root is once among the children of the node above it and no child of any
other node; it lies inside the node above it and behind the children before it there; and no bound
of a region is the marker. -/
structure Arranged (ast : Ast) : Prop where
  ids : ast.nodes.map Node.id = List.range ast.size
  root : ∀ n ∈ ast.nodes, n.id = 0 →
    n.parent? = none ∧ ∀ q ∈ ast.nodes, q.childIds.count n.id = 0
  child : ∀ n ∈ ast.nodes, n.id ≠ 0 → ∃ p ∈ ast.nodes, n.parent? = some p.id ∧
    ∀ q ∈ ast.nodes, q.childIds.count n.id = if q.id = p.id then 1 else 0
  ascending : ∀ p ∈ ast.nodes, p.childIds.Pairwise (· < ·)
  within : ∀ p ∈ ast.nodes, ∀ n ∈ ast.nodes, n.parent? = some p.id →
    p.tree.region.offset ≤ n.tree.region.offset ∧ n.tree.region.stop ≤ p.tree.region.stop
  apart : ∀ m ∈ ast.nodes, ∀ n ∈ ast.nodes, m.parent? = n.parent? → m.id < n.id →
    m.id ≠ 0 → m.tree.region.stop ≤ n.tree.region.offset
  available : ∀ n ∈ ast.nodes,
    n.tree.region.offset ≠ naOffset ∧ n.tree.region.stop ≠ naOffset

variable {ast : Ast} {n p : Node}

private theorem childOf_of_parent? (hn : n ∈ ast.nodes) (hp : p ∈ ast.nodes)
    (h : n.parent? = some p.id) : n.ChildOf p := by
  rcases Tree.mem_nodesFrom hn with rfl | ⟨q, hq, hc⟩
  · cases h
  · rw [hc.parent?_eq, Option.some.injEq] at h
    exact eq_of_id_eq hq hp h ▸ hc

theorem arranged (h : ast.root.Nested) : ast.Arranged where
  ids := map_id_nodes ast
  root n hn h0 := by
    refine ⟨?_, fun q _ => ?_⟩
    · rw [eq_of_id_eq hn (rootNode_mem ast) h0]
      rfl
    · rw [h0]
      exact List.count_eq_zero_of_not_mem (zero_notMem_childIds q)
  child n hn h0 := by
    obtain ⟨p, hp, hc⟩ := exists_childOf hn h0
    exact ⟨p, hp, hc.parent?_eq, fun q hq => count_childIds hn hp hq hc⟩
  ascending p _ := Tree.pairwise_numbered ..
  within p hp n hn hparent := by
    have hc := childOf_of_parent? hn hp hparent
    have hnested := (Tree.nested_iff _).1 (h.of_mem_nodesFrom hp)
    obtain ⟨hlo, hhi, -⟩ := hnested.mem (Tree.mem_of_mem_numbered hc.mem)
    exact ⟨hlo, hhi⟩
  apart m hm n hn hparent hlt h0 := by
    obtain ⟨p, hp, hc⟩ := exists_childOf hm h0
    rw [hc.parent?_eq] at hparent
    have hc' := childOf_of_parent? hn hp hparent.symm
    exact ((Tree.nested_iff _).1 (h.of_mem_nodesFrom hp)).stop_le_offset hc.mem hc'.mem hlt
  available n _ := by
    have hle := n.tree.region.offset_le_stop
    have hlt := n.tree.region.stop_lt_naOffset
    exact ⟨by omega, by omega⟩

end Ast

end SourceModel
