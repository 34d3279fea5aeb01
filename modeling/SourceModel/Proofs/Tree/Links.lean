import SourceModel.Proofs.Tree.Numbering
import Mathlib.Data.List.Nodup

/-!
# Links between nodes

The nodes of a syntax tree know their number and the numbers of the nodes above them, and give the
numbers of their children. In pre-order the numbers are those from zero on, and both kinds of link
agree: every node but the root is once among the children of the node above it, and is no child of
any other node.
-/

namespace SourceModel

namespace Ast.Node

structure ChildOf (n p : Node) : Prop where
  ancestors_eq : n.ancestors = p.id :: p.ancestors
  mem : (n.id, n.tree) ∈ p.tree.numberedChildren p.id

theorem ChildOf.parent?_eq {n p : Node} (h : n.ChildOf p) : n.parent? = some p.id := by
  rw [parent?, h.ancestors_eq, List.head?_cons]

theorem ChildOf.mem_childIds {n p : Node} (h : n.ChildOf p) : n.id ∈ p.childIds :=
  List.mem_map_of_mem (f := Prod.fst) h.mem

end Ast.Node

namespace Tree

theorem le_of_mem_numbered {id : Nat} {ts : List Tree} {entry : Nat × Tree}
    (h : entry ∈ numbered id ts) : id ≤ entry.1 := by
  induction ts generalizing id with
  | nil => cases h
  | cons t ts ih =>
    rcases List.mem_cons.1 h with rfl | h
    · exact Nat.le_refl _
    · exact Nat.le_trans (Nat.le_add_right ..) (ih h)

theorem pairwise_numbered (id : Nat) (ts : List Tree) :
    ((numbered id ts).map Prod.fst).Pairwise (· < ·) := by
  induction ts generalizing id with
  | nil => exact .nil
  | cons t ts ih =>
    refine List.pairwise_cons.2 ⟨fun i hi => ?_, ih _⟩
    obtain ⟨entry, he, rfl⟩ := List.mem_map.1 hi
    have hpos := t.size_pos
    have hle := le_of_mem_numbered he
    omega

mutual
theorem map_tree_nodesFrom : ∀ (id : Nat) (ancestors : List Nat) (t : Tree),
    (t.nodesFrom id ancestors).map Ast.Node.tree = t.preorder
  | id, ancestors, .node data children foreign => by
    simp [nodesFrom, preorder, map_tree_nodesAmong]

theorem map_tree_nodesAmong : ∀ (id : Nat) (ancestors : List Nat) (ts : List Tree),
    (nodesAmong id ancestors ts).map Ast.Node.tree = preorders ts
  | _, _, [] => rfl
  | id, ancestors, t :: ts => by
    simp [nodesAmong, preorders, map_tree_nodesFrom, map_tree_nodesAmong]
end

theorem mem_preorder_of_mem_nodesFrom {id : Nat} {ancestors : List Nat} {t : Tree} {n : Ast.Node}
    (hn : n ∈ t.nodesFrom id ancestors) : n.tree ∈ t.preorder := by
  rw [← map_tree_nodesFrom id ancestors t]
  exact List.mem_map_of_mem hn

mutual
/-- The nodes of a tree are numbered without a gap. -/
theorem map_id_nodesFrom : ∀ (id : Nat) (ancestors : List Nat) (t : Tree),
    (t.nodesFrom id ancestors).map Ast.Node.id = List.range' id t.size
  | id, ancestors, .node data children foreign => by
    rw [nodesFrom, List.map_cons, map_id_nodesAmong (id + 1), size, Nat.add_comm 1,
      List.range'_succ]

private theorem map_id_nodesAmong : ∀ (id : Nat) (ancestors : List Nat) (ts : List Tree),
    (nodesAmong id ancestors ts).map Ast.Node.id = List.range' id (sizes ts)
  | _, _, [] => rfl
  | id, ancestors, t :: ts => by
    rw [nodesAmong, List.map_append, map_id_nodesFrom id _ t, map_id_nodesAmong _ _ ts, sizes,
      List.range'_append_1]
end

theorem bounds_of_mem_nodesFrom {id : Nat} {ancestors : List Nat} {t : Tree} {n : Ast.Node}
    (h : n ∈ t.nodesFrom id ancestors) : id ≤ n.id ∧ n.id < id + t.size := by
  have hmem := List.mem_map_of_mem (f := Ast.Node.id) h
  rwa [map_id_nodesFrom, List.mem_range'_1] at hmem

theorem bounds_of_mem_nodesAmong {id : Nat} {ancestors : List Nat} {ts : List Tree} {n : Ast.Node}
    (h : n ∈ nodesAmong id ancestors ts) : id ≤ n.id ∧ n.id < id + sizes ts := by
  have hmem := List.mem_map_of_mem (f := Ast.Node.id) h
  rwa [map_id_nodesAmong, List.mem_range'_1] at hmem

mutual
/-- Above a node come nodes of its tree with lower numbers, and then those above the tree. -/
theorem exists_ancestors_eq : ∀ {id : Nat} {ancestors : List Nat} {t : Tree} {n : Ast.Node},
    n ∈ t.nodesFrom id ancestors →
      ∃ inner, n.ancestors = inner ++ ancestors ∧ ∀ i ∈ inner, id ≤ i ∧ i < n.id
  | id, ancestors, .node data children foreign, n, h => by
    rw [nodesFrom] at h
    rcases List.mem_cons.1 h with rfl | h
    · exact ⟨[], rfl, by simp⟩
    · have hid := (bounds_of_mem_nodesAmong h).1
      obtain ⟨inner, hinner, hbounds⟩ := exists_ancestors_eq_among h
      refine ⟨inner ++ [id], by rw [hinner, List.append_assoc, List.singleton_append], ?_⟩
      intro i hi
      rcases List.mem_append.1 hi with hi | hi
      · have hi := hbounds i hi
        omega
      · rw [List.mem_singleton.1 hi]
        omega

theorem exists_ancestors_eq_among :
    ∀ {id : Nat} {ancestors : List Nat} {ts : List Tree} {n : Ast.Node},
    n ∈ nodesAmong id ancestors ts →
      ∃ inner, n.ancestors = inner ++ ancestors ∧ ∀ i ∈ inner, id ≤ i ∧ i < n.id
  | id, ancestors, t :: ts, n, h => by
    rw [nodesAmong] at h
    rcases List.mem_append.1 h with h | h
    · exact exists_ancestors_eq h
    · obtain ⟨inner, hinner, hbounds⟩ := exists_ancestors_eq_among h
      refine ⟨inner, hinner, ?_⟩
      intro i hi
      have hi := hbounds i hi
      omega
end

theorem lt_of_mem_ancestors {id i : Nat} {ancestors : List Nat} {t : Tree} {n : Ast.Node}
    (hn : n ∈ t.nodesFrom id ancestors) (hlt : ∀ i ∈ ancestors, i < id) (hi : i ∈ n.ancestors) :
    i < n.id := by
  obtain ⟨inner, hinner, hbounds⟩ := exists_ancestors_eq hn
  rw [hinner] at hi
  rcases List.mem_append.1 hi with hi | hi
  · exact (hbounds i hi).2
  · exact Nat.lt_of_lt_of_le (hlt i hi) (bounds_of_mem_nodesFrom hn).1

theorem nodesAmong_eq_flatMap (id : Nat) (ancestors : List Nat) (ts : List Tree) :
    nodesAmong id ancestors ts = (numbered id ts).flatMap fun s => s.2.nodesFrom s.1 ancestors := by
  induction ts generalizing id with
  | nil => rfl
  | cons t ts ih => rw [nodesAmong, ih, numbered, List.flatMap_cons]

mutual
/-- Every node of a tree but the root is a child of some node of the tree. -/
theorem mem_nodesFrom : ∀ {id : Nat} {ancestors : List Nat} {t : Tree} {n : Ast.Node},
    n ∈ t.nodesFrom id ancestors →
      n = ⟨id, t, ancestors⟩ ∨ ∃ p ∈ t.nodesFrom id ancestors, n.ChildOf p
  | id, ancestors, .node data children foreign, n, h => by
    rw [nodesFrom] at h ⊢
    rcases List.mem_cons.1 h with rfl | h
    · exact .inl rfl
    · right
      rcases mem_nodesAmong h with ⟨i, t, ht, rfl⟩ | ⟨p, hp, hc⟩
      · exact ⟨_, List.mem_cons_self, ⟨rfl, ht⟩⟩
      · exact ⟨p, List.mem_cons_of_mem _ hp, hc⟩

theorem mem_nodesAmong :
    ∀ {id : Nat} {ancestors : List Nat} {ts : List Tree} {n : Ast.Node},
    n ∈ nodesAmong id ancestors ts →
      (∃ i t, (i, t) ∈ numbered id ts ∧ n = ⟨i, t, ancestors⟩) ∨
        ∃ p ∈ nodesAmong id ancestors ts, n.ChildOf p
  | id, ancestors, t :: ts, n, h => by
    rw [nodesAmong] at h ⊢
    rcases List.mem_append.1 h with h | h
    · rcases mem_nodesFrom h with rfl | ⟨p, hp, hc⟩
      · exact .inl ⟨id, t, List.mem_cons_self, rfl⟩
      · exact .inr ⟨p, List.mem_append_left _ hp, hc⟩
    · rcases mem_nodesAmong h with ⟨i, u, hu, rfl⟩ | ⟨p, hp, hc⟩
      · exact .inl ⟨i, u, List.mem_cons_of_mem _ hu, rfl⟩
      · exact .inr ⟨p, List.mem_append_right _ hp, hc⟩
end

private theorem mem_nodesFrom_root (id : Nat) (ancestors : List Nat) (t : Tree) :
    ⟨id, t, ancestors⟩ ∈ t.nodesFrom id ancestors := by
  cases t
  exact List.mem_cons_self

theorem mem_nodesAmong_numbered {id i : Nat} {ancestors : List Nat} {t : Tree}
    {ts : List Tree} (h : (i, t) ∈ numbered id ts) :
    ⟨i, t, ancestors⟩ ∈ nodesAmong id ancestors ts := by
  induction ts generalizing id with
  | nil => cases h
  | cons u ts ih =>
    rw [nodesAmong]
    rcases List.mem_cons.1 h with h | h
    · cases h
      exact List.mem_append_left _ (mem_nodesFrom_root ..)
    · exact List.mem_append_right _ (ih h)

mutual
theorem mem_nodesFrom_of_childOf : ∀ {id : Nat} {ancestors : List Nat} {t : Tree}
    {n p : Ast.Node}, p ∈ t.nodesFrom id ancestors → n.ChildOf p → n ∈ t.nodesFrom id ancestors
  | id, ancestors, .node data children foreign, n, p, hp, hc => by
    rw [nodesFrom] at hp ⊢
    refine List.mem_cons_of_mem _ ?_
    rcases List.mem_cons.1 hp with rfl | hp
    · obtain ⟨i, t, above⟩ := n
      obtain ⟨rfl, hmem⟩ := hc
      exact mem_nodesAmong_numbered hmem
    · exact mem_nodesAmong_of_childOf hp hc

private theorem mem_nodesAmong_of_childOf : ∀ {id : Nat} {ancestors : List Nat} {ts : List Tree}
    {n p : Ast.Node}, p ∈ nodesAmong id ancestors ts → n.ChildOf p →
      n ∈ nodesAmong id ancestors ts
  | id, ancestors, t :: ts, n, p, hp, hc => by
    rw [nodesAmong] at hp ⊢
    rcases List.mem_append.1 hp with hp | hp
    · exact List.mem_append_left _ (mem_nodesFrom_of_childOf hp hc)
    · exact List.mem_append_right _ (mem_nodesAmong_of_childOf hp hc)
end

end Tree

namespace Ast

variable {ast : Ast} {n m p q : Node}

/-- The pre-order visits the numbers from zero on. -/
theorem map_id_nodes (ast : Ast) : ast.nodes.map Node.id = List.range ast.size := by
  rw [nodes, Tree.map_id_nodesFrom, size, List.range_eq_range']

theorem eq_of_id_eq (hn : n ∈ ast.nodes) (hm : m ∈ ast.nodes) (h : n.id = m.id) : n = m := by
  have hnodup : (ast.nodes.map Node.id).Nodup := map_id_nodes ast ▸ List.nodup_range
  exact List.inj_on_of_nodup_map hnodup hn hm h

/-- A node stands at its number. -/
theorem get?_of_mem_nodes (hn : n ∈ ast.nodes) : ast.root.get? n.id = some n.tree := by
  obtain ⟨i, hlt, hi⟩ := List.mem_iff_getElem.1 hn
  have hid : n.id = i := by
    rw [← hi, ← List.getElem_map (f := Node.id) (h := by rwa [List.length_map])]
    simp only [map_id_nodes, List.getElem_range]
  rw [Tree.get?_eq_getElem?, ← Tree.map_tree_nodesFrom 0 [], hid]
  change (ast.nodes.map Node.tree)[i]? = _
  rw [List.getElem?_map, List.getElem?_eq_getElem hlt, hi, Option.map_some]

theorem rootNode_mem (ast : Ast) : ⟨0, ast.root, []⟩ ∈ ast.nodes := Tree.mem_nodesFrom_root ..

theorem exists_childOf (hn : n ∈ ast.nodes) (h : n.id ≠ 0) : ∃ p ∈ ast.nodes, n.ChildOf p := by
  rcases Tree.mem_nodesFrom hn with rfl | hp
  · exact absurd rfl h
  · exact hp

theorem childOf_of_mem_childIds (hp : p ∈ ast.nodes) (hn : n ∈ ast.nodes)
    (h : n.id ∈ p.childIds) : n.ChildOf p := by
  obtain ⟨⟨i, t⟩, ht, hi⟩ := List.mem_map.1 h
  have hi : i = n.id := hi
  have hc : Node.ChildOf ⟨i, t, p.id :: p.ancestors⟩ p := ⟨rfl, ht⟩
  have hmem := Tree.mem_nodesFrom_of_childOf hp hc
  exact eq_of_id_eq hmem hn hi ▸ hc

theorem Node.nodup_childIds (p : Node) : p.childIds.Nodup :=
  (Tree.pairwise_numbered ..).imp Nat.ne_of_lt

theorem zero_notMem_childIds (p : Node) : 0 ∉ p.childIds := by
  intro h
  obtain ⟨entry, he, h0⟩ := List.mem_map.1 h
  have hle := Tree.le_of_mem_numbered he
  omega

/-- A child occurs once among the children of the node above it, and nowhere else. -/
theorem count_childIds (hn : n ∈ ast.nodes) (hp : p ∈ ast.nodes) (hq : q ∈ ast.nodes)
    (hc : n.ChildOf p) : q.childIds.count n.id = if q.id = p.id then 1 else 0 := by
  by_cases hid : q.id = p.id
  · rw [if_pos hid, eq_of_id_eq hq hp hid]
    exact List.count_eq_one_of_mem p.nodup_childIds hc.mem_childIds
  · rw [if_neg hid]
    refine List.count_eq_zero_of_not_mem fun hmem => hid ?_
    have hparent := (childOf_of_mem_childIds hq hn hmem).parent?_eq
    rw [hc.parent?_eq, Option.some.injEq] at hparent
    exact hparent.symm

/-! ## What lies below a node -/

namespace Node

def children (n : Node) : List Node :=
  (n.tree.numberedChildren n.id).map fun s => ⟨s.1, s.2, n.id :: n.ancestors⟩

/-- The node and all nodes below it, in pre-order. -/
def subtree (n : Node) : List Node := n.tree.nodesFrom n.id n.ancestors

theorem childOf_of_mem_children (h : n ∈ p.children) : n.ChildOf p := by
  obtain ⟨s, hs, rfl⟩ := List.mem_map.1 h
  exact ⟨rfl, hs⟩

theorem map_tree_children (n : Node) : n.children.map Node.tree = n.tree.children := by
  rw [children, List.map_map, Tree.numberedChildren]
  exact Tree.map_snd_numbered ..

theorem subtree_eq (n : Node) : n.subtree = n :: n.children.flatMap subtree := by
  obtain ⟨id, ⟨data, below, foreign⟩, ancestors⟩ := n
  rw [subtree, Tree.nodesFrom, Tree.nodesAmong_eq_flatMap, children, List.flatMap_map]
  rfl

theorem size_lt_of_mem_children (h : n ∈ p.children) : n.tree.size < p.tree.size := by
  have hmem : n.tree ∈ p.tree.children := map_tree_children p ▸ List.mem_map_of_mem h
  obtain ⟨before, behind, heq⟩ := List.append_of_mem hmem
  obtain ⟨id, ⟨data, below, foreign⟩, ancestors⟩ := p
  rw [show below = _ from heq, Tree.size, Tree.sizes_append, Tree.sizes]
  omega

theorem map_id_subtree (n : Node) : n.subtree.map Node.id = List.range' n.id n.tree.size :=
  Tree.map_id_nodesFrom ..

end Node

theorem mem_nodes_of_mem_children (hp : p ∈ ast.nodes) (hn : n ∈ p.children) : n ∈ ast.nodes :=
  Tree.mem_nodesFrom_of_childOf hp (Node.childOf_of_mem_children hn)

theorem mem_nodes_of_mem_subtree (hp : p ∈ ast.nodes) (hn : n ∈ p.subtree) :
    n ∈ ast.nodes ∧ p.ancestors ⊆ n.ancestors ∧ (n = p ∨ p.id ∈ n.ancestors) := by
  induction hsize : p.tree.size using Nat.strongRecOn generalizing p with
  | _ size ih =>
    rw [Node.subtree_eq] at hn
    rcases List.mem_cons.1 hn with rfl | hn
    · exact ⟨hp, List.Subset.refl _, .inl rfl⟩
    · obtain ⟨c, hc, hnc⟩ := List.mem_flatMap.1 hn
      obtain ⟨hmem, hsubset, -⟩ := ih c.tree.size (hsize ▸ Node.size_lt_of_mem_children hc)
        (mem_nodes_of_mem_children hp hc) hnc rfl
      rw [(Node.childOf_of_mem_children hc).ancestors_eq] at hsubset
      have hboth := List.cons_subset.1 hsubset
      exact ⟨hmem, hboth.2, .inr hboth.1⟩

end Ast

end SourceModel
