import SourceModel.Proofs.Tree.Covering

/-!
# Descents to a region

The search for the node around a region enters, round after round, the first child that contains the
region, and never turns back. If the region is not empty, only one of the children can contain it,
as they lie one behind the other. So the nodes that contain the region are those on the way of the
search, and the last one of them is the deepest. An empty region may lie at the end of one child and
at the start of the next one, and then only the first of them is entered.
-/

namespace SourceModel

open Ast (Node)
open SourceModel.Tree (numbered)

section Enclosing

variable {region : Region} {nodes : List Node} {n m : Node} {rounds : Nat}

private theorem searchable_region (h : region.isEmpty = false) :
    Searchable (fun r => r.containsRegion region) (fun r => r.containsRegion region) where
  meets_of_holds _ hr := hr
  mono _ _ hrs hs := Region.containsRegion_trans hrs hs
  apart r s hr hs hle := by
    have hlt : region.offset < region.stop := by
      have hlength : region.length ≠ 0 := by simpa [Region.isEmpty] using h
      unfold Region.stop
      omega
    rw [Region.containsRegion_iff] at hr hs
    omega

/-- What holds of the tightest node around a region. Nodes that contain the region lie above it, and
only an empty region may lie in others as well. -/
structure Tightest (region : Region) (nodes : List Node) (n : Node) : Prop where
  mem : n ∈ nodes
  around : n.tree.region.containsRegion region = true
  bottom : ∀ c ∈ n.tree.children, c.region.containsRegion region = false
  above : region.isEmpty = false → ∀ m ∈ nodes, m.tree.region.containsRegion region = true →
    m = n ∨ m.id ∈ n.ancestors ∧ m.depth < n.depth

namespace Ast.Node

private theorem entered?_self (holds : Region → Bool) (n : Node) :
    n.entered? holds holds = n.children.find? fun c => holds c.tree.region := by
  rw [entered?]
  cases hf : n.children.find? fun c => holds c.tree.region with
  | some c => rfl
  | none =>
    rw [Option.none_or, List.find?_eq_none]
    intro c hc
    exact List.find?_eq_none.1 hf c (List.mem_reverse.1 hc)

end Ast.Node

private theorem Ast.depth_lt_of_mem_ancestors {ast : Ast} (hn : n ∈ ast.nodes) (hm : m ∈ ast.nodes)
    (h : m.id ∈ n.ancestors) : m.depth < n.depth := by
  induction hancestors : n.ancestors generalizing n with
  | nil =>
    rw [hancestors] at h
    cases h
  | cons parent rest ih =>
    have h0 : n.id ≠ 0 := by
      intro h0
      rw [eq_of_id_eq hn ast.rootNode_mem h0] at hancestors
      cases hancestors
    obtain ⟨p, hp, hc⟩ := exists_childOf hn h0
    have hdepth : n.depth = p.depth + 1 := by
      rw [Node.depth, hc.ancestors_eq, List.length_cons, Node.depth]
    rw [hc.ancestors_eq] at h hancestors
    rcases List.mem_cons.1 h with hid | hover
    · rw [eq_of_id_eq hm hp hid, hdepth]
      exact Nat.lt_succ_self _
    · have hlt := ih hp hover (List.cons.inj hancestors).2
      omega

namespace Tree

private theorem enclosingAmong_eq (region : Region) (id : Nat) (ts : List Tree) :
    enclosingAmong region id ts =
      ((numbered id ts).find? fun s => s.2.region.containsRegion region).map
        fun s => s.2.enclosingFrom region s.1 := by
  induction ts generalizing id with
  | nil => rfl
  | cons t ts ih =>
    rw [enclosingAmong, numbered, List.find?_cons, ih]
    cases t.region.containsRegion region <;> rfl

end Tree

private theorem Ast.Node.enclosingFrom_eq (region : Region) (n : Node) :
    n.tree.enclosingFrom region n.id =
      ((n.entered? (fun r => r.containsRegion region) fun r => r.containsRegion region).map
        fun c => c.tree.enclosingFrom region c.id).getD (n.id, n.tree) := by
  obtain ⟨id, ⟨data, below, foreign⟩, ancestors⟩ := n
  simp only [Tree.enclosingFrom, Tree.enclosingAmong_eq, entered?_self, children,
    Tree.numberedChildren, Tree.children, List.find?_map, Function.comp_def, Option.map_map]

private theorem Ast.Node.enclosingFrom_of_walk
    (h : n.walk (fun r => r.containsRegion region) (fun r => r.containsRegion region) rounds =
      some m) : n.tree.enclosingFrom region n.id = m.tree.enclosingFrom region m.id := by
  apply walk_induction
    (P := fun p => n.tree.enclosingFrom region n.id = p.tree.enclosingFrom region p.id) _ rfl h
  intro p c hp hc
  rw [hp, p.enclosingFrom_eq, hc, Option.map_some, Option.getD_some]

/-- In a nested tree that contains the region, the node at which a search ends is the tightest. -/
theorem Ast.tightest {ast : Ast} (hnested : ast.root.Nested)
    (hroot : ast.root.region.containsRegion region = true)
    (hwalk : Node.walk (fun r => r.containsRegion region) (fun r => r.containsRegion region) rounds
      ⟨0, ast.root, []⟩ = some n)
    (hend : n.entered? (fun r => r.containsRegion region) (fun r => r.containsRegion region) =
      none) : Tightest region ast.nodes n := by
  have hpassed : n ∈ ast.nodes ∧ n.tree.region.containsRegion region = true := by
    apply Node.walk_induction (P := fun p => p ∈ ast.nodes ∧ p.tree.region.containsRegion region)
      _ ⟨ast.rootNode_mem, hroot⟩ hwalk
    intro p c hp hc
    exact ⟨Ast.mem_nodes_of_mem_children hp.1 (Node.entered?_mem hc),
      Node.meets_of_entered? (fun _ hr => hr) hc⟩
  have hbottom := (Node.entered?_eq_none_iff fun _ hr => hr).1 hend
  refine ⟨hpassed.1, hpassed.2, fun t ht => ?_, fun hregion m hm hcontains => ?_⟩
  · rw [← Node.map_tree_children] at ht
    obtain ⟨c, hc, rfl⟩ := List.mem_map.1 ht
    exact hbottom c hc
  · have hs := searchable_region hregion
    have hguided := (guided_root hnested hroot).walk hs
      (fun n hn c => Ast.mem_nodes_of_mem_children hn) hwalk
    rcases (hguided.innermost hs hend).above m hm hcontains with rfl | hover
    · exact .inl rfl
    · exact .inr ⟨hover, depth_lt_of_mem_ancestors hpassed.1 hm hover⟩

end Enclosing

namespace TreeBuilder

/-- In a tree that comes out of a run, there is a node around a region just if the root contains the
region. It contains the region and no child of it does. If the region is not empty, every other node
that contains it lies above that node, so that no other one is as deep. -/
theorem enclosing_of_finish (language : String) (calls : List BuildCall)
    (h : (new language).closes calls = true) (ast : Ast)
    (hok : ((new language).after calls).finish = .ok ast) (region : Region) :
    (ast.enclosing? region = none ↔ ast.root.region.containsRegion region = false) ∧
      ∀ found, ast.enclosing? region = some found → ∃ n : Ast.Node, found = (n.id, n.tree) ∧
        Tightest region ast.nodes n := by
  unfold Ast.enclosing?
  cases hroot : ast.root.region.containsRegion region with
  | false => simp
  | true =>
    refine ⟨by simp, fun found hfound => ?_⟩
    rw [if_pos rfl, Option.some.injEq] at hfound
    obtain ⟨rounds, n, hwalk, hend⟩ := Ast.Node.exists_walk (fun r => r.containsRegion region)
      (fun r => r.containsRegion region) ⟨0, ast.root, []⟩
    refine ⟨n, ?_, Ast.tightest (nested_of_finish h hok) hroot hwalk hend⟩
    rw [← hfound, Ast.Node.enclosingFrom_of_walk hwalk, n.enclosingFrom_eq, hend]
    rfl

/-- Two neighbours contain an empty region between them, and the first one is found. A region in
both of them lies in the node above alone. -/
theorem enclosing_of_finish_adjacent :
    (new "test").closes adjacentCalls = true ∧
      ∃ ast, ((new "test").after adjacentCalls).finish = .ok ast ∧
        (ast.enclosing? ⟨5, 0, by decide⟩).map Prod.fst = some 1 ∧
        ast.enclosing? ⟨9, 2, by decide⟩ = none ∧
        (ast.enclosing? ⟨4, 2, by decide⟩).map Prod.fst = some 0 ∧
        ∃ n : Ast.Node, n.id = 3 ∧ Tightest ⟨6, 2, by decide⟩ ast.nodes n := by
  have hcloses : (new "test").closes adjacentCalls = true := by decide
  refine ⟨hcloses, _, rfl, by decide, by decide, by decide, ?_⟩
  obtain ⟨n, hn, htightest⟩ :=
    (enclosing_of_finish "test" adjacentCalls hcloses _ rfl ⟨6, 2, by decide⟩).2 (3, _) rfl
  exact ⟨n, (congrArg Prod.fst hn).symm, htightest⟩

end TreeBuilder

end SourceModel
