import SourceModel.Proofs.Tree.Runs
import SourceModel.Tree.Covering

/-!
# Descents to a position

A search from the root enters, round after round, the first child that holds what is looked for,
and if none does, the last child that meets it. Every round goes one level down, so the search
ends. As children lie one behind the other inside their node, only one of them can hold what is
looked for, so all the nodes that hold it are on the way of the search.
-/

namespace SourceModel

open SourceModel.Tree (NestedIn nodesAmong numbered)

namespace Ast.Node

/-- The child that a search enters: the first one that holds what is looked for, and if none does,
the last one that meets it. -/
def entered? (holds meets : Region → Bool) (n : Node) : Option Node :=
  (n.children.find? fun c => holds c.tree.region).or
    (n.children.reverse.find? fun c => meets c.tree.region)

/-- The node behind some rounds of a search, if there is a child to enter in each of them. -/
def walk (holds meets : Region → Bool) : Nat → Node → Option Node
  | 0, n => some n
  | rounds + 1, n => (n.entered? holds meets).bind (walk holds meets rounds)

section Children

variable {n c m : Node}

/-- Of nodes that lie in two children of a nested node, each belongs to its own child. -/
theorem eq_of_overlap (hn : n.tree.Nested) (hc : c ∈ n.children) (hm : m ∈ n.children)
    (hcm : ¬ c.tree.region.stop ≤ m.tree.region.offset)
    (hmc : ¬ m.tree.region.stop ≤ c.tree.region.offset) : c = m := by
  have hc' := childOf_of_mem_children hc
  have hm' := childOf_of_mem_children hm
  have hchildren := (Tree.nested_iff _).1 hn
  rcases Nat.lt_trichotomy c.id m.id with hlt | heq | hlt
  · exact absurd (hchildren.stop_le_offset hc'.mem hm'.mem hlt) hcm
  · have hnodup : (n.children.map Node.id).Nodup := by
      rw [children, List.map_map]
      exact n.nodup_childIds
    exact List.inj_on_of_nodup_map hnodup hc hm heq
  · exact absurd (hchildren.stop_le_offset hm'.mem hc'.mem hlt) hmc

theorem containsRegion_of_mem_subtree (hn : n.tree.Nested) (hm : m ∈ n.subtree) :
    n.tree.region.containsRegion m.tree.region = true := by
  have hmem : m.tree ∈ n.tree.preorder := by
    rw [← Tree.map_tree_nodesFrom n.id n.ancestors]
    exact List.mem_map_of_mem hm
  exact Region.containsRegion_iff.2 (hn.preorder.1 _ hmem)

end Children

section Search

variable {holds meets : Region → Bool} {n c m : Node} {rounds : Nat}

theorem entered?_mem (h : n.entered? holds meets = some c) : c ∈ n.children := by
  rcases Option.or_eq_some_iff.1 h with h | ⟨-, h⟩
  · exact List.mem_of_find?_eq_some h
  · exact List.mem_reverse.1 (List.mem_of_find?_eq_some h)

theorem meets_of_entered? (hm : ∀ r, holds r = true → meets r = true)
    (h : n.entered? holds meets = some c) : meets c.tree.region = true := by
  rcases Option.or_eq_some_iff.1 h with h | ⟨-, h⟩
  · exact hm _ (List.find?_some (p := fun c : Node => holds c.tree.region) h)
  · exact List.find?_some (p := fun c : Node => meets c.tree.region) h

theorem entered?_eq_none_iff (hm : ∀ r, holds r = true → meets r = true) :
    n.entered? holds meets = none ↔ ∀ c ∈ n.children, meets c.tree.region = false := by
  simp only [entered?, Option.or_eq_none_iff, List.find?_eq_none, List.mem_reverse,
    Bool.not_eq_true]
  constructor
  · exact fun h => h.2
  · intro h
    refine ⟨fun c hc => ?_, h⟩
    cases hholds : holds c.tree.region with
    | false => rfl
    | true => exact absurd ((hm _ hholds).symm.trans (h c hc)) (by decide)

theorem entered?_eq_of_holds
    (hunique : ∀ c ∈ n.children, ∀ m ∈ n.children,
      holds c.tree.region = true → holds m.tree.region = true → c = m)
    (hc : c ∈ n.children) (hholds : holds c.tree.region = true) :
    n.entered? holds meets = some c := by
  cases hf : n.children.find? fun c => holds c.tree.region with
  | none => exact absurd hholds (List.find?_eq_none.1 hf c hc)
  | some m =>
    have hmholds := List.find?_some (p := fun c : Node => holds c.tree.region) hf
    have hm := hunique m (List.mem_of_find?_eq_some hf) c hc hmholds hholds
    rw [entered?, hf, hm, Option.some_or]

theorem exists_walk (holds meets : Region → Bool) (n : Node) :
    ∃ rounds m, walk holds meets rounds n = some m ∧ m.entered? holds meets = none := by
  induction hsize : n.tree.size using Nat.strongRecOn generalizing n with
  | _ size ih =>
    cases he : n.entered? holds meets with
    | none => exact ⟨0, n, rfl, he⟩
    | some c =>
      obtain ⟨rounds, m, hwalk, hend⟩ :=
        ih c.tree.size (hsize ▸ size_lt_of_mem_children (entered?_mem he)) c rfl
      exact ⟨rounds + 1, m, by rw [walk, he, Option.bind_some, hwalk], hend⟩

/-- What each round of a search keeps, a search keeps. -/
theorem walk_induction {P : Node → Prop}
    (hstep : ∀ n c, P n → n.entered? holds meets = some c → P c) (hn : P n)
    (h : walk holds meets rounds n = some m) : P m := by
  induction rounds generalizing n with
  | zero =>
    cases h
    exact hn
  | succ rounds ih =>
    obtain ⟨c, hc, hwalk⟩ := Option.bind_eq_some_iff.1 h
    exact ih (hstep n c hn hc) hwalk

private theorem depth_of_walk (h : walk holds meets rounds n = some m) :
    m.depth = n.depth + rounds := by
  induction rounds generalizing n with
  | zero =>
    cases h
    rfl
  | succ rounds ih =>
    obtain ⟨c, hc, hwalk⟩ := Option.bind_eq_some_iff.1 h
    have hdepth : c.depth = n.depth + 1 := by
      rw [depth, (childOf_of_mem_children (entered?_mem hc)).ancestors_eq, List.length_cons, depth]
    rw [ih hwalk, hdepth]
    omega

end Search

end Ast.Node

/-! ## What a search keeps -/

section Guided

open Ast (Node)

variable {holds meets : Region → Bool} {nodes : List Node} {n c m : Node} {rounds : Nat}

/-- What holds of the nodes that a search passes: they meet what is looked for, and every node that
holds it lies above or below. -/
structure Guided (holds meets : Region → Bool) (nodes : List Node) (n : Node) : Prop where
  mem : n ∈ nodes
  nested : n.tree.Nested
  met : meets n.tree.region = true
  comparable : ∀ m ∈ nodes, holds m.tree.region = true → m.id ∈ n.ancestors ∨ m ∈ n.subtree

/-- What holds of the innermost node that meets what is looked for. -/
structure Innermost (holds meets : Region → Bool) (nodes : List Node) (n : Node) : Prop where
  mem : n ∈ nodes
  met : meets n.tree.region = true
  bottom : ∀ c ∈ n.tree.children, meets c.region = false
  above : ∀ m ∈ nodes, holds m.tree.region = true → m = n ∨ m.id ∈ n.ancestors

/-- What is looked for lies inside regions, in only one of several that lie one behind the other,
and in those that it meets. -/
structure Searchable (holds meets : Region → Bool) : Prop where
  meets_of_holds : ∀ r, holds r = true → meets r = true
  mono : ∀ r s, r.containsRegion s = true → holds s = true → holds r = true
  apart : ∀ r s, holds r = true → holds s = true → ¬ r.stop ≤ s.offset

/-- A node below another one that holds what is looked for lies in a child that does. -/
theorem Searchable.eq_or_exists_child (hs : Searchable holds meets) (hn : n.tree.Nested)
    (hm : m ∈ n.subtree) (hholds : holds m.tree.region = true) :
    m = n ∨ ∃ c ∈ n.children, holds c.tree.region = true ∧ m ∈ c.subtree := by
  rw [Node.subtree_eq] at hm
  rcases List.mem_cons.1 hm with rfl | hm
  · exact .inl rfl
  · obtain ⟨c, hc, hmc⟩ := List.mem_flatMap.1 hm
    have hcmem := Tree.mem_of_mem_numbered (Node.childOf_of_mem_children hc).mem
    have hcnested := (((Tree.nested_iff _).1 hn).mem hcmem).2.2
    have hinside := Node.containsRegion_of_mem_subtree hcnested hmc
    exact .inr ⟨c, hc, hs.mono _ _ hinside hholds, hmc⟩

private theorem Guided.enter (hs : Searchable holds meets) (hchildren : ∀ c ∈ n.children, c ∈ nodes)
    (h : Guided holds meets nodes n) (he : n.entered? holds meets = some c) :
    Guided holds meets nodes c := by
  have hc := Node.entered?_mem he
  have hchild := Node.childOf_of_mem_children hc
  refine ⟨hchildren c hc, ?_, Node.meets_of_entered? hs.meets_of_holds he, fun m hm hholds => ?_⟩
  · exact (((Tree.nested_iff _).1 h.nested).mem (Tree.mem_of_mem_numbered hchild.mem)).2.2
  · rw [hchild.ancestors_eq]
    rcases h.comparable m hm hholds with habove | hbelow
    · exact .inl (List.mem_cons_of_mem _ habove)
    · rcases hs.eq_or_exists_child h.nested hbelow hholds with rfl | ⟨d, hd, hdholds, hmd⟩
      · exact .inl List.mem_cons_self
      · have hunique : n.entered? holds meets = some d :=
          Node.entered?_eq_of_holds
            (fun e hemem f hf hehold hfhold => Node.eq_of_overlap h.nested hemem hf
              (hs.apart _ _ hehold hfhold) (hs.apart _ _ hfhold hehold)) hd hdholds
        rw [he, Option.some.injEq] at hunique
        exact .inr (hunique ▸ hmd)

theorem Guided.walk (hs : Searchable holds meets)
    (hnodes : ∀ n ∈ nodes, ∀ c ∈ n.children, c ∈ nodes) (h : Guided holds meets nodes n)
    (hwalk : n.walk holds meets rounds = some m) : Guided holds meets nodes m :=
  Node.walk_induction (fun n _ hn => hn.enter hs (hnodes n hn.mem)) h hwalk

/-- The node at which a search ends is the innermost one. -/
theorem Guided.innermost (hs : Searchable holds meets) (h : Guided holds meets nodes n)
    (hend : n.entered? holds meets = none) : Innermost holds meets nodes n := by
  have hbottom := (Node.entered?_eq_none_iff hs.meets_of_holds).1 hend
  refine ⟨h.mem, h.met, fun t ht => ?_, fun m hm hholds => ?_⟩
  · rw [← Node.map_tree_children] at ht
    obtain ⟨c, hc, rfl⟩ := List.mem_map.1 ht
    exact hbottom c hc
  · rcases h.comparable m hm hholds with habove | hbelow
    · exact .inr habove
    · rcases hs.eq_or_exists_child h.nested hbelow hholds with rfl | ⟨d, hd, hdholds, -⟩
      · exact .inl rfl
      · have hmeets := hs.meets_of_holds _ hdholds
        rw [hbottom d hd] at hmeets
        cases hmeets

theorem guided_root {ast : Ast} (hn : ast.root.Nested) (hm : meets ast.root.region = true) :
    Guided holds meets ast.nodes ⟨0, ast.root, []⟩ :=
  ⟨ast.rootNode_mem, hn, hm, fun _ hmem _ => .inr hmem⟩

end Guided

/-! ## The node at an offset -/

section Covering

open Ast (Node)

variable {offset : Nat} {n m : Node}

theorem searchable_offset (offset : Nat) :
    Searchable (fun r => r.contains offset) (fun r => r.touches offset) where
  meets_of_holds r h := by
    simp only [Region.contains, Region.touches, Bool.and_eq_true, decide_eq_true_eq] at h ⊢
    omega
  mono r s hrs h := by
    rw [Region.containsRegion_iff] at hrs
    simp only [Region.contains, Bool.and_eq_true, decide_eq_true_eq] at h ⊢
    omega
  apart r s hr hs hle := by
    simp only [Region.contains, Bool.and_eq_true, decide_eq_true_eq] at hr hs
    omega

namespace Tree

private theorem coveringContaining_eq (offset id : Nat) (ts : List Tree) :
    coveringContaining offset id ts =
      ((numbered id ts).find? fun s => s.2.region.contains offset).map
        fun s => s.2.coveringFrom offset s.1 := by
  induction ts generalizing id with
  | nil => rfl
  | cons t ts ih =>
    rw [coveringContaining, numbered, List.find?_cons, ih]
    cases t.region.contains offset <;> rfl

private theorem coveringTouching_eq (offset id : Nat) (ts : List Tree) :
    coveringTouching offset id ts =
      ((numbered id ts).reverse.find? fun s => s.2.region.touches offset).map
        fun s => s.2.coveringFrom offset s.1 := by
  induction ts generalizing id with
  | nil => rfl
  | cons t ts ih =>
    rw [coveringTouching, numbered, List.reverse_cons, List.find?_append, ih]
    cases (numbered (id + t.size) ts).reverse.find? fun s => s.2.region.touches offset with
    | some s => rfl
    | none =>
      simp only [Option.map_none, Option.none_or, List.find?_singleton]
      cases t.region.touches offset <;> rfl

end Tree

private theorem Ast.Node.coveringFrom_eq (offset : Nat) (n : Node) :
    n.tree.coveringFrom offset n.id =
      ((n.entered? (fun r => r.contains offset) fun r => r.touches offset).map
        fun c => c.tree.coveringFrom offset c.id).getD (n.id, n.tree) := by
  obtain ⟨id, ⟨data, below, foreign⟩, ancestors⟩ := n
  simp only [Tree.coveringFrom, Tree.coveringContaining_eq, Tree.coveringTouching_eq,
    Ast.Node.entered?, Ast.Node.children, Tree.numberedChildren, Tree.children, ← List.map_reverse,
    List.find?_map, Function.comp_def]
  cases (numbered (id + 1) below).find? fun s => s.2.region.contains offset with
  | some s => rfl
  | none =>
    cases (numbered (id + 1) below).reverse.find? fun s => s.2.region.touches offset <;> rfl

private theorem Ast.Node.coveringFrom_of_walk {rounds : Nat}
    (h : n.walk (fun r => r.contains offset) (fun r => r.touches offset) rounds = some m) :
    n.tree.coveringFrom offset n.id = m.tree.coveringFrom offset m.id := by
  apply Node.walk_induction
    (P := fun p => n.tree.coveringFrom offset n.id = p.tree.coveringFrom offset p.id) _ rfl h
  intro p c hp hc
  rw [hp, p.coveringFrom_eq, hc, Option.map_some, Option.getD_some]

end Covering

namespace TreeBuilder

theorem nested_of_finish {language : String} {calls : List BuildCall} {ast : Ast}
    (h : (new language).closes calls = true)
    (hok : ((new language).after calls).finish = .ok ast) : ast.root.Nested :=
  ((builds_new language).after h).nested ast.root (finish_eq_ok_iff.1 hok).2.1

/-- In a tree that comes out of a run, there is a node at an offset just if the root touches the
offset. It is the innermost one, and the search finds it behind as many rounds as it has nodes above
it. -/
theorem covering_of_finish (language : String) (calls : List BuildCall)
    (h : (new language).closes calls = true) (ast : Ast)
    (hok : ((new language).after calls).finish = .ok ast) (offset : Nat) :
    (ast.covering? offset = none ↔ ast.root.region.touches offset = false) ∧
      ∀ found, ast.covering? offset = some found → ∃ n : Ast.Node, found = (n.id, n.tree) ∧
        Innermost (fun r => r.contains offset) (fun r => r.touches offset) ast.nodes n ∧
        Ast.Node.walk (fun r => r.contains offset) (fun r => r.touches offset) n.depth
          ⟨0, ast.root, []⟩ = some n := by
  have hs := searchable_offset offset
  unfold Ast.covering?
  cases htouches : ast.root.region.touches offset with
  | false => simp
  | true =>
    refine ⟨by simp, fun found hfound => ?_⟩
    rw [if_pos rfl, Option.some.injEq] at hfound
    obtain ⟨rounds, n, hwalk, hend⟩ := Ast.Node.exists_walk (fun r => r.contains offset)
      (fun r => r.touches offset) ⟨0, ast.root, []⟩
    have hguided := (guided_root (nested_of_finish h hok) htouches).walk hs
      (fun n hn c => Ast.mem_nodes_of_mem_children hn) hwalk
    have hdepth : n.depth = rounds := (Ast.Node.depth_of_walk hwalk).trans (Nat.zero_add _)
    refine ⟨n, ?_, hguided.innermost hs hend, by rw [hdepth, hwalk]⟩
    rw [← hfound, Ast.Node.coveringFrom_of_walk hwalk, n.coveringFrom_eq, hend]
    rfl

/-- A run that adds two words without a gap, with an empty word between them. -/
def adjacentCalls : List BuildCall :=
  let word : SyntaxKind := ⟨"test", 1, "Word"⟩
  [.start ⟨"test", 0, "Block"⟩ 0, .leaf word ⟨1, 4, by decide⟩, .leaf word ⟨5, 0, by decide⟩,
    .leaf word ⟨5, 4, by decide⟩, .finish 10]

/-- Between two words, the one behind the caret is found, and at the end of a word the word. -/
theorem covering_of_finish_adjacent :
    (new "test").closes adjacentCalls = true ∧
      ∃ ast, ((new "test").after adjacentCalls).finish = .ok ast ∧
        (ast.covering? 5).map Prod.fst = some 3 ∧ (ast.covering? 9).map Prod.fst = some 3 ∧
        ∃ n : Ast.Node, n.id = 3 ∧
          Innermost (fun r => r.contains 9) (fun r => r.touches 9) ast.nodes n := by
  have hcloses : (new "test").closes adjacentCalls = true := by decide
  refine ⟨hcloses, _, rfl, by decide, by decide, ?_⟩
  obtain ⟨n, hn, hinner, -⟩ :=
    (covering_of_finish "test" adjacentCalls hcloses _ rfl 9).2 (3, _) rfl
  exact ⟨n, (congrArg Prod.fst hn).symm, hinner⟩

end TreeBuilder

end SourceModel
