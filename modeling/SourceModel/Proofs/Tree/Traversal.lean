import SourceModel.Proofs.FailFast
import SourceModel.Proofs.Stack
import SourceModel.Proofs.Tree.Links
import SourceModel.Tree.Visitor

/-!
# Traversals

A visitor that does something with each node before it goes on to the children meets the nodes of
the subtree in pre-order, and if it can fail, then up to the first node at which it does. The
embedding nodes, which are collected with a stack, stand in the same order.
-/

namespace SourceModel

open Ast (Node)

/-! ## Visitors that go through the children -/

namespace Visitor

section Accept

variable {m : Type → Type} [Monad m] {f : Node → m Unit} {v : Visitor m}

/-- A visitor is called with a node and with what visits its children and its foreign tree. -/
theorem accept_eq (v : Visitor m) (n : Node) :
    v.accept n = v.visit n (v.acceptInChildren n) (v.acceptInForeign n) := by
  obtain ⟨id, ⟨data, children, foreign⟩, ancestors⟩ := n
  cases foreign <;> rw [accept, acceptFrom] <;> rfl

/-- Whether a visitor calls `f` with each node and then goes on to the children. -/
def Recurses (v : Visitor m) (f : Node → m Unit) : Prop :=
  ∀ n, v.accept n = do f n; v.acceptInChildren n

private theorem recurses_preorder (f : Node → m Unit) : (preorder f).Recurses f := accept_eq _

mutual
/-- Such a visitor calls `f` with the nodes of a tree in pre-order. -/
theorem Recurses.acceptFrom_eq [LawfulMonad m] (h : v.Recurses f) :
    ∀ (id : Nat) (ancestors : List Nat) (t : Tree),
      v.acceptFrom id ancestors t = forM (t.nodesFrom id ancestors) f
  | id, ancestors, .node data children foreign => by
    have hroot := h ⟨id, .node data children foreign, ancestors⟩
    rw [accept, acceptInChildren, Tree.children, h.acceptAmong_eq] at hroot
    rw [hroot, Tree.nodesFrom, List.forM_cons]

private theorem Recurses.acceptAmong_eq [LawfulMonad m] (h : v.Recurses f) :
    ∀ (id : Nat) (ancestors : List Nat) (ts : List Tree),
      v.acceptAmong id ancestors ts = forM (Tree.nodesAmong id ancestors ts) f
  | _, _, [] => by rw [acceptAmong, Tree.nodesAmong, List.forM_nil]
  | id, ancestors, t :: ts => by
    rw [acceptAmong, Tree.nodesAmong, List.forM_append, h.acceptFrom_eq, h.acceptAmong_eq]
end

private theorem Recurses.accept_eq_forM [LawfulMonad m] (h : v.Recurses f) (n : Node) :
    v.accept n = forM n.subtree f := h.acceptFrom_eq ..

end Accept

end Visitor

private theorem walk_eq_forM {m : Type → Type} [Monad m] [LawfulMonad m] (n : Node)
    (f : Node → m Unit) :
    walk n f = forM n.subtree f := (Visitor.recurses_preorder f).accept_eq_forM n

/-! ## Embedding nodes -/

namespace Ast

private theorem embeddingIdsOf_entries (nodes : List Node) :
    Tree.embeddingIdsOf (nodes.map fun n => (n.id, n.tree)) =
      ((nodes.flatMap Node.subtree).filter fun n => n.tree.isEmbedding).map Node.id := by
  generalize hpending : nodes.map (fun n => (n.id, n.tree)) = pending
  induction pending using Tree.embeddingIdsOf.induct generalizing nodes with
  | case1 =>
    rw [List.map_eq_nil_iff.1 hpending, Tree.embeddingIdsOf]
    rfl
  | case2 id t pending ih =>
    obtain ⟨n, rest, rfl, hn, rfl⟩ := List.map_eq_cons_iff.1 hpending
    obtain ⟨rfl, rfl⟩ := Prod.mk.inj hn
    have hchildren : (n.children ++ rest).map (fun n => (n.id, n.tree)) =
        n.tree.numberedChildren n.id ++ rest.map fun n => (n.id, n.tree) := by
      rw [List.map_append, Node.children, List.map_map]
      simp [Function.comp_def]
    rw [Tree.embeddingIdsOf, ih _ hchildren, List.flatMap_cons, Node.subtree_eq n,
      List.flatMap_append, List.cons_append, List.filter_cons]
    cases n.tree.isEmbedding <;> simp

/-- A walk from a node of a tree with an action that fails for just the nodes with some property.
The action is run for the nodes from that one down in pre-order, each once, up to the first one with
the property, whose failure the walk hands on; any visitor that runs it before it goes on to the
children does the same. A walk with a stack from the root gives the nodes in pre-order, and in that
order the embedding nodes stand. -/
theorem traversed (ast : Ast) {n : Node} (hn : n ∈ ast.nodes) {ε σ : Type}
    {f : Node → ExceptT ε (StateM σ) Unit} {p : Node → Bool} (hf : FailsOn f p)
    {v : Visitor (ExceptT ε (StateM (List Node × σ)))} (hv : v.Recurses (logged f)) (s : σ) :
    (∃ called outcome s₁,
      (walk n (logged f)).run ([], s) = (outcome, called, s₁) ∧
      (v.accept n).run ([], s) = (outcome, called, s₁) ∧
      called = n.subtree.takeWhile (fun m => !p m) ++ (n.subtree.find? p).toList ∧
      (called.map Node.id).Nodup ∧
      (outcome = .ok () ↔ n.subtree.find? p = none) ∧
      FailFast f n.subtree s called outcome s₁) ∧
    n.subtree = n :: n.children.flatMap Node.subtree ∧
    (∀ m ∈ n.subtree, m ∈ ast.nodes ∧ (m = n ∨ n.id ∈ m.ancestors)) ∧
    (∀ ms, Stack.Yields Node.children [ast.rootNode] ms ↔ ms = ast.rootNode.subtree) ∧
    ast.embeddingIds = (ast.rootNode.subtree.filter fun m => m.tree.isEmbedding).map Node.id := by
  obtain ⟨called, outcome, s₁, hcalls, -, hrun⟩ := exists_failFast f n.subtree s
  obtain ⟨hcalled, houtcome⟩ := hf.called_eq hcalls
  have hids : (n.subtree.map Node.id).Nodup := n.map_id_subtree ▸ List.nodup_range'
  have honce : (called.map Node.id).Nodup := hids.sublist (hcalls.called_prefix.sublist.map _)
  refine ⟨⟨called, outcome, s₁, ?_, ?_, hcalled, honce, houtcome, hcalls⟩, n.subtree_eq,
    fun m hm => ?_, fun ms => Stack.yields_iff Node.subtree_eq ast.rootNode, ?_⟩
  · rw [walk_eq_forM]
    exact hrun []
  · rw [hv.accept_eq_forM]
    exact hrun []
  · obtain ⟨hmem, -, hbelow⟩ := mem_nodes_of_mem_subtree hn hm
    exact ⟨hmem, hbelow⟩
  · have hroot := embeddingIdsOf_entries [ast.rootNode]
    rw [List.map_singleton, List.flatMap_singleton] at hroot
    exact hroot

/-- The visitor that calls `f` and goes on to the children of just the nodes that have some. -/
def sparing {m : Type → Type} [Monad m] (f : Node → m Unit) : Visitor m :=
  ⟨fun n intoChildren _ => do
    f n
    if n.tree.children.isEmpty then pure () else intoChildren⟩

private theorem recurses_sparing {m : Type → Type} [Monad m] (f : Node → m Unit) :
    (sparing f).Recurses f := by
  intro n
  rw [Visitor.accept_eq]
  obtain ⟨id, ⟨data, children, foreign⟩, ancestors⟩ := n
  cases children <;> rfl

def failAtTwo (n : Node) : ExceptT String (StateM Nat) Unit := ExceptT.mk fun count =>
  (if n.id == 2 then .error "two" else .ok (), count + 1)

private theorem failsOn_failAtTwo : FailsOn failAtTwo fun n => n.id == 2 := by
  intro n s
  change (∃ failure, (if n.id == 2 then Except.error "two" else .ok ()) = .error failure) ↔ _
  split <;> simp_all

def blockAndWord : Ast where
  language := "test"
  root := .node ⟨⟨"test", 0, "File"⟩, ⟨0, 9, by decide⟩, .ok, none, none, {}⟩
    [.node ⟨⟨"test", 1, "Block"⟩, ⟨1, 6, by decide⟩, .ok, none, some ⟨"inner", .chunk⟩, {}⟩
      [.leaf ⟨⟨"test", 2, "Word"⟩, ⟨2, 4, by decide⟩, .ok, none, none, {}⟩] none,
      .leaf ⟨⟨"test", 2, "Word"⟩, ⟨8, 1, by decide⟩, .ok, none, none, {}⟩] none

/-- The walk ends at the word in the block, and the other word is not met. -/
theorem traversed_failAtTwo :
    blockAndWord.rootNode ∈ blockAndWord.nodes ∧
      (sparing (logged failAtTwo)).Recurses (logged failAtTwo) ∧
      (∃ called, called.map Node.id = [0, 1, 2] ∧
        (walk blockAndWord.rootNode (logged failAtTwo)).run ([], 0) = (.error "two", called, 3) ∧
        ((sparing (logged failAtTwo)).accept blockAndWord.rootNode).run ([], 0) =
          (.error "two", called, 3)) ∧
      blockAndWord.embeddingIds = [1] := by
  have hmem : blockAndWord.rootNode ∈ blockAndWord.nodes := rootNode_mem blockAndWord
  have hv := recurses_sparing (logged failAtTwo)
  obtain ⟨⟨called, outcome, count, hwalk, haccept, -⟩, -, -, -, hembedding⟩ :=
    traversed blockAndWord hmem failsOn_failAtTwo hv 0
  have hrun : (walk blockAndWord.rootNode (logged failAtTwo)).run ([], 0) =
      (.error "two", blockAndWord.nodes.take 3, 3) := rfl
  rw [hrun] at hwalk
  obtain ⟨rfl, hrest⟩ := Prod.mk.inj hwalk
  obtain ⟨rfl, rfl⟩ := Prod.mk.inj hrest
  exact ⟨hmem, hv, ⟨_, rfl, hrun, haccept⟩, hembedding⟩

end Ast

end SourceModel
