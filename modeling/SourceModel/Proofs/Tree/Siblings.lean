import SourceModel.Proofs.Tree.Refusals
import SourceModel.Proofs.Tree.Traversal

/-!
# Siblings in the order of the source

A visitor is called with each child of a node once, from left to right. No child starts before the
end of an earlier one, so they start one behind the other. Only where a child is empty may a later
one start at the same place.
-/

namespace SourceModel

open Ast (Node)

/-! ## Calls with children -/

private theorem exists_run_logged {α ε σ : Type} {f : α → ExceptT ε (StateM σ) Unit}
    (hf : ∀ a s, ((f a).run s).1 = .ok ()) (as log : List α) (s : σ) :
    ∃ s₁, (forM as (logged f)).run (log, s) = (.ok (), log ++ as, s₁) := by
  induction as generalizing log s with
  | nil => exact ⟨s, by rw [List.append_nil]; rfl⟩
  | cons a as ih =>
    have ha : (f a).run s = (.ok (), ((f a).run s).2) := Prod.ext (hf a s) rfl
    obtain ⟨s₁, hrest⟩ := ih (log ++ [a]) ((f a).run s).2
    refine ⟨s₁, ?_⟩
    rw [run_forM_of_ok (run_logged ha), hrest, List.append_assoc, List.singleton_append]

namespace Visitor

/-- The visitor that calls `f` and goes no further. -/
def calling {m : Type → Type} (f : Node → m Unit) : Visitor m := ⟨fun node _ _ => f node⟩

section Accept

variable {m : Type → Type} [Monad m]

private theorem accept_calling (f : Node → m Unit) (n : Node) :
    (calling f).accept n = f n := accept_eq ..

private theorem acceptAmong_eq_forM (v : Visitor m) (id : Nat) (ancestors : List Nat)
    (ts : List Tree) :
    v.acceptAmong id ancestors ts =
      forM ((Tree.numbered id ts).map fun s => ⟨s.1, s.2, ancestors⟩) v.accept := by
  induction ts generalizing id with
  | nil => rfl
  | cons t ts ih =>
    rw [acceptAmong, Tree.numbered, List.map_cons, List.forM_cons, ih]
    rfl

private theorem acceptInChildren_eq_forM (v : Visitor m) (n : Node) :
    v.acceptInChildren n = forM n.children v.accept := acceptAmong_eq_forM ..

end Accept

private theorem run_acceptInChildren_calling {ε σ : Type} {f : Node → ExceptT ε (StateM σ) Unit}
    (hf : ∀ c s, ((f c).run s).1 = .ok ()) (n : Node) (s : σ) :
    ∃ s₁, ((calling (logged f)).acceptInChildren n).run ([], s) = (.ok (), n.children, s₁) := by
  have haccept : (calling (logged f)).accept = logged f := funext (accept_calling _)
  rw [acceptInChildren_eq_forM, haccept]
  exact exists_run_logged hf n.children [] s

end Visitor

/-! ## Places of children -/

namespace Tree

def EndsBefore (t u : Tree) : Prop := t.region.stop ≤ u.region.offset

/-- Trees that are nested between two offsets end before the later ones start. -/
theorem NestedIn.pairwise {lo hi : Nat} {ts : List Tree} (h : NestedIn lo hi ts) :
    ts.Pairwise EndsBefore := by
  induction ts generalizing lo with
  | nil => exact .nil
  | cons t ts ih => exact .cons (fun u hu => (h.2.2.mem hu).1) (ih h.2.2)

/-- A tree starts before the other one, or it is empty and the other one starts where it does. -/
def Precedes (t u : Tree) : Prop :=
  t.region.offset < u.region.offset ∨ t.region.isEmpty = true ∧ t.region.offset = u.region.offset

private theorem EndsBefore.precedes {t u : Tree} (h : t.EndsBefore u) : t.Precedes u := by
  unfold EndsBefore Region.stop at h
  unfold Precedes Region.isEmpty
  rw [beq_iff_eq]
  omega

end Tree

private theorem Ast.precedes_children {ast : Ast} {n : Node} (h : ast.root.Nested)
    (hn : n ∈ ast.nodes) : n.children.Pairwise fun c d => c.tree.Precedes d.tree := by
  have hnested := (Tree.nested_iff n.tree).1 (h.of_mem_nodesFrom hn)
  have hpairwise := hnested.pairwise
  rw [← Node.map_tree_children, List.pairwise_map] at hpairwise
  exact hpairwise.imp Tree.EndsBefore.precedes

namespace TreeBuilder

/-- At every node of a tree that comes out of a run in which every close is accepted, a visitor is
called with the children, which are as many as the node counts, from left to right, and one that
never fails with each of them. Each child starts before the later ones, unless it is empty and a
later one starts where it does. -/
theorem visits_children (language : String) (calls : List BuildCall)
    (h : (new language).closes calls = true) (ast : Ast)
    (hok : ((new language).after calls).finish = .ok ast) (n : Node) (hn : n ∈ ast.nodes) :
    (∀ {m : Type → Type} [Monad m] (v : Visitor m),
      v.acceptInChildren n = forM n.children v.accept) ∧
    (∀ {ε σ : Type} {f : Node → ExceptT ε (StateM σ) Unit}, (∀ c s, ((f c).run s).1 = .ok ()) →
      ∀ s, ∃ s₁, ((Visitor.calling (logged f)).acceptInChildren n).run ([], s) =
        (.ok (), n.children, s₁)) ∧
    n.children.map Node.id = n.childIds ∧
    n.children.length = n.tree.children.length ∧
    n.children.Pairwise fun c d => c.tree.Precedes d.tree := by
  refine ⟨fun v => v.acceptInChildren_eq_forM n,
    fun hf s => Visitor.run_acceptInChildren_calling hf n s, ?_, ?_, ?_⟩
  · rw [Node.children, List.map_map]
    rfl
  · rw [← Node.map_tree_children, List.length_map]
  · have hroot := (finish_eq_ok_iff.1 hok).2.1
    exact Ast.precedes_children (((builds_new language).after h).nested ast.root hroot) hn

/-- A file with a gap, another gap at the same place, and a word behind them. -/
def gapCalls : List BuildCall :=
  let gap : SyntaxKind := ⟨"test", 1, "Gap"⟩
  [.start ⟨"test", 0, "File"⟩ 0, .leaf gap ⟨4, 0, by decide⟩, .leaf gap ⟨4, 0, by decide⟩,
    .leaf ⟨"test", 2, "Word"⟩ ⟨6, 6, by decide⟩, .finish 12]

def countCall (_ : Node) : ExceptT String (StateM Nat) Unit := ExceptT.mk fun count =>
  (.ok (), count + 1)

theorem visits_children_gaps :
    (new "test").closes gapCalls = true ∧ ∃ ast, ((new "test").after gapCalls).finish = .ok ast ∧
      (∃ called count, ((Visitor.calling (logged countCall)).acceptInChildren ast.rootNode).run
        ([], 0) = (.ok (), called, count) ∧ called.map Node.id = [1, 2, 3]) ∧
      ast.rootNode.children.Pairwise fun c d => c.tree.Precedes d.tree := by
  have hcloses : (new "test").closes gapCalls = true := by decide
  have hvisits := visits_children "test" gapCalls hcloses
  refine ⟨hcloses, _, rfl, ?_⟩
  obtain ⟨-, hcalled, -, -, hplaces⟩ := hvisits _ rfl _ (Ast.rootNode_mem _)
  obtain ⟨count, hcount⟩ := hcalled (f := countCall) (fun _ _ => rfl) 0
  exact ⟨⟨_, count, hcount, by decide⟩, hplaces⟩

/-- All calls are accepted, and yet the first two children start at the same offset. -/
theorem visits_children_together :
    ((new "test").history gapCalls).all (fun c => c.2.isOk) = true ∧
      ∃ ast, ((new "test").after gapCalls).finish = .ok ast ∧ ast.rootNode ∈ ast.nodes ∧
        ∃ called count, ((Visitor.calling (logged countCall)).acceptInChildren ast.rootNode).run
            ([], 0) = (.ok (), called, count) ∧
          called.map (fun c => c.tree.region.offset) = [4, 4, 6] ∧
          ¬ (called.map fun c => c.tree.region.offset).Pairwise (· < ·) := by
  refine ⟨by decide, _, rfl, Ast.rootNode_mem _, _, _, rfl, by decide, by decide⟩

end TreeBuilder

end SourceModel
