import SourceModel.Tree

/-!
# Visiting the nodes of a tree

A visitor is called with a node, with the action that visits the children of the node from left to
right, and with the action that visits the foreign tree. It decides whether and when these run. A
failure of the visitor ends the visit and is handed on as it is.
-/

namespace SourceModel

structure Visitor (m : Type → Type) where
  visit : Ast.Node → (intoChildren : m Unit) → (intoForeign : m Unit) → m Unit

namespace Visitor

variable {m : Type → Type} [Monad m]

/-- The visitor that only passes through the children. -/
def passing : Visitor m := ⟨fun _ intoChildren _ => intoChildren⟩

/-- The visitor that calls `f` before it goes on to the children. -/
def preorder (f : Ast.Node → m Unit) : Visitor m :=
  ⟨fun node intoChildren _ => do
    f node
    intoChildren⟩

mutual
/-- Visits the root of a tree that has number `id` and lies below the given nodes. -/
def acceptFrom (v : Visitor m) (id : Nat) (ancestors : List Nat) : Tree → m Unit
  | .node data children none =>
    v.visit ⟨id, .node data children none, ancestors⟩
      (acceptAmong v (id + 1) (id :: ancestors) children) (pure ())
  | .node data children (some foreign) =>
    v.visit ⟨id, .node data children (some foreign), ancestors⟩
      (acceptAmong v (id + 1) (id :: ancestors) children) (acceptFrom v 0 [] foreign)

/-- Visits the roots of several trees. -/
def acceptAmong (v : Visitor m) (id : Nat) (ancestors : List Nat) : List Tree → m Unit
  | [] => pure ()
  | t :: ts => do
    acceptFrom v id ancestors t
    acceptAmong v (id + t.size) ancestors ts
end

def accept (v : Visitor m) (node : Ast.Node) : m Unit :=
  v.acceptFrom node.id node.ancestors node.tree

/-- Visits the children of a node from left to right. -/
def acceptInChildren (v : Visitor m) (node : Ast.Node) : m Unit :=
  v.acceptAmong (node.id + 1) (node.id :: node.ancestors) node.tree.children

/-- Visits the root of the foreign tree that a node carries, if any. -/
def acceptInForeign (v : Visitor m) (node : Ast.Node) : m Unit :=
  match node.tree.foreign with
  | none => pure ()
  | some foreign => v.acceptFrom 0 [] foreign

end Visitor

/-- Calls `f` for a node and for all nodes below it, parents first. -/
def walk {m : Type → Type} [Monad m] (node : Ast.Node) (f : Ast.Node → m Unit) : m Unit :=
  (Visitor.preorder f).accept node

def Ast.rootNode (ast : Ast) : Ast.Node := ⟨0, ast.root, []⟩

end SourceModel
