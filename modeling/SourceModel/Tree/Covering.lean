import SourceModel.Tree

/-!
# Nodes at a position

The node at a caret is found from the root down. Of the children, the first one that contains the
offset is entered; if none does, the last one that the offset touches is, so that a caret right
behind a name still selects the name.
-/

namespace SourceModel

namespace Tree

mutual
/-- The deepest subtree at `offset` of a tree with number `id`. -/
def coveringFrom (offset id : Nat) : Tree → Nat × Tree
  | .node data children foreign =>
    match coveringContaining offset (id + 1) children with
    | some found => found
    | none =>
      (coveringTouching offset (id + 1) children).getD (id, .node data children foreign)

/-- The search in the first of the trees that contains the offset. -/
def coveringContaining (offset id : Nat) : List Tree → Option (Nat × Tree)
  | [] => none
  | t :: ts =>
    if t.region.contains offset then some (t.coveringFrom offset id)
    else coveringContaining offset (id + t.size) ts

/-- The search in the last of the trees that the offset touches. -/
def coveringTouching (offset id : Nat) : List Tree → Option (Nat × Tree)
  | [] => none
  | t :: ts =>
    match coveringTouching offset (id + t.size) ts with
    | some found => some found
    | none => if t.region.touches offset then some (t.coveringFrom offset id) else none
end

mutual
/-- The deepest subtree that contains `region` of a tree with number `id`. -/
def enclosingFrom (region : Region) (id : Nat) : Tree → Nat × Tree
  | .node data children foreign =>
    (enclosingAmong region (id + 1) children).getD (id, .node data children foreign)

/-- The search in the first of the trees that contains the region. -/
def enclosingAmong (region : Region) (id : Nat) : List Tree → Option (Nat × Tree)
  | [] => none
  | t :: ts =>
    if t.region.containsRegion region then some (t.enclosingFrom region id)
    else enclosingAmong region (id + t.size) ts
end

end Tree

namespace Ast

/-- The deepest node at `offset`, with its number. -/
def covering? (ast : Ast) (offset : Nat) : Option (Nat × Tree) :=
  if ast.root.region.touches offset then some (ast.root.coveringFrom offset 0) else none

/-- The deepest node that contains the whole region, with its number. -/
def enclosing? (ast : Ast) (region : Region) : Option (Nat × Tree) :=
  if ast.root.region.containsRegion region then some (ast.root.enclosingFrom region 0) else none

end Ast

end SourceModel
