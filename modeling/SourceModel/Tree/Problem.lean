import SourceModel.Tree

/-!
# Problems

The problems of a tree are its nodes in error and those of the foreign trees, sorted by where they
start. Problems that start at the same offset stay in the order of the tree: a node, then its
foreign tree, then its children.
-/

namespace SourceModel

/-- A node in error as it is reported. -/
structure Problem where
  region : Region
  status : Status
  message : String
deriving DecidableEq, Repr, Inhabited

namespace Problem

/-- Written form of a problem. -/
def display (p : Problem) : String := s!"{p.region.display} {p.message}"

/-- The problem of a node in error. The first detail of its status says where and what; without
one the problem is the whole node. -/
def ofNode (data : NodeData) : Problem :=
  match data.attachments.detail? with
  | some detail => ⟨detail.region, data.status, detail.text⟩
  | none =>
    ⟨data.region, data.status,
      s!"syntax error in {data.kind.name} (code {data.status.code.toNat})"⟩

end Problem

namespace Tree

mutual
/-- The problems of a tree in the order of the tree. -/
def problems : Tree → List Problem
  | .node data children none =>
    (if data.status.isError then [Problem.ofNode data] else []) ++ problemsAmong children
  | .node data children (some foreign) =>
    (if data.status.isError then [Problem.ofNode data] else []) ++ foreign.problems ++
      problemsAmong children

/-- The problems of several trees in the order of the trees. -/
def problemsAmong : List Tree → List Problem
  | [] => []
  | t :: ts => t.problems ++ problemsAmong ts
end

end Tree

/-- The problems of a syntax tree, sorted by offset. -/
def Ast.problems (ast : Ast) : List Problem :=
  ast.root.problems.mergeSort fun p q => p.region.offset ≤ q.region.offset

end SourceModel
