import SourceModel.Attachment
import SourceModel.Text.Quoted

/-!
# Syntax trees

A syntax tree is the tree that a front end builds for one language. Every node has a kind, a region
of the source, a status, optionally a text, and attachments. An embedding node stands for a part
of the source that is written in another language, and may carry the tree of that part. The
foreign tree is not a child of the node.

Nodes are numbered in pre-order from zero; foreign trees have numbers of their own.
-/

namespace SourceModel

/-- A kind of node of some language. -/
structure SyntaxKind where
  language : String
  code : Nat
  name : String
deriving DecidableEq, Repr, Inhabited

/-- How an embedded part sits in its host: as a block of its own, inside an expression, or such
that the host can do without it. -/
structure EmbeddingFlags where
  isChunk : Bool := false
  isInline : Bool := false
  isOptional : Bool := false
deriving DecidableEq, Repr, Inhabited

namespace EmbeddingFlags

/-- A block of its own. -/
def chunk : EmbeddingFlags := { isChunk := true }

/-- A part of an expression. -/
def inExpression : EmbeddingFlags := { isInline := true }

def bits (f : EmbeddingFlags) : Nat :=
  f.isChunk.toNat + 2 * f.isInline.toNat + 16 * f.isOptional.toNat

def union (f g : EmbeddingFlags) : EmbeddingFlags where
  isChunk := f.isChunk || g.isChunk
  isInline := f.isInline || g.isInline
  isOptional := f.isOptional || g.isOptional

def contains (f g : EmbeddingFlags) : Bool := f.union g = f

/-- Written form: the names of the flags. -/
def display (f : EmbeddingFlags) : String :=
  "|".intercalate <|
    (if f.isChunk then ["chunk"] else []) ++ (if f.isInline then ["inline"] else []) ++
      (if f.isOptional then ["optional"] else [])

end EmbeddingFlags

/-- What makes a node an embedding node: the language of the part and how the part sits there. -/
structure Embedding where
  language : String
  flags : EmbeddingFlags
deriving DecidableEq, Repr, Inhabited

/-- What a node says about itself. -/
structure NodeData where
  kind : SyntaxKind
  region : Region
  status : Status := .ok
  text : Option String := none
  embedding : Option Embedding := none
  attachments : Attachments := {}
deriving DecidableEq, Repr, Inhabited

/-- A node with its children in source order and the foreign tree that it carries. -/
inductive Tree where
  | node (data : NodeData) (children : List Tree) (foreign : Option Tree)
deriving Repr

/-- Written form of a node number. -/
def displayId (id : Nat) : String := s!"#{id}"

namespace Tree

instance : Inhabited Tree := ⟨.node default [] none⟩

/-- What the root says about itself. -/
def data : Tree → NodeData
  | .node data _ _ => data

/-- The nodes below the root. -/
def children : Tree → List Tree
  | .node _ children _ => children

/-- The tree of the embedded part. -/
def foreign : Tree → Option Tree
  | .node _ _ foreign => foreign

def kind (t : Tree) : SyntaxKind := t.data.kind

def region (t : Tree) : Region := t.data.region

def status (t : Tree) : Status := t.data.status

def text (t : Tree) : Option String := t.data.text

def leaf (data : NodeData) : Tree := .node data [] none

/-- Whether the root is an embedding node. -/
def isEmbedding (t : Tree) : Bool := t.data.embedding.isSome

mutual
/-- Number of nodes, foreign trees not counted. -/
def size : Tree → Nat
  | .node _ children _ => 1 + sizes children

/-- Number of nodes of several trees. -/
def sizes : List Tree → Nat
  | [] => 0
  | t :: ts => t.size + sizes ts
end

mutual
/-- The subtrees in pre-order, foreign trees not included. -/
def preorder : Tree → List Tree
  | .node data children foreign => .node data children foreign :: preorders children

/-- The subtrees of several trees in pre-order. -/
def preorders : List Tree → List Tree
  | [] => []
  | t :: ts => t.preorder ++ preorders ts
end

mutual
/-- The subtree whose root has number `id`. -/
def get? : Nat → Tree → Option Tree
  | 0, t => some t
  | id + 1, .node _ children _ => getAmong? id children

/-- The subtree with number `id` of trees that are numbered one after the other. -/
def getAmong? : Nat → List Tree → Option Tree
  | _, [] => none
  | id, t :: ts => if id < t.size then t.get? id else getAmong? (id - t.size) ts
end

mutual
/-- The tree in which `f` has been applied to the subtree with number `id`, and `above` to what
each node over it says about itself. -/
def modify (above : NodeData → NodeData) (f : Tree → Tree) : Nat → Tree → Tree
  | 0, t => f t
  | id + 1, .node data children foreign =>
    .node (above data) (modifyAmong above f id children) foreign

/-- The same for trees that are numbered one after the other. -/
def modifyAmong (above : NodeData → NodeData) (f : Tree → Tree) : Nat → List Tree → List Tree
  | _, [] => []
  | id, t :: ts =>
    if id < t.size then t.modify above f id :: ts else t :: modifyAmong above f (id - t.size) ts
end

/-- The tree with another foreign tree at its root. -/
def withForeign (foreign : Option Tree) : Tree → Tree
  | .node data children _ => .node data children foreign

/-- The tree in which the root says something else about itself. -/
def mapData (f : NodeData → NodeData) : Tree → Tree
  | .node data children foreign => .node (f data) children foreign

section Changes

variable (foreign : Option Tree) (f : NodeData → NodeData) (t : Tree)

@[simp] theorem data_withForeign : (t.withForeign foreign).data = t.data := by cases t; rfl

@[simp] theorem children_withForeign : (t.withForeign foreign).children = t.children := by
  cases t; rfl

@[simp] theorem foreign_withForeign : (t.withForeign foreign).foreign = foreign := by cases t; rfl

@[simp] theorem data_mapData : (t.mapData f).data = f t.data := by cases t; rfl

@[simp] theorem children_mapData : (t.mapData f).children = t.children := by cases t; rfl

@[simp] theorem foreign_mapData : (t.mapData f).foreign = t.foreign := by cases t; rfl

end Changes

/-- Trees that are numbered one after the other from `id` on, each with its number. -/
def numbered (id : Nat) : List Tree → List (Nat × Tree)
  | [] => []
  | t :: ts => (id, t) :: numbered (id + t.size) ts

def numberedChildren (id : Nat) (t : Tree) : List (Nat × Tree) := numbered (id + 1) t.children

def child? (t : Tree) (index : Nat) : Except Fault Tree :=
  match t.children[index]? with
  | some child => .ok child
  | none => .error (.noChild index t.children.length)

@[simp] theorem size_pos (t : Tree) : 0 < t.size := by
  cases t
  simp only [size]
  omega

/-- Number of nodes of the trees of a worklist. -/
def pendingSize (pending : List (Nat × Tree)) : Nat := sizes (pending.map Prod.snd)

theorem sizes_append (ts us : List Tree) : sizes (ts ++ us) = sizes ts + sizes us := by
  induction ts with
  | nil => simp [sizes]
  | cons t ts ih => simp [sizes, ih, Nat.add_assoc]

theorem map_snd_numbered (id : Nat) (ts : List Tree) : (numbered id ts).map Prod.snd = ts := by
  induction ts generalizing id with
  | nil => rfl
  | cons t ts ih => simp [numbered, ih]

theorem pendingSize_expand (id : Nat) (t : Tree) (pending : List (Nat × Tree)) :
    pendingSize (t.numberedChildren id ++ pending) < pendingSize ((id, t) :: pending) := by
  cases t
  simp only [pendingSize, numberedChildren, children, List.map_append, map_snd_numbered,
    sizes_append, List.map_cons, sizes, size]
  omega

/-- Numbers of the embedding nodes of the subtrees that are still to be visited. A visited node
is replaced by its children. -/
def embeddingIdsOf : List (Nat × Tree) → List Nat
  | [] => []
  | (id, t) :: pending =>
    (if t.isEmbedding then [id] else []) ++ embeddingIdsOf (t.numberedChildren id ++ pending)
termination_by pending => pendingSize pending
decreasing_by exact pendingSize_expand id t pending

end Tree

/-- A syntax tree of a language. -/
structure Ast where
  language : String
  root : Tree
deriving Repr, Inhabited

namespace Ast

/-- Number of nodes, foreign trees not counted. -/
def size (ast : Ast) : Nat := ast.root.size

/-- A node together with its number and the numbers of the nodes above it, nearest first. -/
structure Node where
  id : Nat
  tree : Tree
  ancestors : List Nat
deriving Inhabited

end Ast

namespace Tree

mutual
/-- The nodes of a tree in pre-order, numbered from `id` on, below the given nodes. -/
def nodesFrom (id : Nat) (ancestors : List Nat) : Tree → List Ast.Node
  | .node data children foreign =>
    ⟨id, .node data children foreign, ancestors⟩ ::
      nodesAmong (id + 1) (id :: ancestors) children

/-- The nodes of several trees in pre-order. -/
def nodesAmong (id : Nat) (ancestors : List Nat) : List Tree → List Ast.Node
  | [] => []
  | t :: ts => t.nodesFrom id ancestors ++ nodesAmong (id + t.size) ancestors ts
end

end Tree

namespace Ast

/-- All nodes in pre-order. -/
def nodes (ast : Ast) : List Node := ast.root.nodesFrom 0 []

def node? (ast : Ast) (id : Nat) : Option Node := ast.nodes[id]?

namespace Node

/-- Number of the node above, none for the root. -/
def parent? (n : Node) : Option Nat := n.ancestors.head?

def depth (n : Node) : Nat := n.ancestors.length

/-- Numbers of the children in source order. -/
def childIds (n : Node) : List Nat := (n.tree.numberedChildren n.id).map Prod.fst

def childId? (n : Node) (index : Nat) : Except Fault Nat :=
  match n.childIds[index]? with
  | some id => .ok id
  | none => .error (.noChild index n.childIds.length)

/-- Place of the node with number `id` among the children. -/
def childIndex? (n : Node) (id : Nat) : Option Nat := n.childIds.findIdx? (· == id)

/-- Written form of a node that names its parts. -/
def inspect (n : Node) : String :=
  "Node \x7b id: NodeId(" ++ toString n.id ++ "), kind: " ++ Text.quoted n.tree.kind.name ++
    ", region: " ++ n.tree.region.inspect ++ " \x7d"

end Node

/-- The syntax tree that the node with number `id` carries. -/
def foreign? (ast : Ast) (id : Nat) : Option Ast := do
  let t ← ast.root.get? id
  let embedding ← t.data.embedding
  let foreign ← t.foreign
  some ⟨embedding.language, foreign⟩

/-- Applies `f` to what the node with number `id` says about itself. -/
def modifyData (ast : Ast) (id : Nat) (f : NodeData → NodeData) : Ast :=
  { ast with root := ast.root.modify (fun above => above) (Tree.mapData f) id }

/-- Attaches an object to the node with number `id`. -/
def attach (ast : Ast) (id : Nat) (a : Attachment) : Ast :=
  ast.modifyData id fun data => { data with attachments := data.attachments.add a }

/-- Takes an object off the node with number `id` and says whether it was attached there. -/
def detach (ast : Ast) (id : Nat) (a : Attachment) : Bool × Ast :=
  match ast.root.get? id with
  | none => (false, ast)
  | some t =>
    let (removed, attachments) := t.data.attachments.remove a
    (removed, ast.modifyData id fun data => { data with attachments })

/-- Says more about the status of the node with number `id`. What is said has to be about a part
of the node's region. -/
def addDetail (ast : Ast) (id identity : Nat) (detail : StatusDetail) : Except Fault Ast :=
  match ast.root.get? id with
  | none => .error (.internal s!"lost AST node {displayId id}")
  | some t =>
    if t.region.containsRegion detail.region then .ok (ast.attach id ⟨identity, .detail detail⟩)
    else
      .error (.contract (s!"status detail region {detail.region.display} is outside " ++
        s!"node region {t.region.display}"))

/-- Lets the node with number `id` carry a foreign tree in place of the one it carries, if any.
The node has to be an embedding node of the tree's language, and its region has to contain the
region of the tree. -/
def attachForeign (ast : Ast) (id : Nat) (foreign : Ast) : Except Fault Ast :=
  match ast.root.get? id with
  | none => .error (.noChild id ast.size)
  | some t =>
    match t.data.embedding with
    | none => .error (.contract s!"node {displayId id} ({t.kind.name}) is not an embedding node")
    | some embedding =>
      if !t.region.containsRegion foreign.root.region then
        .error (.contract (s!"foreign tree {foreign.root.region.display} exceeds " ++
          s!"embedding node {t.region.display}"))
      else if foreign.language != embedding.language then
        .error (.contract (s!"foreign tree language '{foreign.language}' does not match " ++
          s!"embedding type '{embedding.language}'"))
      else
        .ok { ast with
          root := ast.root.modify (fun above => above) (Tree.withForeign (some foreign.root)) id }

/-- Puts `foreign` in the place of the tree that the node with number `id` carries. -/
def putForeign (ast : Ast) (id : Nat) (foreign : Ast) : Ast :=
  { ast with
    root := ast.root.modify (fun above => above) (Tree.withForeign (some foreign.root)) id }

/-- Numbers of the embedding nodes in source order. -/
def embeddingIds (ast : Ast) : List Nat := Tree.embeddingIdsOf [(0, ast.root)]

end Ast

end SourceModel
