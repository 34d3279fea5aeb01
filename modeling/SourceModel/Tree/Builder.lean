import SourceModel.Tree
import SourceModel.Word

/-!
# Building syntax trees

A front end opens a node, adds what lies below it and closes it again. The builder refuses whatever
would break the rules for regions: a child starts neither before its parent nor inside its previous
sibling, a node ends neither before it starts nor before its last child ends, and there is one
root. A call that is refused changes nothing, except that `finishNode` has always closed the node.
-/

namespace SourceModel

/-- A node that is still open, with the children that are already finished. -/
structure OpenNode where
  data : NodeData
  children : List Tree := []
deriving Inhabited

namespace OpenNode

/-- Number of nodes from here down. -/
def size (node : OpenNode) : Nat := 1 + Tree.sizes node.children

def toTree (node : OpenNode) : Tree := .node node.data node.children none

end OpenNode

/-- State of the construction: the open nodes, innermost first, and the root once it is closed. -/
structure TreeBuilder where
  language : String
  openNodes : List OpenNode := []
  root? : Option Tree := none
deriving Inhabited

namespace TreeBuilder

inductive Refusal where
  | unmatchedFinish
  | endsBeforeChild (id stop childStop : Nat)
  | startsBeforeParent (child : String) (start : Nat) (parent : String) (parentStart : Nat)
  | overlapsSibling (child : String) (start siblingStop : Nat)
  | secondRoot
  | stillOpen (count innermost : Nat)
  | noRoot
deriving DecidableEq, Repr

def Refusal.message : Refusal → String
  | unmatchedFinish => "finish_node without matching start_node"
  | endsBeforeChild id stop childStop =>
    s!"node {displayId id} ends at {stop} before its last child ends at {childStop}"
  | startsBeforeParent child start parent parentStart =>
    s!"child {child} at {start} starts before parent {parent} at {parentStart}"
  | overlapsSibling child start siblingStop =>
    s!"child {child} at {start} overlaps previous sibling ending at {siblingStop}"
  | secondRoot => "AST already has a root node"
  | stillOpen count innermost => s!"{count} node(s) still open, innermost {displayId innermost}"
  | noRoot => "AST has no root node"

def Refusal.fault (refusal : Refusal) : Fault := .contract refusal.message

/-- Number of nodes below and in the given open nodes. -/
def countOpen : List OpenNode → Nat
  | [] => 0
  | node :: outer => countOpen outer + node.size

/-- Number of nodes so far. It is the number of the node that is added next. -/
def size (b : TreeBuilder) : Nat := countOpen b.openNodes + (b.root?.elim 0 Tree.size)

/-- Number of the innermost open node. -/
def current? (b : TreeBuilder) : Option Nat :=
  match b.openNodes with
  | [] => none
  | _ :: outer => some (countOpen outer)

/-- Greatest number of nodes of a tree. -/
def maxNodes : Nat := halfWordLimit

/-- Whether a node of this kind may be added at `start`. -/
def checkStart (b : TreeBuilder) (kind : SyntaxKind) (start : Nat) : Except Fault Unit := do
  match b.openNodes with
  | parent :: _ =>
    if start < parent.data.region.offset then
      throw (Refusal.startsBeforeParent kind.name start parent.data.kind.name
        parent.data.region.offset).fault
    if let some sibling := parent.children.getLast? then
      if start < sibling.region.stop then
        throw (Refusal.overlapsSibling kind.name start sibling.region.stop).fault
  | [] => if b.root?.isSome then throw Refusal.secondRoot.fault
  if b.size ≥ maxNodes then throw (.internal "AST arena exceeds u32 node ids")

/-- The builder with a finished tree below the innermost open node, or as the root. -/
def add (b : TreeBuilder) (t : Tree) : TreeBuilder :=
  match b.openNodes with
  | [] => { b with root? := some t }
  | parent :: outer =>
    { b with openNodes := { parent with children := parent.children ++ [t] } :: outer }

/-- Opens a node at `offset`; what follows lies below it. -/
def startNode (b : TreeBuilder) (kind : SyntaxKind) (offset : Nat) :
    Except Fault (Nat × TreeBuilder) := do
  let region ← Region.empty? offset
  b.checkStart kind offset
  return (b.size, { b with openNodes := { data := { kind, region } } :: b.openNodes })

/-- Adds a finished node without children. -/
def addLeaf (b : TreeBuilder) (data : NodeData) : Except Fault (Nat × TreeBuilder) := do
  b.checkStart data.kind data.region.offset
  return (b.size, b.add (.leaf data))

/-- Adds a node without children. -/
def leaf (b : TreeBuilder) (kind : SyntaxKind) (region : Region) :
    Except Fault (Nat × TreeBuilder) :=
  b.addLeaf { kind, region }

/-- Adds a node without children that carries a text. -/
def textLeaf (b : TreeBuilder) (kind : SyntaxKind) (region : Region) (text : String) :
    Except Fault (Nat × TreeBuilder) :=
  b.addLeaf { kind, region, text := some text }

/-- What a node says about itself once it ends at `stop`. -/
def closeData (id : Nat) (node : OpenNode) (stop : Nat) : Except Fault NodeData := do
  if let some child := node.children.getLast? then
    if stop < child.region.stop then
      throw (Refusal.endsBeforeChild id stop child.region.stop).fault
  let region ← Region.ofBounds? node.data.region.offset stop
  let status :=
    if node.children.any fun child => child.status.hasAnyError then node.data.status.markBelow
    else node.data.status
  return { node.data with region, status }

/-- Closes the innermost open node at `stop`. The node is closed even if the end is refused; it
then keeps the empty region with which it was opened. -/
def finishNode (b : TreeBuilder) (stop : Nat) : Except Fault Nat × TreeBuilder :=
  match b.openNodes with
  | [] => (.error Refusal.unmatchedFinish.fault, b)
  | node :: outer =>
    let id := countOpen outer
    let closed := closeData id node stop
    let data := closed.toOption.getD node.data
    (closed.map fun _ => id, { b with openNodes := outer }.add (.node data node.children none))

/-- Applies `f` to what the node with number `id` says about itself, and `above` to what each
finished node over it says. -/
def modifyOpen (above f : NodeData → NodeData) (id : Nat) : List OpenNode → List OpenNode
  | [] => []
  | node :: outer =>
    let start := countOpen outer
    if id < start then node :: modifyOpen above f id outer
    else if id = start then { node with data := f node.data } :: outer
    else
      { node with
        children := Tree.modifyAmong above (Tree.mapData f) (id - start - 1) node.children }
        :: outer

/-- The same for all nodes of the builder; the number has to exist. -/
def modifyData (b : TreeBuilder) (above f : NodeData → NodeData) (id : Nat) :
    Except Fault TreeBuilder :=
  if id < b.size then
    .ok { b with
      openNodes := modifyOpen above f id b.openNodes
      root? := b.root?.map (Tree.modify above (Tree.mapData f) id) }
  else .error (.noChild id b.size)

def setText (b : TreeBuilder) (id : Nat) (text : String) : Except Fault TreeBuilder :=
  b.modifyData (fun above => above) (fun data => { data with text := some text }) id

/-- Gives a node a status; a mark for an error below stays. An error marks every finished node
above; the open ones are marked when they are closed. -/
def setStatus (b : TreeBuilder) (id : Nat) (status : Status) : Except Fault TreeBuilder :=
  b.modifyData
    (fun above =>
      if status.hasAnyError then { above with status := above.status.markBelow } else above)
    (fun data =>
      { data with
        status :=
          { status with hasErrorBelow := status.hasErrorBelow || data.status.hasErrorBelow } })
    id

/-- Makes a node an embedding node. -/
def markEmbedding (b : TreeBuilder) (id : Nat) (language : String) (flags : EmbeddingFlags) :
    Except Fault TreeBuilder :=
  b.modifyData (fun above => above)
    (fun data => { data with embedding := some ⟨language, flags⟩ }) id

/-- The finished tree; every node has to be closed. -/
def finish (b : TreeBuilder) : Except Fault Ast :=
  match b.openNodes, b.root? with
  | _ :: outer, _ => .error (Refusal.stillOpen b.openNodes.length (countOpen outer)).fault
  | [], none => .error Refusal.noRoot.fault
  | [], some root => .ok ⟨b.language, root⟩

end TreeBuilder

end SourceModel
