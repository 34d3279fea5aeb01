import SourceModel.Calc.Kinds
import SourceModel.NameAccess
import SourceModel.Outline

/-!
# Outline and names of a calc unit

In the outline of a unit an assignment is a declaration below the unit, and a template is an
embedded part: a template inside an assignment lies below its declaration, and any other one right
below the unit. The target of an assignment is written there; every other name is read.
-/

namespace SourceModel.Calc

def templateElementName : ElementName := .simple "template"

def outlineTemplate (b : OutlineBuilder) (parent : Nat) (n : Ast.Node) :
    Except Fault OutlineBuilder := do
  let (_, b) ← b.add parent .embeddedPart templateElementName n.tree.region none (some n.id)
  return b

/-- Adds the templates inside the expressions of a statement. -/
def outlineTemplates (b : OutlineBuilder) (parent : Nat) (statement : List Ast.Node) :
    Except Fault OutlineBuilder :=
  (statement.filter fun n => n.tree.kind = Kind.templateExpr).foldlM
    (fun b n => outlineTemplate b parent n) b

def target? (assignment : Tree) : Option Tree :=
  assignment.children.head?.filter fun t => t.kind = Kind.name

/-- Adds what a statement declares and embeds. -/
def outlineStatement (b : OutlineBuilder) (id : Nat) (statement : Tree) :
    Except Fault OutlineBuilder := do
  let nodes := statement.nodesFrom id [0]
  if statement.kind = Kind.assignment then
    let name := target? statement
    let (declaration, b) ← b.add OutlineBuilder.root .declaration
      (.simple ((name.bind Tree.text).getD "")) statement.region (name.map Tree.region) (some id)
    outlineTemplates b declaration nodes
  else if statement.kind = Kind.templateBlock then
    outlineTemplate b OutlineBuilder.root ⟨id, statement, [0]⟩
  else outlineTemplates b OutlineBuilder.root nodes

/-- The outline of a unit from its syntax tree and the size of its text. -/
def outline (unit : String) (size : Nat) (ast : Ast) : Except Fault Outline := do
  let range ← Region.make? 0 size
  let b ← (ast.root.numberedChildren 0).foldlM
    (fun b (id, statement) => outlineStatement b id statement)
    (OutlineBuilder.start language unit range false)
  return b.finish

def accessOf (n : Ast.Node) (label : String) (node : Nat) (isWrite : Bool) : NameAccess where
  label := label
  node := node
  nameNode := n.id
  region := n.tree.region
  isWrite := isWrite

def nameAccess? (n : Ast.Node) : Option NameAccess := do
  let label ← n.tree.text
  if n.tree.kind = Kind.name then some (accessOf n label (n.parent?.getD n.id) true)
  else if n.tree.kind = Kind.nameRef then some (accessOf n label n.id false)
  else none

/-- The name accesses of a syntax tree in the order of the tree. -/
def nameAccesses (ast : Ast) : List NameAccess := ast.nodes.filterMap nameAccess?

end SourceModel.Calc
