import SourceModel.Calc.Parser
import SourceModel.Calc.Template
import SourceModel.Level

/-!
# From concrete trees to syntax trees

The syntax tree leaves out trivia and punctuation. The region of a node reaches from the first to
the last significant token below it, where an empty error node counts with its position; so
children lie inside their parents.

An error node takes the message of the fault that it stands for: the faults of the grammar and the
error nodes are in the same order.
-/

namespace SourceModel.Calc

/-- The least bounds that contain both. -/
def coverBounds : Option (Nat × Nat) → Option (Nat × Nat) → Option (Nat × Nat)
  | none, b => b
  | a, none => a
  | some (start, stop), some (start', stop') => some (min start start', max stop stop')

mutual
/-- Bounds of the significant tokens and empty error nodes of a tree that starts at `offset`. -/
def significantBounds (offset : Nat) : Cst → Option (Nat × Nat)
  | .token kind text => if kind.isTrivia then none else some (offset, offset + Text.size text)
  | .node kind children =>
    if kind = .error ∧ Cst.widths children = 0 then some (offset, offset)
    else significantBoundsAmong offset children

/-- The same for several trees. -/
def significantBoundsAmong (offset : Nat) : List Cst → Option (Nat × Nat)
  | [] => none
  | c :: cs =>
    coverBounds (significantBounds offset c) (significantBoundsAmong (offset + c.width) cs)
end

/-- Region of a tree that starts at `offset`, without the trivia around it. -/
def significantRegion (offset : Nat) (c : Cst) : Except Fault Region :=
  match significantBounds offset c with
  | some (start, stop) => Region.ofBounds? start stop
  | none => Region.empty? offset

/-- A template whose tree is still to be attached. -/
structure PendingTemplate where
  node : Nat
  offset : Nat
  text : String
deriving DecidableEq, Repr

/-- State of the lowering: the tree so far, the messages that are left for error nodes, what is to
be said about the status of nodes, and the templates. -/
structure Lowering where
  builder : TreeBuilder
  messages : List String
  details : List (Nat × String) := []
  templates : List PendingTemplate := []

abbrev LowerM := StateT Lowering (Except Fault)

namespace LowerM

def node (call : TreeBuilder → Except Fault (Nat × TreeBuilder)) : LowerM Nat := do
  let state ← get
  let (id, builder) ← call state.builder
  set { state with builder }
  return id

def update (call : TreeBuilder → Except Fault TreeBuilder) : LowerM Unit := do
  let state ← get
  let builder ← call state.builder
  set { state with builder }

def finishNode (stop : Nat) : LowerM Unit := do
  let state ← get
  let (closed, builder) := state.builder.finishNode stop
  let _ ← closed
  set { state with builder }

/-- Says why a node is in error. -/
def explain (id : Nat) (message : String) : LowerM Unit :=
  modify fun state => { state with details := state.details ++ [(id, message)] }

/-- Marks a node that lacks its end. -/
def unterminated (id : Nat) (fault : LexicalFault) : LowerM Unit := do
  update (·.setStatus id (.error unterminatedCode))
  explain id fault.message

/-- The message for the next error node. -/
def nextMessage : LowerM String := do
  let state ← get
  match state.messages with
  | [] => return "syntax error"
  | message :: messages =>
    set { state with messages }
    return message

end LowerM

/-- Whether the text of a string literal ends with a quote of its own. -/
def isClosedString (text : String) : Bool := 2 ≤ Text.size text && text.toList.getLast? == some '"'

/-- Adds the leaf of a name, a number or a string. -/
def lowerText (kind : SyntaxKind) (region : Region) (text : Option (Nat × String)) : LowerM Unit :=
  discard <| LowerM.node (·.textLeaf kind region ((text.map Prod.snd).getD ""))

/-- Adds the leaf of a literal. -/
def lowerLiteral (offset : Nat) (region : Region) (children : List Cst) : LowerM Unit := do
  match Cst.findToken? .string offset children with
  | some (_, text) =>
    let id ← LowerM.node (·.textLeaf Kind.string region text)
    if !isClosedString text then LowerM.unterminated id .unterminatedString
  | none => lowerText Kind.number region (Cst.findToken? .number offset children)

/-- Adds the leaf of a template. -/
def lowerTemplate (kind : SyntaxKind) (flags : EmbeddingFlags) (offset : Nat) (region : Region)
    (children : List Cst) : LowerM Unit := do
  match Cst.findToken? .template offset children with
  | none => throw (.internal s!"template node at {region.display} has no chunk")
  | some (start, text) =>
    let id ← LowerM.node (·.textLeaf kind region text)
    LowerM.update (·.markEmbedding id templateLanguage flags)
    if !isClosedTemplate text then LowerM.unterminated id .unterminatedTemplate
    modify fun state => { state with templates := state.templates ++ [⟨id, start, text⟩] }

def lowerError (region : Region) : LowerM Unit := do
  let id ← LowerM.node (·.leaf Kind.error region)
  LowerM.update (·.setStatus id (.error grammarCode))
  let message ← LowerM.nextMessage
  LowerM.explain id message

mutual
/-- Adds the nodes of a tree that starts at `offset`. -/
def lowerCst (offset : Nat) : Cst → LowerM Unit
  | .token _ _ => pure ()
  | .node kind children => do
    let region ← significantRegion offset (.node kind children)
    match kind with
    | .assignment =>
      let _ ← LowerM.node (·.startNode Kind.assignment region.offset)
      if let some (start, text) := Cst.findToken? .ident offset children then
        let nameRegion ← Region.ofBounds? start (start + Text.size text)
        let _ ← LowerM.node (·.textLeaf Kind.name nameRegion text)
      lowerAmong offset children
      LowerM.finishNode region.stop
    | .exprStatement =>
      let _ ← LowerM.node (·.startNode Kind.exprStatement region.offset)
      lowerAmong offset children
      LowerM.finishNode region.stop
    | .paren =>
      let _ ← LowerM.node (·.startNode Kind.paren region.offset)
      lowerAmong offset children
      LowerM.finishNode region.stop
    | .binary =>
      let id ← LowerM.node (·.startNode Kind.binary region.offset)
      if let some operator := Cst.firstSignificant? children then
        LowerM.update (·.setText id operator)
      lowerAmong offset children
      LowerM.finishNode region.stop
    | .nameRef => lowerText Kind.nameRef region (Cst.findToken? .ident offset children)
    | .literal => lowerLiteral offset region children
    | .templateStatement => lowerTemplate Kind.templateBlock .chunk offset region children
    | .templateExpr => lowerTemplate Kind.templateExpr .inExpression offset region children
    | .error => lowerError region
    | .program => throw (.internal s!"unexpected CST node Program at {region.display}")

/-- Adds the nodes of several trees, of which the first starts at `offset`. -/
def lowerAmong (offset : Nat) : List Cst → LowerM Unit
  | [] => pure ()
  | c :: cs => do
    lowerCst offset c
    lowerAmong (offset + c.width) cs
end

/-- Adds the nodes of a whole program. -/
def lowerProgram (tree : Cst) : LowerM Unit := do
  let _ ← LowerM.node (·.startNode Kind.program 0)
  match tree with
  | .token _ _ => pure ()
  | .node _ children => lowerAmong 0 children
  LowerM.finishNode tree.width

def attachTemplates (ast : Ast) (templates : List PendingTemplate) : Except Fault Ast :=
  templates.foldlM
    (fun ast t => do
      let foreign ← templateTree t.offset t.text
      ast.attachForeign t.node foreign)
    ast

/-- Attaches what is to be said about the status of nodes, each about the whole node. -/
def attachDetails (ast : Ast) (details : List (Nat × String)) : Except Fault Ast :=
  details.zipIdx.foldlM
    (fun ast ((id, message), identity) =>
      match ast.root.get? id with
      | none => .error (.internal s!"lost AST node {displayId id}")
      | some t => ast.addDetail id identity ⟨t.region, message⟩)
    ast

/-- The syntax tree of a parsed text. At the minimal level templates have no tree. -/
def lower (parse : Parse) (level : AstLevel) : Except Fault Ast := do
  let (_, state) ← (lowerProgram parse.tree).run
    { builder := { language }, messages := parse.grammarFaults.map Diagnostic.message }
  let ast ← state.builder.finish
  let ast ← if level = .full then attachTemplates ast state.templates else pure ast
  attachDetails ast state.details

end SourceModel.Calc
