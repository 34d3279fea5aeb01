import SourceModel.Calc.Lowering
import SourceModel.Proofs.Tree.Building

/-!
# Drafts

A draft is what the lowering makes of a concrete tree, without the builder: the nodes that are
added, in the shape of a tree. Each entry says which fault it stands for and which template is
still to be attached to it.
-/

namespace SourceModel.Calc

open SourceModel.Tree (sizes NestedIn)

/-- Why a node is in error: the grammar is broken there, or a token lacks its end. -/
inductive Slip where
  | grammar
  | unterminated (fault : LexicalFault)
deriving DecidableEq, Repr

/-- A node as the lowering adds it. -/
structure Entry where
  data : NodeData
  slip : Option Slip := none
  /-- Position and text of the template whose tree is still to be attached. -/
  chunk : Option (Nat × String) := none

/-- The entry of a token that is closed or lacks its end. -/
def Entry.judged (e : Entry) (closed : Bool) (fault : LexicalFault) : Entry :=
  if closed then e
  else
    { e with
      data := { e.data with status := .error unterminatedCode }
      slip := some (.unterminated fault) }

section Judged

variable (e : Entry) (closed : Bool) (fault : LexicalFault)

@[simp] theorem kind_judged : (e.judged closed fault).data.kind = e.data.kind := by
  cases closed <;> rfl

@[simp] theorem text_judged : (e.judged closed fault).data.text = e.data.text := by
  cases closed <;> rfl

@[simp] theorem region_judged : (e.judged closed fault).data.region = e.data.region := by
  cases closed <;> rfl

@[simp] theorem embedding_judged :
    (e.judged closed fault).data.embedding = e.data.embedding := by
  cases closed <;> rfl

@[simp] theorem chunk_judged : (e.judged closed fault).chunk = e.chunk := by
  cases closed <;> rfl

end Judged

/-- Entries in the shape of a tree. -/
inductive Draft where
  | node (entry : Entry) (children : List Draft)

namespace Draft

mutual
def tree : Draft → Tree
  | .node entry children => .node entry.data (trees children) none

def trees : List Draft → List Tree
  | [] => []
  | d :: ds => d.tree :: trees ds
end

mutual
def entries : Draft → List Entry
  | .node entry children => entry :: entriesAmong children

def entriesAmong : List Draft → List Entry
  | [] => []
  | d :: ds => d.entries ++ entriesAmong ds
end

def leaf (entry : Entry) : Draft := .node entry []

/-- A node that closes around its children. -/
def branch (kind : SyntaxKind) (region : Region) (text : Option String) (ds : List Draft) : Draft :=
  .node { data := { kind, region, status := TreeBuilder.statusOver (trees ds), text } } ds

theorem trees_append (ds es : List Draft) : trees (ds ++ es) = trees ds ++ trees es := by
  induction ds with
  | nil => rfl
  | cons d ds ih => simp only [List.cons_append, trees, ih]

theorem entriesAmong_append (ds es : List Draft) :
    entriesAmong (ds ++ es) = entriesAmong ds ++ entriesAmong es := by
  induction ds with
  | nil => rfl
  | cons d ds ih => simp only [List.cons_append, entriesAmong, ih, List.append_assoc]

@[simp] theorem entriesAmong_leaf (e : Entry) : entriesAmong [leaf e] = [e] := rfl

@[simp] theorem trees_leaf (e : Entry) : trees [leaf e] = [.leaf e.data] := rfl

mutual
theorem map_data_entries : ∀ d : Draft, d.entries.map Entry.data = d.tree.datas
  | .node entry children => by
    simp only [entries, tree, Tree.datas_node, List.map_cons, map_data_entriesAmong children]

theorem map_data_entriesAmong : ∀ ds : List Draft,
    (entriesAmong ds).map Entry.data = Tree.datasAmong (trees ds)
  | [] => rfl
  | d :: ds => by
    simp only [entriesAmong, trees, Tree.datasAmong_cons, List.map_append, map_data_entries d,
      map_data_entriesAmong ds]
end

theorem length_entriesAmong (ds : List Draft) : (entriesAmong ds).length = sizes (trees ds) := by
  rw [← Tree.length_datasAmong, ← map_data_entriesAmong, List.length_map]

end Draft

open Draft (branch leaf)

/-! ## The draft of a concrete tree -/

/-- Region of a tree that starts at `offset` where it has one. -/
def place (offset : Nat) (c : Cst) : Region := (significantRegion offset c).toOption.getD default

def textEntry (kind : SyntaxKind) (region : Region) (text : Option (Nat × String)) : Entry where
  data := { kind, region, text := some ((text.map Prod.snd).getD "") }

def literalEntry (offset : Nat) (region : Region) (children : List Cst) : Entry :=
  match Cst.findToken? .string offset children with
  | some found =>
    (textEntry Kind.string region (some found)).judged (isClosedString found.2)
      .unterminatedString
  | none => textEntry Kind.number region (Cst.findToken? .number offset children)

/-- The entry of a template whose text starts at `start`, before its end is looked at. -/
def templateEntry (kind : SyntaxKind) (flags : EmbeddingFlags) (region : Region) (start : Nat)
    (text : String) : Entry where
  data := { kind, region, text := some text, embedding := some ⟨templateLanguage, flags⟩ }
  chunk := some (start, text)

def chunkEntry (kind : SyntaxKind) (flags : EmbeddingFlags) (region : Region) (start : Nat)
    (text : String) : Entry :=
  (templateEntry kind flags region start text).judged (isClosedTemplate text)
    .unterminatedTemplate

def errorEntry (region : Region) : Entry where
  data := { kind := Kind.error, region, status := .error grammarCode }
  slip := some .grammar

def chunkDrafts (kind : SyntaxKind) (flags : EmbeddingFlags) (offset : Nat) (region : Region)
    (children : List Cst) : List Draft :=
  (Cst.findToken? .template offset children).toList.map fun (start, text) =>
    leaf (chunkEntry kind flags region start text)

def nameDrafts (offset : Nat) (children : List Cst) : List Draft :=
  (Cst.findToken? .ident offset children).toList.map fun (start, text) =>
    leaf (textEntry Kind.name (place start (.token .ident text)) (some (start, text)))

mutual
/-- The nodes for a tree that starts at `offset`. -/
def drafts (offset : Nat) : Cst → List Draft
  | .token _ _ => []
  | .node kind children =>
    let region := place offset (.node kind children)
    match kind with
    | .assignment =>
      [branch Kind.assignment region none
        (nameDrafts offset children ++ draftsAmong offset children)]
    | .exprStatement => [branch Kind.exprStatement region none (draftsAmong offset children)]
    | .paren => [branch Kind.paren region none (draftsAmong offset children)]
    | .binary =>
      [branch Kind.binary region (Cst.firstSignificant? children) (draftsAmong offset children)]
    | .nameRef => [leaf (textEntry Kind.nameRef region (Cst.findToken? .ident offset children))]
    | .literal => [leaf (literalEntry offset region children)]
    | .templateStatement => chunkDrafts Kind.templateBlock .chunk offset region children
    | .templateExpr => chunkDrafts Kind.templateExpr .inExpression offset region children
    | .error => [leaf (errorEntry region)]
    | .program => []

def draftsAmong (offset : Nat) : List Cst → List Draft
  | [] => []
  | c :: cs => drafts offset c ++ draftsAmong (offset + c.width) cs
end

namespace Cst

mutual
def nodeCount : Cst → Nat
  | .token _ _ => 0
  | .node kind children =>
    match kind with
    | .assignment => 2 + nodeCounts children
    | .program | .exprStatement | .paren | .binary => 1 + nodeCounts children
    | .nameRef | .literal | .templateStatement | .templateExpr | .error => 1

def nodeCounts : List Cst → Nat
  | [] => 0
  | c :: cs => c.nodeCount + nodeCounts cs
end

mutual
/-- What holds of tokens and passes from children to nodes holds of all trees. -/
theorem induction {P : Cst → Prop} (token : ∀ kind text, P (.token kind text))
    (node : ∀ kind children, (∀ c ∈ children, P c) → P (.node kind children)) : ∀ c, P c
  | .token kind text => token kind text
  | .node kind children => node kind children (inductionAmong token node children)

private theorem inductionAmong {P : Cst → Prop} (token : ∀ kind text, P (.token kind text))
    (node : ∀ kind children, (∀ c ∈ children, P c) → P (.node kind children)) :
    ∀ (cs : List Cst) (d : Cst), d ∈ cs → P d
  | [], _, hd => nomatch hd
  | c :: cs, d, hd => by
    have hc := induction token node c
    have hcs := inductionAmong token node cs
    rcases List.mem_cons.1 hd with rfl | hd
    · exact hc
    · exact hcs d hd
end

theorem widths_append (cs ds : List Cst) : widths (cs ++ ds) = widths cs + widths ds := by
  induction cs with
  | nil => simp [widths]
  | cons c cs ih => simp only [List.cons_append, widths, ih, Nat.add_assoc]

theorem nodeCounts_append (cs ds : List Cst) :
    nodeCounts (cs ++ ds) = nodeCounts cs + nodeCounts ds := by
  induction cs with
  | nil => simp [nodeCounts]
  | cons c cs ih => simp only [List.cons_append, nodeCounts, ih, Nat.add_assoc]

end Cst

theorem draftsAmong_append (offset : Nat) (cs ds : List Cst) :
    draftsAmong offset (cs ++ ds) =
      draftsAmong offset cs ++ draftsAmong (offset + Cst.widths cs) ds := by
  induction cs generalizing offset with
  | nil => simp [draftsAmong, Cst.widths]
  | cons c cs ih =>
    simp only [List.cons_append, draftsAmong, ih, Cst.widths, List.append_assoc, Nat.add_assoc]

end SourceModel.Calc
