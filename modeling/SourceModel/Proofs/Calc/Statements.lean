import SourceModel.Proofs.Calc.Lowered

/-!
# Statements

The nodes right below the root of a syntax tree are the statements of the text. Assignments and
template blocks are statements and stand nowhere else; in a template block there are no other nodes.
-/

namespace SourceModel.Calc

open Draft (entriesAmong trees)

def isStatementKind (kind : SyntaxKind) : Bool := kind = Kind.assignment ∨ kind = Kind.templateBlock

structure IsStatement (t : Tree) : Prop where
  inner : ∀ u ∈ Tree.preorders t.children, isStatementKind u.kind = false
  block : t.kind = Kind.templateBlock → t.children = []

/-! ## Drafts -/

section Drafts

/-- Whether no entry of some drafts can stand as a statement only. -/
def NoStatements (ds : List Draft) : Prop :=
  ∀ e ∈ entriesAmong ds, isStatementKind e.data.kind = false

variable {ds : List Draft} {kind : SyntaxKind} {region : Region} {text : Option String}

private theorem NoStatements.kind_eq (h : NoStatements ds) :
    ∀ u ∈ Tree.preorders (trees ds), isStatementKind u.kind = false := by
  intro u hu
  have hdata : u.data ∈ Tree.datasAmong (trees ds) := List.mem_map_of_mem hu
  rw [← Draft.map_data_entriesAmong] at hdata
  obtain ⟨e, he, heq⟩ := List.mem_map.1 hdata
  rw [Tree.kind, ← heq]
  exact h e he

/-- The drafts of items that stand inside a statement, wherever they lie. -/
def Inside (cs : List Cst) : Prop := ∀ lo, NoStatements (draftsAmong lo cs)

/-- The drafts of items that stand as statements, wherever they lie. -/
def AsStatements (cs : List Cst) : Prop := ∀ lo, ∀ t ∈ trees (draftsAmong lo cs), IsStatement t

private theorem isStatement_of_noStatements (h : NoStatements ds) :
    ∀ t ∈ trees ds, IsStatement t := by
  induction ds with
  | nil => exact List.forall_mem_nil _
  | cons d ds ih =>
    obtain ⟨e, children⟩ := d
    obtain ⟨hd, hds⟩ := List.forall_mem_append.1 h
    obtain ⟨he, hchildren⟩ := List.forall_mem_cons.1 hd
    have hkind : e.data.kind ≠ Kind.templateBlock := (not_or.1 (of_decide_eq_false he)).2
    refine List.forall_mem_cons.2 ⟨⟨?_, fun hk => absurd hk hkind⟩, ih hds⟩
    exact NoStatements.kind_eq hchildren

end Drafts

/-! ## Readings -/

section Items

variable {cs ds : List Cst} {ts : List Token} {t : Token} {kind : SyntaxKind} {c : Cst}

private theorem Inside.leaves (ts : List Token) : Inside (ts.map Token.leaf) := by
  intro lo
  rw [draftsAmong_leaves]
  exact List.forall_mem_nil _

private theorem Inside.append (h : Inside cs) (h' : Inside ds) : Inside (cs ++ ds) := by
  intro lo
  rw [draftsAmong_append, NoStatements, Draft.entriesAmong_append]
  exact List.forall_mem_append.2 ⟨h lo, h' _⟩

private theorem Inside.leaf
    (hd : ∀ lo, ∃ e, drafts lo c = [.leaf e] ∧ isStatementKind e.data.kind = false) :
    Inside [c] := by
  intro lo
  obtain ⟨e, hdrafts, he⟩ := hd lo
  rw [draftsAmong, draftsAmong, List.append_nil, hdrafts, NoStatements, Draft.entriesAmong_leaf]
  exact List.forall_mem_singleton.2 he

private theorem Inside.branch (hk : isStatementKind kind = false)
    (hd : ∀ lo, ∃ region text, drafts lo c = [.branch kind region text (draftsAmong lo cs)])
    (h : Inside cs) : Inside [c] := by
  intro lo
  obtain ⟨region, text, hdrafts⟩ := hd lo
  rw [draftsAmong, draftsAmong, List.append_nil, hdrafts, NoStatements, Draft.branch, entriesAmong,
    Draft.entries, entriesAmong, List.append_nil]
  exact List.forall_mem_cons.2 ⟨hk, h lo⟩

private theorem Inside.paren (h : Inside cs) : Inside [.node .paren cs] :=
  h.branch (by decide) fun _ => ⟨_, _, rfl⟩

private theorem Inside.binary (h : Inside cs) : Inside [.node .binary cs] :=
  h.branch (by decide) fun _ => ⟨_, _, rfl⟩

private theorem Inside.exprStatement (h : Inside cs) : Inside [.node .exprStatement cs] :=
  h.branch (by decide) fun _ => ⟨_, _, rfl⟩

private theorem inside_error (cs : List Cst) : Inside [.node .error cs] :=
  .leaf fun _ => ⟨_, rfl, (by decide : isStatementKind Kind.error = false)⟩

private theorem inside_nameRef (cs : List Cst) : Inside [.node .nameRef cs] :=
  .leaf fun _ => ⟨_, rfl, (by decide : isStatementKind Kind.nameRef = false)⟩

private theorem inside_literal (cs : List Cst) : Inside [.node .literal cs] := by
  refine .leaf fun lo => ⟨_, rfl, ?_⟩
  unfold literalEntry
  split
  · rw [kind_judged]
    exact (by decide : isStatementKind Kind.string = false)
  · exact (by decide : isStatementKind Kind.number = false)

private theorem inside_templateExpr (hk : t.kind = .template) :
    Inside [.node .templateExpr [t.leaf]] := by
  refine .leaf fun lo => ⟨chunkEntry Kind.templateExpr .inExpression
    (place lo (.node .templateExpr [t.leaf])) lo t.text, ?_, ?_⟩
  · simp [drafts, chunkDrafts, Token.leaf, Cst.findToken?, hk]
  · rw [chunkEntry, kind_judged]
    exact (by decide : isStatementKind Kind.templateExpr = false)

private theorem Inside.asStatements (h : Inside cs) : AsStatements cs :=
  fun lo => isStatement_of_noStatements (h lo)

private theorem AsStatements.append (h : AsStatements cs) (h' : AsStatements ds) :
    AsStatements (cs ++ ds) := by
  intro lo
  rw [draftsAmong_append, Draft.trees_append]
  exact List.forall_mem_append.2 ⟨h lo, h' _⟩

private theorem AsStatements.assignment (h : Inside cs) : AsStatements [.node .assignment cs] := by
  intro lo
  have hname : NoStatements (nameDrafts lo cs) := by
    unfold nameDrafts
    cases Cst.findToken? .ident lo cs with
    | none => exact List.forall_mem_nil _
    | some found =>
      exact List.forall_mem_singleton.2 (by decide : isStatementKind Kind.name = false)
  have hinner : NoStatements (nameDrafts lo cs ++ draftsAmong lo cs) := by
    rw [NoStatements, Draft.entriesAmong_append]
    exact List.forall_mem_append.2 ⟨hname, h lo⟩
  refine List.forall_mem_singleton.2 ⟨hinner.kind_eq, fun hk => ?_⟩
  exact absurd hk (by decide : Kind.assignment ≠ Kind.templateBlock)

private theorem AsStatements.templateStatement (cs : List Cst) :
    AsStatements [.node .templateStatement cs] := by
  intro lo
  rw [draftsAmong, draftsAmong, List.append_nil, drafts, chunkDrafts]
  cases Cst.findToken? .template lo cs with
  | none => exact List.forall_mem_nil _
  | some found => exact List.forall_mem_singleton.2 ⟨List.forall_mem_nil _, fun _ => rfl⟩

/-- The items of a phrase are statements, or they stand inside one. -/
def Phrase.Shapes : Phrase → List Cst → Prop
  | statement, cs | program, cs => AsStatements cs
  | _, cs => Inside cs

private theorem Phrase.shapes_of_inside (p : Phrase) (h : Inside cs) : p.Shapes cs := by
  cases p with
  | statement | program => exact h.asStatements
  | factor | term | expr | closing => exact h

private theorem Phrase.Shapes.append {p : Phrase} (h : p.Shapes cs) (h' : p.Shapes ds) :
    p.Shapes (cs ++ ds) := by
  cases p with
  | statement | program => exact AsStatements.append h h'
  | factor | term | expr | closing => exact Inside.append h h'

private theorem Phrase.inside_of_isChain {p : Phrase} (hp : p.isChain) (h : p.Shapes cs) :
    Inside cs := by
  cases p with
  | term | expr => exact h
  | factor | statement | program | closing => cases hp

private theorem Phrase.inside_operand {p : Phrase} (h : p.operand.Shapes cs) : Inside cs := by
  cases p <;> exact h

/-- Whatever the parser reads, assignments and template blocks stand as statements only. -/
theorem Reads.shapes {p : Phrase} {stop : Nat} {ts : List Token} {is : List Cst}
    {fs : List Diagnostic} (h : Reads p stop ts is fs) : p.Shapes is := by
  -- The tokens between the items leave no entries, so they fit in anywhere.
  induction h with
  | skip blank _ ih => exact (Phrase.shapes_of_inside _ (.leaves _)).append ih
  | literal => exact inside_literal _
  | nameRef => exact inside_nameRef _
  | template kind => exact inside_templateExpr kind
  | @paren _ o _ _ _ _ _ _ kind _ _ ih ih' =>
    exact ((Inside.leaves [o]).append (Inside.append ih ih')).paren
  | lacking => exact inside_error _
  | misplaced => exact inside_error _
  | lift chain _ ih => exact Phrase.shapes_of_inside _ (Phrase.inside_operand ih)
  | join blank joins _ _ ih ih' =>
    have hfirst := Phrase.inside_of_isChain (Phrase.isChain_of_joins joins) ih
    have hsecond := Phrase.inside_operand ih'
    exact Phrase.shapes_of_inside _ ((hfirst.append (.leaves _)).append hsecond).binary
  | found => exact Inside.leaves _
  | missing => exact inside_error _
  | assignment _ _ _ _ _ _ ih ih' =>
    exact .assignment (((Inside.leaves _).append (.leaves _)).append (Inside.append ih ih'))
  | chunk => exact .templateStatement _
  | closedChunk => exact .templateStatement _
  | empty =>
    exact (Inside.exprStatement ((inside_error []).append (.leaves _))).asStatements
  | value _ _ ih ih' => exact (Inside.exprStatement (Inside.append ih ih')).asStatements
  | stray _ _ _ ih =>
    exact AsStatements.append ih ((Inside.leaves _).append (inside_error _)).asStatements
  | done => exact (Inside.leaves _).asStatements
  | later _ _ _ ih ih' => exact AsStatements.append ih ih'

end Items

/-! ## Syntax trees -/

section Lowered

variable {source : String} {level : AstLevel} {ast : Ast} {t : Tree}

private theorem isStatement_sketch : IsStatement (t.sketch NodeData.bare) ↔ IsStatement t := by
  have hinner : (∀ u ∈ Tree.preorders (t.sketch NodeData.bare).children,
      isStatementKind u.kind = false) ↔
        ∀ u ∈ Tree.preorders t.children, isStatementKind u.kind = false := by
    simp [Tree.preorders_sketches, Tree.kind_sketch]
  have hnil : (t.sketch NodeData.bare).children = [] ↔ t.children = [] := by
    simp [Tree.sketches_eq_map]
  constructor
  · rintro ⟨hi, hb⟩
    exact ⟨hinner.1 hi, fun hk => hnil.1 (hb (t.kind_sketch.trans hk))⟩
  · rintro ⟨hi, hb⟩
    exact ⟨hinner.2 hi, fun hk => hnil.2 (hb (t.kind_sketch.symm.trans hk))⟩

/-- The nodes right below the root of a syntax tree stand as statements. -/
theorem isStatement_of_lower (h : lower (parse source) level = .ok ast) :
    ∀ t ∈ ast.root.children, IsStatement t := by
  obtain ⟨hlt, hl⟩ := lowered_of_lower h
  have hdrafts : ∀ u ∈ (programDraft _ hlt).tree.children, IsStatement u :=
    (statements_reads (lex source).tokens).shapes 0
  have hchildren := congrArg Tree.children hl.sketch_eq
  rw [Tree.children_sketch, Tree.children_sketch, Tree.sketches_eq_map, Tree.sketches_eq_map]
    at hchildren
  exact Tree.forall_of_sketch (fun _ => isStatement_sketch) hchildren hdrafts

end Lowered

end SourceModel.Calc
