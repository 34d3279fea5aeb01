import SourceModel.Proofs.Calc.Bounds
import SourceModel.Proofs.Calc.Lowered
import SourceModel.Proofs.Tree.Links
import Mathlib.Data.List.Forall2

/-!
# Operands

The names, numbers, strings and templates of a text are the operands of its syntax tree: in
pre-order the nodes of these kinds stand for the tokens one by one, whatever faults there are
around them. A node lies where its token lies and has its text; a template that stands as a
statement may reach on to the semicolon behind it.
-/

namespace SourceModel.Calc

open Draft (entriesAmong)

/-- The kinds of the nodes that stand for tokens of a kind. -/
def TokenKind.nodeKinds : TokenKind → List SyntaxKind
  | ident => [Kind.name, Kind.nameRef]
  | number => [Kind.number]
  | string => [Kind.string]
  | template => [Kind.templateBlock, Kind.templateExpr]
  | _ => []

def TokenKind.isOperand : TokenKind → Bool
  | ident | number | string | template => true
  | _ => false

def isOperandKind (kind : SyntaxKind) : Bool :=
  [Kind.name, Kind.nameRef, Kind.number, Kind.string, Kind.templateBlock,
    Kind.templateExpr].contains kind

private theorem isOperand_of_mem {k : SyntaxKind} {kind : TokenKind} (h : k ∈ kind.nodeKinds) :
    kind.isOperand = true ∧ isOperandKind k = true := by
  have hall : ∀ k ∈ kind.nodeKinds, kind.isOperand = true ∧ isOperandKind k = true := by
    cases kind <;> decide
  exact hall k h

private theorem isOperand_of_isTrivia {t : Token} (h : t.isTrivia) : t.kind.isOperand = false := by
  rw [Token.isTrivia] at h
  cases hk : t.kind <;> rw [hk] at h <;> first | rfl | cases h

private theorem isOperand_snoc {blanks : List Token} {t : Token} (hb : ∀ b ∈ blanks, b.isTrivia)
    (ht : t.kind.isOperand = false) : ∀ b ∈ blanks ++ [t], b.kind.isOperand = false := by
  rw [List.forall_mem_append]
  exact ⟨fun b h => isOperand_of_isTrivia (hb b h), List.forall_mem_singleton.2 ht⟩

/-- Behind a token there are only trivia and then a semicolon, which ends at `stop`. -/
def ClosedAt (ts : List Token) (t : Token) (stop : Nat) : Prop :=
  ∃ us blanks s vs, ts = us ++ t :: (blanks ++ s :: vs) ∧ (∀ b ∈ blanks, b.isTrivia) ∧
    s.kind = .semicolon ∧ stop = s.stop

/-- What a node says about itself that stands for a token among others. -/
structure StandsFor (ts : List Token) (t : Token) (data : NodeData) : Prop where
  kind_mem : data.kind ∈ t.kind.nodeKinds
  text_eq : data.text = some t.text
  offset_eq : data.region.offset = t.start
  stop_eq : data.region.stop = t.stop ∨
    data.kind = Kind.templateBlock ∧ ClosedAt ts t data.region.stop

section StandsFor

variable {ts : List Token} {t : Token} {data : NodeData}

private theorem ClosedAt.within {stop : Nat} (h : ClosedAt ts t stop) (us vs : List Token) :
    ClosedAt (us ++ ts ++ vs) t stop := by
  obtain ⟨us', blanks, s, vs', rfl, hb, hs, hstop⟩ := h
  exact ⟨us ++ us', blanks, s, vs' ++ vs, by simp, hb, hs, hstop⟩

private theorem StandsFor.within (h : StandsFor ts t data) (us vs : List Token) :
    StandsFor (us ++ ts ++ vs) t data :=
  ⟨h.kind_mem, h.text_eq, h.offset_eq, h.stop_eq.imp_right fun hc => ⟨hc.1, hc.2.within us vs⟩⟩

private theorem standsFor_bare : StandsFor ts t data.bare ↔ StandsFor ts t data := by
  constructor <;> exact fun h => ⟨h.kind_mem, h.text_eq, h.offset_eq, h.stop_eq⟩

end StandsFor

/-- Entries of operands stand for the tokens that are operands, one by one. -/
def Matches (context ts : List Token) (es : List Entry) : Prop :=
  List.Forall₂ (fun t e => StandsFor context t e.data) (ts.filter (·.kind.isOperand))
    (es.filter (isOperandKind ·.data.kind))

section Matches

variable {context ts us : List Token} {es es' : List Entry} {t : Token} {e : Entry}

private theorem Matches.append (h : Matches context ts es) (h' : Matches context us es') :
    Matches context (ts ++ us) (es ++ es') := by
  unfold Matches
  rw [List.filter_append, List.filter_append]
  exact List.rel_append h h'

private theorem Matches.within (h : Matches context ts es) (us vs : List Token) :
    Matches (us ++ context ++ vs) ts es := h.imp fun _ _ hs => hs.within us vs

private theorem matches_none (ht : ∀ t ∈ ts, t.kind.isOperand = false)
    (he : ∀ e ∈ es, isOperandKind e.data.kind = false) : Matches context ts es := by
  have hts : ts.filter (·.kind.isOperand) = [] := by simpa using ht
  have hes : es.filter (isOperandKind ·.data.kind) = [] := by simpa using he
  rw [Matches, hts, hes]
  exact .nil

private theorem matches_nil (ht : ∀ t ∈ ts, t.kind.isOperand = false) : Matches context ts [] :=
  matches_none ht (List.forall_mem_nil _)

private theorem matches_one (h : StandsFor context t e.data) : Matches context [t] [e] := by
  obtain ⟨ht, he⟩ := isOperand_of_mem h.kind_mem
  simp only [Matches, List.filter_cons, ht, he, if_true, List.filter_nil]
  exact .cons h .nil

private theorem Matches.entry (h : Matches context ts es) (he : isOperandKind e.data.kind = false) :
    Matches context ts (e :: es) := by
  rw [Matches, List.filter_cons, if_neg (by simp [he])]
  exact h

end Matches

/-! ## Readings -/

/-- The operands among trees stand for the tokens of which the trees are made, wherever these
lie. -/
def Mirrors (ts : List Token) (cs : List Cst) : Prop :=
  ∀ lo hi, Laid lo hi ts → Matches ts ts (entriesAt lo cs)

namespace Mirrors

variable {ts us blanks : List Token} {cs ds : List Cst} {t : Token} {kind : CstKind}

private theorem leaves (h : ∀ t ∈ ts, t.kind.isOperand = false) :
    Mirrors ts (ts.map Token.leaf) := by
  intro lo hi _
  rw [entriesAt, draftsAmong_leaves]
  exact matches_nil h

private theorem append (h : Mirrors ts cs) (h' : Mirrors us ds)
    (hw : Cst.widths cs = Cst.widths (ts.map Token.leaf)) : Mirrors (ts ++ us) (cs ++ ds) := by
  intro lo hi hlaid
  obtain ⟨mid, hts, hus, hmid⟩ := hlaid.split
  rw [entriesAt, draftsAmong_append, Draft.entriesAmong_append, hw, hmid]
  have hfront := (h lo mid hts).within [] us
  have hback := (h' mid hi hus).within ts []
  rw [List.nil_append] at hfront
  rw [List.append_nil] at hback
  exact hfront.append hback

private theorem behind (hb : ∀ b ∈ blanks, b.kind.isOperand = false) (h : Mirrors ts cs) :
    Mirrors (blanks ++ ts) (blanks.map Token.leaf ++ cs) := (leaves hb).append h rfl

private theorem next (hb : ∀ b ∈ blanks, b.isTrivia) (ht : t.kind.isOperand = false)
    (h : Mirrors ts cs) : Mirrors (blanks ++ t :: ts) ((blanks ++ [t]).map Token.leaf ++ cs) := by
  rw [List.append_cons]
  exact h.behind (isOperand_snoc hb ht)

private theorem branch {c : Cst} {k : SyntaxKind} (hk : isOperandKind k = false)
    (hd : ∀ offset, ∃ region text,
      drafts offset c = [.branch k region text (draftsAmong offset cs)])
    (h : Mirrors ts cs) : Mirrors ts [c] := by
  intro lo hi hlaid
  obtain ⟨region, text, hd⟩ := hd lo
  rw [entriesAt, draftsAmong, draftsAmong, List.append_nil, hd, Draft.branch, entriesAmong,
    Draft.entries, entriesAmong, List.append_nil]
  exact (h lo hi hlaid).entry hk

private theorem exprStatement (h : Mirrors ts cs) : Mirrors ts [.node .exprStatement cs] :=
  h.branch (by decide) fun _ => ⟨_, _, rfl⟩

private theorem paren (h : Mirrors ts cs) : Mirrors ts [.node .paren cs] :=
  h.branch (by decide) fun _ => ⟨_, _, rfl⟩

private theorem binary (h : Mirrors ts cs) : Mirrors ts [.node .binary cs] :=
  h.branch (by decide) fun _ => ⟨_, _, rfl⟩

private theorem error (h : ∀ t ∈ ts, t.kind.isOperand = false) : Mirrors ts [.node .error cs] := by
  intro lo hi _
  exact matches_none h (List.forall_mem_singleton.2 rfl)

private theorem single {e : Nat → Entry} (hs : ¬ t.isTrivia)
    (hd : ∀ offset, drafts offset (.node kind [t.leaf]) = [.leaf (e offset)])
    (hk : ∀ offset, (e offset).data.kind ∈ t.kind.nodeKinds)
    (ht : ∀ offset, (e offset).data.text = some t.text)
    (hr : ∀ offset, (e offset).data.region = place offset (.node kind [t.leaf])) :
    Mirrors [t] [.node kind [t.leaf]] := by
  intro lo hi hlaid
  obtain ⟨hstart, hstop, hlt, -⟩ := hlaid.cons
  obtain ⟨hoffset, hend⟩ := @place_single lo kind t hs (by omega)
  rw [entriesAt, draftsAmong, draftsAmong, List.append_nil, hd, Draft.entriesAmong_leaf]
  refine matches_one ⟨hk lo, ht lo, ?_, .inl ?_⟩
  · rw [hr, hoffset, hstart]
  · rw [hr, hend, hstop]

private theorem nameRef (hk : t.kind = .ident) : Mirrors [t] [.node .nameRef [t.leaf]] := by
  refine single (significant_of_kind hk rfl) (fun _ => rfl) (fun _ => ?_) (fun _ => ?_) fun _ => rfl
  · simp [hk, TokenKind.nodeKinds, textEntry]
  · simp [textEntry, Token.leaf, Cst.findToken?, hk]

private theorem literal (hk : t.kind = .number ∨ t.kind = .string) :
    Mirrors [t] [.node .literal [t.leaf]] := by
  have hs : ¬ t.isTrivia := by
    rcases hk with hk | hk
    · exact significant_of_kind hk rfl
    · exact significant_of_kind hk rfl
  refine single hs (fun _ => rfl) (fun _ => ?_) (fun _ => ?_) fun _ => region_literalEntry ..
  · rcases hk with hk | hk <;>
      simp [literalEntry, Token.leaf, Cst.findToken?, hk, TokenKind.nodeKinds, textEntry]
  · rcases hk with hk | hk <;>
      simp [literalEntry, Token.leaf, Cst.findToken?, hk, textEntry]

private theorem templateExpr (hk : t.kind = .template) :
    Mirrors [t] [.node .templateExpr [t.leaf]] := by
  have hd : ∀ offset, drafts offset (.node .templateExpr [t.leaf]) =
      [.leaf (chunkEntry Kind.templateExpr .inExpression
        (place offset (.node .templateExpr [t.leaf])) offset t.text)] := by
    intro offset
    simp [drafts, chunkDrafts, Token.leaf, Cst.findToken?, hk]
  refine single (significant_of_kind hk rfl) hd (fun _ => ?_) (fun _ => ?_)
    fun _ => region_chunkEntry ..
  · simp [chunkEntry, templateEntry, hk, TokenKind.nodeKinds]
  · simp [chunkEntry, templateEntry]

/-- Tokens that may close a template: none, or a semicolon. -/
def MayClose (closing : List Token) : Prop :=
  closing = [] ∨ ∃ later s, closing = later ++ [s] ∧ (∀ b ∈ later, b.isTrivia) ∧
    s.kind = .semicolon

private theorem isOperand_of_mayClose {closing : List Token} (h : MayClose closing) :
    ∀ u ∈ closing, u.kind.isOperand = false := by
  rcases h with rfl | ⟨later, s, rfl, hl, hs⟩
  · exact List.forall_mem_nil _
  · exact isOperand_snoc hl (by rw [hs]; rfl)

private theorem bounds_template {closing : List Token} {lo hi mid : Nat}
    (hb : ∀ b ∈ blanks, b.isTrivia) (hk : t.kind = .template)
    (hmid : lo + Cst.widths (blanks.map Token.leaf) = mid) (hlaid : Laid mid hi (t :: closing))
    (hc : MayClose closing) :
    significantBounds lo (.node .templateStatement ((blanks ++ t :: closing).map Token.leaf)) =
      some (mid, hi) := by
  have ht := significant_of_kind hk rfl
  have hwidths := hlaid.widths_eq
  rw [significantBounds, if_neg (fun h => nomatch h.1), List.map_append,
    significantBoundsAmong_trivia lo hb, hmid, List.map_cons]
  rcases hc with rfl | ⟨later, s, rfl, -, hs⟩
  · rw [List.map_nil, bounds_single ht]
    simpa [Cst.widths, Cst.width, Token.leaf] using hwidths
  · rw [List.map_append, List.map_singleton, bounds_enclosed ht (significant_of_kind hs rfl)]
    rw [List.map_cons, List.map_append, List.map_singleton] at hwidths
    rw [hwidths]

private theorem templateStatement {closing : List Token} (hb : ∀ b ∈ blanks, b.isTrivia)
    (hk : t.kind = .template) (hc : MayClose closing) :
    Mirrors (blanks ++ t :: closing)
      [.node .templateStatement ((blanks ++ t :: closing).map Token.leaf)] := by
  intro lo hi hlaid
  obtain ⟨mid, -, hrest, hmid⟩ := hlaid.split
  obtain ⟨hstart, hstop, -, hclosing⟩ := hrest.cons
  obtain ⟨hoffset, hend⟩ := place_bounds (bounds_template hb hk hmid hrest hc) hlaid.available
  have hfind : Cst.findToken? .template lo ((blanks ++ t :: closing).map Token.leaf) =
      some (mid, t.text) := by
    rw [List.map_append, List.map_cons, Token.leaf, hk, findToken?_startsWith rfl hb, hmid]
  have hentries : entriesAt lo
      [.node .templateStatement ((blanks ++ t :: closing).map Token.leaf)] =
        [chunkEntry Kind.templateBlock .chunk (place lo
          (.node .templateStatement ((blanks ++ t :: closing).map Token.leaf))) mid t.text] := by
    simp only [entriesAt, draftsAmong, drafts, chunkDrafts, hfind]
    rfl
  have hreach : hi = t.stop ∨ ClosedAt (blanks ++ t :: closing) t hi := by
    rcases hc with rfl | ⟨later, s, rfl, hl, hs⟩
    · exact .inl hclosing.tiles.symm
    · obtain ⟨_, -, hlast, -⟩ := hclosing.split
      obtain ⟨-, -, -, hdone⟩ := hlast.cons
      exact .inr ⟨blanks, later, s, [], rfl, hl, hs, hdone.tiles.symm⟩
  rw [hentries]
  have hone : StandsFor (blanks ++ t :: closing) t (chunkEntry Kind.templateBlock .chunk (place lo
      (.node .templateStatement ((blanks ++ t :: closing).map Token.leaf))) mid t.text).data := by
    refine ⟨?_, ?_, ?_, ?_⟩
    · simp [chunkEntry, templateEntry, hk, TokenKind.nodeKinds]
    · simp [chunkEntry, templateEntry]
    · rw [region_chunkEntry, hoffset, hstart]
    · rw [region_chunkEntry, hend]
      exact hreach.imp_right fun h => ⟨by simp [chunkEntry, templateEntry], h⟩
  have htrivia := fun b h => isOperand_of_isTrivia (hb b h)
  exact (matches_nil htrivia).append
    ((matches_one hone).append (matches_nil (isOperand_of_mayClose hc)))

private theorem assignment {name : Token} (hb : ∀ b ∈ blanks, b.isTrivia) (hk : name.kind = .ident)
    (h : Mirrors ts cs) :
    Mirrors (blanks ++ name :: ts)
      [.node .assignment ((blanks ++ [name]).map Token.leaf ++ cs)] := by
  intro lo hi hlaid
  obtain ⟨mid, hfront, hrest, hmid⟩ := hlaid.split
  obtain ⟨hstart, hstop, hlt, hlaid'⟩ := hrest.cons
  have hchildren : (blanks ++ [name]).map Token.leaf ++ cs =
      blanks.map Token.leaf ++ .token .ident name.text :: cs := by
    simp [Token.leaf, hk]
  have hfind : Cst.findToken? .ident lo ((blanks ++ [name]).map Token.leaf ++ cs) =
      some (mid, name.text) := by
    rw [hchildren, findToken?_startsWith rfl hb, hmid]
  have hdrafts : draftsAmong lo ((blanks ++ [name]).map Token.leaf ++ cs) =
      draftsAmong name.stop cs := by
    rw [hchildren, draftsAmong_append, draftsAmong_leaves, hmid, hstop]
    rfl
  obtain ⟨hoffset, hend⟩ := Region.ofBounds?_eq_ok_iff.1
    (place_token mid .ident name.text rfl (by omega))
  have hname : StandsFor (blanks ++ name :: ts) name (textEntry Kind.name
      (place mid (.token .ident name.text)) (some (mid, name.text))).data := by
    refine ⟨?_, rfl, ?_, .inl ?_⟩
    · simp [textEntry, hk, TokenKind.nodeKinds]
    · simp only [textEntry]
      omega
    · simp only [textEntry]
      omega
  simp only [entriesAt, draftsAmong, drafts, nameDrafts, hfind, hdrafts, Draft.branch, entriesAmong,
    Draft.entries, List.append_nil, Option.toList_some, List.map_cons,
    List.map_nil, Draft.leaf, List.cons_append, List.nil_append]
  refine Matches.entry ?_ rfl
  have htrivia := fun b h => isOperand_of_isTrivia (hb b h)
  have hvalue := (h name.stop hi hlaid').within (blanks ++ [name]) []
  rw [List.append_nil, List.append_assoc, List.singleton_append] at hvalue
  exact (matches_nil htrivia).append ((matches_one hname).append hvalue)

end Mirrors

private theorem isOperand_of_isMisplaced {kind : TokenKind} (h : kind.isMisplaced) :
    kind.isOperand = false := by
  cases kind <;> first | rfl | cases h

private theorem isOperand_of_joins {p : Phrase} {kind : TokenKind} (h : p.joins kind) :
    kind.isOperand = false := by
  cases p <;> cases kind <;> first | rfl | cases h

/-- The operands of a reading stand for those among its tokens. -/
theorem Reads.mirrors {p : Phrase} {stop : Nat} {ts : List Token} {is : List Cst}
    {fs : List Diagnostic} (h : Reads p stop ts is fs) : Mirrors ts is := by
  have htrivia : ∀ {blanks : List Token}, (∀ b ∈ blanks, b.isTrivia) →
      ∀ b ∈ blanks, b.kind.isOperand = false := fun hb b h => isOperand_of_isTrivia (hb b h)
  induction h with
  | skip blank _ ih => exact ih.behind (htrivia blank)
  | literal kind => exact .literal kind
  | nameRef kind => exact .nameRef kind
  | template kind => exact .templateExpr kind
  | paren kind hr _ ih ih' =>
    exact .paren ((ih.append ih' hr.widths_eq).next (List.forall_mem_nil _) (by rw [kind]; rfl))
  | lacking => exact .error (List.forall_mem_nil _)
  | misplaced message kind =>
    exact .error (List.forall_mem_singleton.2 (isOperand_of_isMisplaced kind))
  | lift chain _ ih => exact ih
  | join blank joins hr _ ih ih' =>
    rw [List.append_assoc]
    exact .binary (ih.append (ih'.next blank (isOperand_of_joins joins)) hr.widths_eq)
  | found blank closing same =>
    exact .leaves (isOperand_snoc blank (by rcases closing with rfl | rfl <;> rw [same] <;> rfl))
  | missing => exact .error (List.forall_mem_nil _)
  | assignment blank blank' kind kind' hr _ ih ih' =>
    rw [List.append_assoc]
    exact .assignment blank kind
      ((ih.append ih' hr.widths_eq).next blank' (by rw [kind']; rfl))
  | chunk blank kind => exact .templateStatement blank kind (.inl rfl)
  | closedChunk blank blank' kind kind' =>
    have h := Mirrors.templateStatement blank kind (.inr ⟨_, _, rfl, blank', kind'⟩)
    simpa using h
  | empty blank kind =>
    have hs := isOperand_snoc blank (by rw [kind]; rfl)
    exact .exprStatement (Mirrors.append (.error (List.forall_mem_nil _)) (.leaves hs) rfl)
  | value hr _ ih ih' => exact .exprStatement (ih.append ih' hr.widths_eq)
  | @stray _ _ t _ _ blank kind hr ih =>
    have ht : ∀ u ∈ [t], u.kind.isOperand = false := List.forall_mem_singleton.2 (by rw [kind]; rfl)
    exact ih.append ((Mirrors.error ht).behind (htrivia blank)) hr.widths_eq
  | done blank => exact .leaves (htrivia blank)
  | later _ hr _ ih ih' => exact ih.append ih' hr.widths_eq

/-! ## Texts -/

/-- The operands of a syntax tree stand for those among the tokens of the text. -/
theorem standsFor_of_lower {source : String} {level : AstLevel} {ast : Ast}
    (h : lower (parse source) level = .ok ast) :
    List.Forall₂ (fun t u => StandsFor (lex source).tokens t u.data)
      ((lex source).tokens.filter (·.kind.isOperand))
      (ast.root.preorder.filter (isOperandKind ·.kind)) := by
  obtain ⟨hlt, hl⟩ := lowered_of_lower h
  have hwidth : Text.size source < naOffset := by
    rw [← width_parse]
    exact hlt
  have hmatches : Matches (lex source).tokens (lex source).tokens (programDraft _ hlt).entries :=
    ((statements_reads (lex source).tokens).mirrors 0 _ (laid_lex hwidth)).entry rfl
  have hbare : List.Forall₂ (StandsFor (lex source).tokens)
      ((lex source).tokens.filter (·.kind.isOperand))
      ((ast.root.datas.map NodeData.bare).filter (isOperandKind ·.kind)) := by
    rw [hl.map_bare_datas, List.filter_map, List.forall₂_map_right_iff]
    exact hmatches.imp fun _ _ hs => standsFor_bare.2 hs
  rw [Tree.datas, List.map_map, List.filter_map, List.forall₂_map_right_iff] at hbare
  exact hbare.imp fun _ _ hs => standsFor_bare.1 hs

theorem forall₂_nodes {source : String} {level : AstLevel} {ast : Ast} {kind : TokenKind}
    {p : SyntaxKind → Bool} (h : lower (parse source) level = .ok ast)
    (hkind : kind.isOperand = true) (hp : ∀ k, p k = true → isOperandKind k = true)
    (hiff : ∀ {kind' k}, k ∈ TokenKind.nodeKinds kind' → (kind' = kind ↔ p k = true)) :
    List.Forall₂ (fun t n => StandsFor (lex source).tokens t n.tree.data)
      ((lex source).tokens.filter (·.kind = kind)) (ast.nodes.filter (p ·.tree.kind)) := by
  have hoperands := standsFor_of_lower h
  rw [← Tree.map_tree_nodesFrom 0 [], List.filter_map, List.forall₂_map_right_iff] at hoperands
  have hnodes := List.rel_filter (p := fun t : Token => decide (t.kind = kind))
    (q := fun n : Ast.Node => p n.tree.kind)
    (fun t n hs => decide_eq_true_iff.trans (hiff hs.kind_mem)) hoperands
  have htokens : ∀ t : Token, (decide (t.kind = kind) && t.kind.isOperand) =
      decide (t.kind = kind) := by
    intro t
    refine Bool.and_eq_left_iff_imp.2 fun hk => ?_
    rw [of_decide_eq_true hk, hkind]
  have hkinds : ∀ n : Ast.Node, (p n.tree.kind && isOperandKind n.tree.kind) = p n.tree.kind :=
    fun n => Bool.and_eq_left_iff_imp.2 (hp n.tree.kind)
  rw [List.filter_filter, List.filter_filter] at hnodes
  simp only [Function.comp_apply, htokens, hkinds] at hnodes
  exact hnodes

/-- The operands of a syntax tree in pre-order stand for those among the tokens of the text, one by
one. The lowering gives a tree for every text within the limits for sizes. -/
theorem forall₂_operands (source : String) (level : AstLevel) :
    (Text.size source < halfWordLimit → (parse source).tree.nodeCount ≤ TreeBuilder.maxNodes →
      ∃ ast, lower (parse source) level = .ok ast) ∧
      ∀ ast, lower (parse source) level = .ok ast →
        List.Forall₂ (fun t u => StandsFor (lex source).tokens t u.data)
          ((lex source).tokens.filter (·.kind.isOperand))
          (ast.root.preorder.filter (isOperandKind ·.kind)) :=
  ⟨fun hsize hcount => exists_lower hsize hcount level, fun _ => standsFor_of_lower⟩

/-- A template with a semicolon behind it and a name that has no place. -/
theorem forall₂_operands_unexpected :
    ∃ ast, lower (parse "x = 1 y ; {% z %} ;") .full = .ok ast ∧
      List.Forall₂ (fun t u => StandsFor (lex "x = 1 y ; {% z %} ;").tokens t u.data)
        ((lex "x = 1 y ; {% z %} ;").tokens.filter (·.kind.isOperand))
        (ast.root.preorder.filter (isOperandKind ·.kind)) := by
  obtain ⟨hexists, hoperands⟩ := forall₂_operands "x = 1 y ; {% z %} ;" .full
  obtain ⟨ast, hl⟩ := hexists (by decide) (Nat.le_trans (nodeCount_parse_le _) (by decide))
  exact ⟨ast, hl, hoperands ast hl⟩

end SourceModel.Calc
