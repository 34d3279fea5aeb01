import SourceModel.Proofs.Calc.Lexemes
import SourceModel.Proofs.Calc.Operands

/-!
# Grouping of operators

Every binary node has an operator and two operands, whatever faults there are around it. Operators
of the same class are grouped from the left, and products within sums: what is read behind an
operator belongs to a tighter phrase than the one that the operator joins.
-/

namespace SourceModel.Calc

open Draft (trees branch)

def IsSum (t : Tree) : Prop := t.kind = Kind.binary ∧ (t.text = some "+" ∨ t.text = some "-")

def IsProduct (t : Tree) : Prop := t.kind = Kind.binary ∧ (t.text = some "*" ∨ t.text = some "/")

/-- Whether a binary node has an operator and two operands. On the right of a sum there is no other
sum; a product has no sum for an operand, and on its right no operator at all. -/
structure Grouped (t : Tree) : Prop where
  operator : IsSum t ∨ IsProduct t
  operands : ∃ l r, t.children = [l, r] ∧ (IsSum t → ¬ IsSum r) ∧
    (IsProduct t → ¬ IsSum l ∧ r.kind ≠ Kind.binary)

def AllGrouped (t : Tree) : Prop := ∀ u ∈ t.preorder, u.kind = Kind.binary → Grouped u

/-- Whether a tree can stand where a phrase is read. -/
def Phrase.Fits : Phrase → Tree → Prop
  | factor, t => t.kind ≠ Kind.binary
  | term, t => ¬ IsSum t
  | _, _ => True

section Trees

variable {p : Phrase} {o : Token} {t l r : Tree}

theorem allGrouped_iff : AllGrouped t ↔
    (t.kind = Kind.binary → Grouped t) ∧ ∀ c ∈ t.children, AllGrouped c := by
  rw [AllGrouped, Tree.preorder_eq, List.forall_mem_cons, Tree.forall_mem_preorders]
  rfl

private theorem allGrouped_of_kind_ne (hk : t.kind ≠ Kind.binary)
    (h : ∀ c ∈ t.children, AllGrouped c) :
    AllGrouped t := allGrouped_iff.2 ⟨fun hb => absurd hb hk, h⟩

private theorem Phrase.Fits.lift (hp : p.isChain) (h : p.operand.Fits t) : p.Fits t := by
  cases p with
  | term => exact fun hs => h hs.1
  | expr => trivial
  | _ => cases hp

private theorem text_of_joinsFactors (ho : o.Spelled) (hj : joinsFactors o.kind) :
    o.text = "*" ∨ o.text = "/" := by
  simp only [joinsFactors, Bool.or_eq_true, beq_iff_eq] at hj
  rcases hj with hk | hk
  · exact .inl (ho '*' (by rw [hk]; rfl))
  · exact .inr (ho '/' (by rw [hk]; rfl))

private theorem text_of_joinsTerms (ho : o.Spelled) (hj : joinsTerms o.kind) :
    o.text = "+" ∨ o.text = "-" := by
  simp only [joinsTerms, Bool.or_eq_true, beq_iff_eq] at hj
  rcases hj with hk | hk
  · exact .inl (ho '+' (by rw [hk]; rfl))
  · exact .inr (ho '-' (by rw [hk]; rfl))

private theorem not_isSum_of_isProduct (h : IsProduct t) : ¬ IsSum t := by
  rintro ⟨-, hs⟩
  rcases h.2 with hp | hp <;> rw [hp] at hs <;> revert hs <;> decide

private theorem grouped_of_joins (ho : o.Spelled) (hj : p.joins o.kind) (hl : p.Fits l)
    (hr : p.operand.Fits r) (hk : t.kind = Kind.binary) (ht : t.text = some o.text)
    (hc : t.children = [l, r]) : Grouped t ∧ p.Fits t := by
  cases p with
  | term =>
    have hp : IsProduct t := by
      refine ⟨hk, ?_⟩
      rw [ht]
      exact (text_of_joinsFactors ho hj).imp (congrArg some) (congrArg some)
    have hs := not_isSum_of_isProduct hp
    exact ⟨⟨.inr hp, l, r, hc, fun h => absurd h hs, fun _ => ⟨hl, hr⟩⟩, hs⟩
  | expr =>
    have hs : IsSum t := by
      refine ⟨hk, ?_⟩
      rw [ht]
      exact (text_of_joinsTerms ho hj).imp (congrArg some) (congrArg some)
    exact ⟨⟨.inl hs, l, r, hc, fun _ => hr, fun h => absurd hs (not_isSum_of_isProduct h)⟩, trivial⟩
  | factor | closing | statement | program => cases hj

end Trees

/-! ## Items of an operand -/

private theorem firstSignificant?_trivia {blanks : List Token} (hb : ∀ b ∈ blanks, b.isTrivia)
    (cs : List Cst) :
    Cst.firstSignificant? (blanks.map Token.leaf ++ cs) = Cst.firstSignificant? cs := by
  induction blanks with
  | nil => rfl
  | cons b blanks ih =>
    have htrivia : b.kind.isTrivia = true := hb b List.mem_cons_self
    rw [List.map_cons, List.cons_append, Token.leaf, Cst.firstSignificant?, if_pos htrivia]
    exact ih fun c hc => hb c (List.mem_cons_of_mem _ hc)

private theorem firstSignificant?_append {cs : List Cst} (h : Cst.firstSignificant? cs = none)
    (ds : List Cst) : Cst.firstSignificant? (cs ++ ds) = Cst.firstSignificant? ds := by
  induction cs with
  | nil => rfl
  | cons c cs ih =>
    cases c with
    | node kind children => exact ih h
    | token kind text =>
      rw [Cst.firstSignificant?] at h
      split at h
      · rename_i hk
        rw [List.cons_append, Cst.firstSignificant?, if_pos hk]
        exact ih h
      · cases h

theorem exists_tree_branch {lo : Nat} {c : Cst} {k : SyntaxKind} {region : Region}
    {text : Option String} {ds : List Draft} (h : drafts lo c = [branch k region text ds]) :
    ∃ t : Tree, trees (draftsAmong lo [c]) = [t] ∧ t.kind = k ∧ t.region = region ∧
      t.text = text ∧ t.children = trees ds := by
  refine ⟨(branch k region text ds).tree, ?_, rfl, rfl, rfl, rfl⟩
  rw [draftsAmong, draftsAmong, List.append_nil, h]
  rfl

theorem leaf_of_mem_chunkDrafts {k : SyntaxKind} {flags : EmbeddingFlags} {lo : Nat}
    {region : Region} {cs : List Cst} {t : Tree}
    (h : t ∈ trees (chunkDrafts k flags lo region cs)) : t.kind = k ∧ t.children = [] := by
  unfold chunkDrafts at h
  cases hfind : Cst.findToken? .template lo cs with
  | none =>
    rw [hfind] at h
    cases h
  | some found =>
    rw [hfind] at h
    obtain rfl := List.mem_singleton.1 h
    exact ⟨kind_judged _ _ _, rfl⟩

/-- Items of which one node is made, with a property; the tokens among them are trivia. -/
structure IsOperand (P : Tree → Prop) (cs : List Cst) : Prop where
  plain : Cst.firstSignificant? cs = none
  single : ∀ lo, ∃ t, trees (draftsAmong lo cs) = [t] ∧ P t

namespace IsOperand

variable {P Q R : Tree → Prop} {cs ds : List Cst} {blanks : List Token} {o : Token}
  {kind : CstKind} {k : SyntaxKind}

theorem imp (h : IsOperand P cs) (hPQ : ∀ t, P t → Q t) : IsOperand Q cs := by
  refine ⟨h.plain, fun lo => ?_⟩
  obtain ⟨t, ht, hP⟩ := h.single lo
  exact ⟨t, ht, hPQ t hP⟩

theorem behind (hb : ∀ b ∈ blanks, b.isTrivia) (h : IsOperand P cs) :
    IsOperand P (blanks.map Token.leaf ++ cs) := by
  refine ⟨(firstSignificant?_trivia hb cs).trans h.plain, fun lo => ?_⟩
  rw [draftsAmong_append, draftsAmong_leaves]
  exact h.single _

private theorem leaf (h : ∀ lo, ∃ e, drafts lo (.node kind cs) = [.leaf e] ∧ P (.leaf e.data)) :
    IsOperand P [.node kind cs] := by
  refine ⟨rfl, fun lo => ?_⟩
  obtain ⟨e, hd, hP⟩ := h lo
  exact ⟨.leaf e.data, by rw [draftsAmong, draftsAmong, List.append_nil, hd, Draft.trees_leaf], hP⟩

theorem branch (h : ∀ lo, ∃ region text,
      drafts lo (.node kind cs) = [branch k region text (draftsAmong lo cs)] ∧
        ∀ t : Tree, t.kind = k → t.text = text → t.children = trees (draftsAmong lo cs) → P t) :
    IsOperand P [.node kind cs] := by
  refine ⟨rfl, fun lo => ?_⟩
  obtain ⟨region, text, hd, hP⟩ := h lo
  obtain ⟨t, ht, hk, -, htext, hc⟩ := exists_tree_branch hd
  exact ⟨t, ht, hP t hk htext hc⟩

theorem binary (hl : IsOperand P cs) (hr : IsOperand Q ds) (hb : ∀ b ∈ blanks, b.isTrivia)
    (ho : ¬ o.isTrivia)
    (h : ∀ t l r : Tree, P l → Q r → t.kind = Kind.binary → t.text = some o.text →
      t.children = [l, r] → R t) :
    IsOperand R [.node .binary (cs ++ (blanks ++ [o]).map Token.leaf ++ ds)] := by
  refine .branch fun lo => ⟨_, _, rfl, fun t hk ht hc => ?_⟩
  have hoperator : Cst.firstSignificant? (cs ++ (blanks ++ [o]).map Token.leaf ++ ds) =
      some o.text := by
    rw [List.append_assoc, firstSignificant?_append hl.plain, List.map_append, List.append_assoc,
      firstSignificant?_trivia hb]
    exact if_neg ho
  obtain ⟨l, htl, hP⟩ := hl.single lo
  obtain ⟨r, htr, hQ⟩ := hr.single
    (lo + Cst.widths (cs ++ (blanks ++ [o]).map Token.leaf))
  refine h t l r hP hQ hk (ht.trans hoperator) ?_
  rw [hc, draftsAmong_append, Draft.trees_append, htr, draftsAmong_append, draftsAmong_leaves,
    List.append_nil, htl]
  rfl

end IsOperand

def isValueKind (kind : SyntaxKind) : Bool :=
  [Kind.nameRef, Kind.number, Kind.string, Kind.templateExpr].contains kind

/-- Whether a tree is the leaf for a token that is a value of its own. -/
structure IsValueOf (t : Token) (u : Tree) : Prop where
  value : isValueKind u.kind = true
  kind_mem : u.kind ∈ t.kind.nodeKinds
  text_eq : u.text = some t.text
  children_eq : u.children = []

section Values

variable {t : Token} {u : Tree}

private theorem IsValueOf.kind_ne (h : IsValueOf t u) : u.kind ≠ Kind.binary := by
  intro hk
  have hvalue := h.value
  rw [hk] at hvalue
  exact absurd hvalue (by decide)

private theorem isOperand_value {kind : CstKind} {e : Nat → Entry}
    (hd : ∀ lo, drafts lo (.node kind [t.leaf]) = [.leaf (e lo)])
    (hv : ∀ lo, isValueKind (e lo).data.kind = true)
    (hk : ∀ lo, (e lo).data.kind ∈ t.kind.nodeKinds)
    (ht : ∀ lo, (e lo).data.text = some t.text) : IsOperand (IsValueOf t) [.node kind [t.leaf]] :=
  .leaf fun lo => ⟨e lo, hd lo, hv lo, hk lo, ht lo, rfl⟩

theorem isOperand_nameRef (hk : t.kind = .ident) :
    IsOperand (IsValueOf t) [.node .nameRef [t.leaf]] := by
  refine isOperand_value (fun _ => rfl) (fun _ => ?_) (fun _ => ?_) fun _ => ?_
  · exact (by decide : isValueKind Kind.nameRef = true)
  · simp [hk, TokenKind.nodeKinds, textEntry]
  · simp [textEntry, Token.leaf, Cst.findToken?, hk]

theorem isOperand_literal (hk : t.kind = .number ∨ t.kind = .string) :
    IsOperand (IsValueOf t) [.node .literal [t.leaf]] := by
  refine isOperand_value (fun _ => rfl) (fun _ => ?_) (fun _ => ?_) fun _ => ?_
  · have hkinds : isValueKind Kind.number = true ∧ isValueKind Kind.string = true := by decide
    rcases hk with hk | hk <;>
      simp [literalEntry, Token.leaf, Cst.findToken?, hk, textEntry, hkinds]
  · rcases hk with hk | hk <;>
      simp [literalEntry, Token.leaf, Cst.findToken?, hk, TokenKind.nodeKinds, textEntry]
  · rcases hk with hk | hk <;>
      simp [literalEntry, Token.leaf, Cst.findToken?, hk, textEntry]

theorem isOperand_templateExpr (hk : t.kind = .template) :
    IsOperand (IsValueOf t) [.node .templateExpr [t.leaf]] := by
  have hd : ∀ lo, drafts lo (.node .templateExpr [t.leaf]) =
      [.leaf (chunkEntry Kind.templateExpr .inExpression
        (place lo (.node .templateExpr [t.leaf])) lo t.text)] := by
    intro lo
    simp [drafts, chunkDrafts, Token.leaf, Cst.findToken?, hk]
  have hvalue : isValueKind Kind.templateExpr = true := by decide
  refine isOperand_value hd (fun _ => ?_) (fun _ => ?_) fun _ => ?_
  · simp [chunkEntry, templateEntry, hvalue]
  · simp [chunkEntry, templateEntry, hk, TokenKind.nodeKinds]
  · simp [chunkEntry, templateEntry]

end Values

/-! ## Readings -/

/-- All trees of some items are grouped, wherever the items lie. -/
def GroupsAll (cs : List Cst) : Prop := ∀ lo, ∀ t ∈ trees (draftsAmong lo cs), AllGrouped t

namespace GroupsAll

variable {cs ds : List Cst} {c : Cst} {k : SyntaxKind}

private theorem leaves (ts : List Token) : GroupsAll (ts.map Token.leaf) := by
  intro lo
  rw [draftsAmong_leaves]
  exact List.forall_mem_nil _

private theorem append (h : GroupsAll cs) (h' : GroupsAll ds) : GroupsAll (cs ++ ds) := by
  intro lo
  rw [draftsAmong_append, Draft.trees_append]
  exact List.forall_mem_append.2 ⟨h lo, h' _⟩

private theorem error (cs : List Cst) : GroupsAll [.node .error cs] := by
  intro lo
  have hk : Kind.error ≠ Kind.binary := by decide
  exact List.forall_mem_singleton.2 (allGrouped_of_kind_ne hk (List.forall_mem_nil _))

private theorem branch (hk : k ≠ Kind.binary) {c : Cst}
    (hd : ∀ lo, ∃ region text, drafts lo c = [branch k region text (draftsAmong lo cs)])
    (h : GroupsAll cs) : GroupsAll [c] := by
  intro lo
  obtain ⟨region, text, hd⟩ := hd lo
  rw [draftsAmong, draftsAmong, List.append_nil, hd]
  exact List.forall_mem_singleton.2 (allGrouped_of_kind_ne hk (h lo))

private theorem exprStatement (h : GroupsAll cs) : GroupsAll [.node .exprStatement cs] :=
  h.branch (by decide) fun _ => ⟨_, _, rfl⟩

private theorem assignment (h : GroupsAll cs) : GroupsAll [.node .assignment cs] := by
  intro lo
  have hname : ∀ t ∈ trees (nameDrafts lo cs), AllGrouped t := by
    unfold nameDrafts
    cases Cst.findToken? .ident lo cs with
    | none => exact List.forall_mem_nil _
    | some found =>
      have hk : Kind.name ≠ Kind.binary := by decide
      exact List.forall_mem_singleton.2 (allGrouped_of_kind_ne hk (List.forall_mem_nil _))
  have hk : Kind.assignment ≠ Kind.binary := by decide
  refine List.forall_mem_singleton.2 (allGrouped_of_kind_ne hk ?_)
  refine fun t ht => List.forall_mem_append.2 ⟨hname, h lo⟩ t ?_
  rw [← Draft.trees_append]
  exact ht

private theorem templateStatement (cs : List Cst) : GroupsAll [.node .templateStatement cs] := by
  intro lo t ht
  rw [draftsAmong, draftsAmong, List.append_nil] at ht
  obtain ⟨hk, hc⟩ := leaf_of_mem_chunkDrafts ht
  have hne : Kind.templateBlock ≠ Kind.binary := by decide
  exact allGrouped_of_kind_ne (hk ▸ hne) (by simp [hc])

end GroupsAll

/-- The items of a phrase that is an operand make up one node that fits; those of the others just
have to be grouped. -/
def Phrase.Groups (p : Phrase) (cs : List Cst) : Prop :=
  match p with
  | factor | term | expr => IsOperand (fun t => p.Fits t ∧ AllGrouped t) cs
  | closing _ _ | statement | program => GroupsAll cs

section Groups

variable {p : Phrase} {cs : List Cst} {blanks : List Token} {t : Token}

private theorem IsOperand.groupsAll {P : Tree → Prop} (h : IsOperand P cs)
    (hP : ∀ t, P t → AllGrouped t) : GroupsAll cs := by
  intro lo
  obtain ⟨t, ht, htree⟩ := h.single lo
  rw [ht]
  exact List.forall_mem_singleton.2 (hP t htree)

private theorem Phrase.Groups.all (h : p.Groups cs) : GroupsAll cs := by
  cases p with
  | factor | term | expr => exact IsOperand.groupsAll h fun _ => And.right
  | closing | statement | program => exact h

private theorem Phrase.Groups.behind (hb : ∀ b ∈ blanks, b.isTrivia) (h : p.Groups cs) :
    p.Groups (blanks.map Token.leaf ++ cs) := by
  cases p with
  | factor | term | expr => exact IsOperand.behind hb h
  | closing | statement | program => exact (GroupsAll.leaves blanks).append h

private theorem Phrase.Groups.lift (hp : p.isChain) (h : p.operand.Groups cs) : p.Groups cs := by
  cases p with
  | term | expr => exact IsOperand.imp h fun t ht => ⟨ht.1.lift rfl, ht.2⟩
  | factor | closing | statement | program => cases hp

private theorem groups_value (h : IsOperand (IsValueOf t) cs) : Phrase.factor.Groups cs :=
  h.imp fun u hu => ⟨hu.kind_ne, allGrouped_of_kind_ne hu.kind_ne (by simp [hu.children_eq])⟩

private theorem groups_error (cs : List Cst) : Phrase.factor.Groups [.node .error cs] := by
  have hk : Kind.error ≠ Kind.binary := by decide
  exact .leaf fun lo => ⟨_, rfl, hk, allGrouped_of_kind_ne hk (List.forall_mem_nil _)⟩

private theorem groups_paren (h : GroupsAll cs) : Phrase.factor.Groups [.node .paren cs] := by
  refine .branch fun lo => ⟨_, _, rfl, fun t hk _ hc => ?_⟩
  have hne : t.kind ≠ Kind.binary := by
    rw [hk]
    decide
  exact ⟨hne, allGrouped_of_kind_ne hne (hc ▸ h lo)⟩

private theorem Phrase.Groups.join {ds : List Cst} {o : Token} (hs : o.Spelled)
    (hj : p.joins o.kind) (hb : ∀ b ∈ blanks, b.isTrivia) (hl : p.Groups cs)
    (hr : p.operand.Groups ds) :
    p.Groups [.node .binary (cs ++ (blanks ++ [o]).map Token.leaf ++ ds)] := by
  have ho : ¬ o.isTrivia := by simp [Token.isTrivia, isTrivia_of_joins hj]
  have hnode : ∀ t l r : Tree, p.Fits l ∧ AllGrouped l → p.operand.Fits r ∧ AllGrouped r →
      t.kind = Kind.binary → t.text = some o.text → t.children = [l, r] →
      p.Fits t ∧ AllGrouped t := by
    intro t l r hl hr hk ht hc
    obtain ⟨hgrouped, hfits⟩ := grouped_of_joins hs hj hl.1 hr.1 hk ht hc
    refine ⟨hfits, allGrouped_iff.2 ⟨fun _ => hgrouped, ?_⟩⟩
    simp [hc, hl.2, hr.2]
  cases p with
  | term | expr => exact IsOperand.binary hl hr hb ho hnode
  | factor | closing | statement | program => cases hj

/-- Whatever the parser reads, operators are grouped. -/
theorem Reads.groups {stop : Nat} {ts : List Token} {is : List Cst} {fs : List Diagnostic}
    (h : Reads p stop ts is fs) (hs : ∀ t ∈ ts, t.Spelled) : p.Groups is := by
  -- Faults only leave error nodes, which are no operators: no rule needs a reading without them.
  induction h with
  | skip blank _ ih => exact (ih fun t ht => hs t (List.mem_append_right _ ht)).behind blank
  | literal kind => exact groups_value (isOperand_literal kind)
  | nameRef kind => exact groups_value (isOperand_nameRef kind)
  | template kind => exact groups_value (isOperand_templateExpr kind)
  | @paren _ o _ _ _ _ _ _ kind _ _ ih ih' =>
    have hinner := (ih fun t ht => hs t (by simp [ht])).all
    have hclosing := (ih' fun t ht => hs t (by simp [ht])).all
    exact groups_paren ((GroupsAll.leaves [o]).append (hinner.append hclosing))
  | lacking => exact groups_error []
  | misplaced => exact groups_error _
  | lift chain _ ih => exact (ih hs).lift chain
  | join blank joins _ _ ih ih' =>
    have hl := ih fun t ht => hs t (by simp [ht])
    have hr := ih' fun t ht => hs t (by simp [ht])
    exact hl.join (hs _ (by simp)) joins blank hr
  | found => exact GroupsAll.leaves _
  | missing => exact GroupsAll.error []
  | assignment _ _ _ _ _ _ ih ih' =>
    have hvalue := (ih fun t ht => hs t (by simp [ht])).all
    have hclosing := (ih' fun t ht => hs t (by simp [ht])).all
    exact (((GroupsAll.leaves _).append (.leaves _)).append (hvalue.append hclosing)).assignment
  | chunk => exact GroupsAll.templateStatement _
  | closedChunk => exact GroupsAll.templateStatement _
  | empty => exact ((GroupsAll.error []).append (.leaves _)).exprStatement
  | value _ _ ih ih' =>
    have hvalue := (ih fun t ht => hs t (List.mem_append_left _ ht)).all
    have hclosing := (ih' fun t ht => hs t (List.mem_append_right _ ht)).all
    exact (hvalue.append hclosing).exprStatement
  | stray _ _ _ ih =>
    exact (ih (List.forall_mem_nil _)).all.append ((GroupsAll.leaves _).append (.error _))
  | done => exact GroupsAll.leaves _
  | later _ _ _ ih ih' =>
    have hfirst := (ih fun t ht => hs t (List.mem_append_left _ ht)).all
    exact hfirst.append (ih' fun t ht => hs t (List.mem_append_right _ ht)).all

end Groups

/-! ## Syntax trees -/

section Lowered

variable {source : String} {level : AstLevel} {ast : Ast} {t u : Tree}

private theorem isSum_sketch (t : Tree) : IsSum (t.sketch NodeData.bare) ↔ IsSum t := by
  rw [IsSum, IsSum, Tree.kind_sketch, Tree.text_sketch]

private theorem isProduct_sketch (t : Tree) : IsProduct (t.sketch NodeData.bare) ↔ IsProduct t := by
  rw [IsProduct, IsProduct, Tree.kind_sketch, Tree.text_sketch]

private theorem Grouped.of_sketch (h : t.sketch NodeData.bare = u.sketch NodeData.bare)
    (hu : Grouped u) : Grouped t := by
  obtain ⟨ho, l, r, hc, hs, hp⟩ := hu
  obtain ⟨l', r', hc', hl, hr⟩ := Tree.exists_children_of_sketch h hc
  rw [← isSum_sketch, ← isProduct_sketch, ← h, isSum_sketch, isProduct_sketch] at ho
  rw [← isSum_sketch u, ← isSum_sketch r, ← h, ← hr, isSum_sketch, isSum_sketch] at hs
  rw [← isProduct_sketch u, ← isSum_sketch l, ← Tree.kind_sketch r, ← h, ← hr, ← hl,
    isProduct_sketch, isSum_sketch, Tree.kind_sketch] at hp
  exact ⟨ho, l', r', hc', hs, hp⟩

private theorem AllGrouped.of_sketch (h : t.sketch NodeData.bare = u.sketch NodeData.bare)
    (hu : AllGrouped u) : AllGrouped t := by
  have hpreorder := congrArg Tree.preorder h
  rw [Tree.preorder_sketch, Tree.preorder_sketch] at hpreorder
  refine Tree.forall_of_map_sketch (fun v w hvw hw hk => ?_) hpreorder hu
  rw [← Tree.kind_sketch, hvw, Tree.kind_sketch] at hk
  exact (hw hk).of_sketch hvw

/-- The binary nodes of a syntax tree are grouped. -/
theorem allGrouped_of_lower (h : lower (parse source) level = .ok ast) : AllGrouped ast.root := by
  obtain ⟨hlt, hl⟩ := lowered_of_lower h
  have hitems : GroupsAll (statements ⟨(lex source).tokens, 0⟩).items :=
    (statements_reads (lex source).tokens).groups (spelled_lexFrom 0 source.toList)
  refine AllGrouped.of_sketch hl.sketch_eq (allGrouped_of_kind_ne ?_ (hitems 0))
  exact (by decide : Kind.program ≠ Kind.binary)

end Lowered

end SourceModel.Calc
