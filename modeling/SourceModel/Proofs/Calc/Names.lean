import SourceModel.Calc.Outline
import SourceModel.Proofs.Calc.Lexemes
import SourceModel.Proofs.Calc.Operands
import SourceModel.Proofs.NameAccess
import SourceModel.Proofs.Related
import SourceModel.Proofs.Tree.Arranged

/-!
# Names

The name accesses of a text are its names, each once and in the order of the source. A name is
written just where it is the target of an assignment: the first child of an assignment is its
target, and no other node has that kind. As no name stands right behind another one, an offset
touches one access at most.
-/

namespace SourceModel.Calc

open Draft (trees)

/-! ## Targets -/

/-- Whether a tree has a target as its first child if it is an assignment, and none besides. -/
def FirstNamed (t : Tree) : Prop :=
  if t.kind = Kind.assignment then
    ∃ name rest, t.children = name :: rest ∧ name.kind = Kind.name ∧
      ∀ u ∈ rest, u.kind ≠ Kind.name
  else ∀ u ∈ t.children, u.kind ≠ Kind.name

section FirstNamed

variable {t u : Tree} {ts : List Tree} {data : NodeData}

private theorem firstNamed_of_ne (h : t.kind ≠ Kind.assignment)
    (ht : ∀ u ∈ t.children, u.kind ≠ Kind.name) : FirstNamed t := by
  rw [FirstNamed, if_neg h]
  exact ht

private theorem firstNamed_sketch : FirstNamed (t.sketch NodeData.bare) ↔ FirstNamed t := by
  have hkinds : ∀ ts : List Tree, (∀ u ∈ ts.map (Tree.sketch NodeData.bare), u.kind ≠ Kind.name) ↔
      ∀ u ∈ ts, u.kind ≠ Kind.name := by
    intro ts
    simp [Tree.kind_sketch]
  unfold FirstNamed
  rw [Tree.kind_sketch, Tree.children_sketch, Tree.sketches_eq_map]
  split
  · constructor
    · rintro ⟨name, rest, hc, hname, hrest⟩
      obtain ⟨name', rest', hc', rfl, rfl⟩ := List.map_eq_cons_iff.1 hc
      exact ⟨name', rest', hc', Tree.kind_sketch name' ▸ hname, (hkinds rest').1 hrest⟩
    · rintro ⟨name, rest, hc, hname, hrest⟩
      rw [hc, List.map_cons]
      exact ⟨_, _, rfl, (Tree.kind_sketch name).trans hname, (hkinds rest).2 hrest⟩
  · exact hkinds t.children

end FirstNamed

section Drafts

/-- Whether drafts are no targets, and the targets below them are the first children of
assignments. -/
structure Unnamed (ds : List Draft) : Prop where
  kind_ne : ∀ t ∈ trees ds, t.kind ≠ Kind.name
  firstNamed : ∀ t ∈ Tree.preorders (trees ds), FirstNamed t

variable {kind : SyntaxKind} {region : Region} {text : Option String} {ds es : List Draft}
  {e : Entry} {cs : List Cst}

private theorem unnamed_nil : Unnamed [] := ⟨List.forall_mem_nil _, List.forall_mem_nil _⟩

private theorem Unnamed.append (h : Unnamed ds) (h' : Unnamed es) : Unnamed (ds ++ es) := by
  constructor
  · rw [Draft.trees_append, List.forall_mem_append]
    exact ⟨h.kind_ne, h'.kind_ne⟩
  · rw [Draft.trees_append, Tree.preorders_append, List.forall_mem_append]
    exact ⟨h.firstNamed, h'.firstNamed⟩

private theorem Unnamed.branch (h : Unnamed ds) (hk : kind ≠ Kind.name ∧ kind ≠ Kind.assignment) :
    Unnamed [.branch kind region text ds] := by
  refine ⟨List.forall_mem_singleton.2 hk.1, ?_⟩
  simp only [trees, Draft.branch, Draft.tree, Tree.preorders, Tree.preorder, List.append_nil]
  exact List.forall_mem_cons.2 ⟨firstNamed_of_ne hk.2 h.kind_ne, h.firstNamed⟩

private theorem unnamed_leaf (hk : e.data.kind ≠ Kind.name ∧ e.data.kind ≠ Kind.assignment) :
    Unnamed [.leaf e] :=
  ⟨List.forall_mem_singleton.2 hk.1,
    List.forall_mem_singleton.2 (firstNamed_of_ne hk.2 (List.forall_mem_nil _))⟩

private theorem unnamed_chunkDrafts (hk : kind ≠ Kind.name ∧ kind ≠ Kind.assignment)
    (flags : EmbeddingFlags) (offset : Nat) :
    Unnamed (chunkDrafts kind flags offset region cs) := by
  unfold chunkDrafts
  cases Cst.findToken? .template offset cs with
  | none => exact unnamed_nil
  | some found =>
    refine unnamed_leaf ?_
    rw [chunkEntry, kind_judged]
    exact hk

private theorem unnamed_literal (offset : Nat) :
    Unnamed [.leaf (literalEntry offset region cs)] := by
  refine unnamed_leaf ?_
  unfold literalEntry
  split
  · rw [kind_judged]
    exact (by decide : Kind.string ≠ Kind.name ∧ Kind.string ≠ Kind.assignment)
  · exact (by decide : Kind.number ≠ Kind.name ∧ Kind.number ≠ Kind.assignment)

private theorem Unnamed.assignment {offset : Nat} (h : Unnamed ds) (hs : StartsWith .ident cs) :
    Unnamed [.branch Kind.assignment region text (nameDrafts offset cs ++ ds)] := by
  obtain ⟨start, name, rest, hstarts⟩ := hs.exists_starts rfl offset
  have hname : ∀ u ∈ Tree.preorders (trees (nameDrafts offset cs)), FirstNamed u := by
    rw [nameDrafts, hstarts.findToken?_eq]
    have hne : Kind.name ≠ Kind.assignment := by decide
    exact List.forall_mem_singleton.2 (firstNamed_of_ne hne (List.forall_mem_nil _))
  have hfirst : FirstNamed
      (Draft.branch Kind.assignment region text (nameDrafts offset cs ++ ds)).tree := by
    have hkind : (Draft.branch Kind.assignment region text (nameDrafts offset cs ++ ds)).tree.kind =
        Kind.assignment := rfl
    rw [FirstNamed, if_pos hkind, nameDrafts, hstarts.findToken?_eq]
    exact ⟨_, _, rfl, rfl, h.kind_ne⟩
  refine ⟨List.forall_mem_singleton.2 (by decide : Kind.assignment ≠ Kind.name), ?_⟩
  simp only [trees, Draft.branch, Draft.tree, Tree.preorders, Tree.preorder, List.append_nil,
    Draft.trees_append, Tree.preorders_append]
  simp only [Draft.branch, Draft.tree, Draft.trees_append] at hfirst
  refine List.forall_mem_cons.2 ⟨hfirst, List.forall_mem_append.2 ⟨hname, h.firstNamed⟩⟩

/-- In the nodes for a sound tree the targets are the first children of assignments. -/
def NamesFirst (c : Cst) : Prop := ∀ offset, Sound c → Unnamed (drafts offset c)

private theorem unnamed_draftsAmong (hcs : ∀ c ∈ cs, NamesFirst c) (hs : SoundAmong cs)
    (offset : Nat) : Unnamed (draftsAmong offset cs) := by
  induction cs generalizing offset with
  | nil => exact unnamed_nil
  | cons c cs ih =>
    refine (hcs c List.mem_cons_self offset hs.1).append ?_
    exact ih (fun d hd => hcs d (List.mem_cons_of_mem _ hd)) hs.2 _

private theorem namesFirst (c : Cst) : NamesFirst c := by
  refine Cst.induction ?_ ?_ c
  · intro kind text offset _
    exact unnamed_nil
  · intro kind children ih offset hs
    have hchildren := unnamed_draftsAmong ih hs.2.2 offset
    cases kind with
    | program => exact unnamed_nil
    | assignment => exact hchildren.assignment hs.2.1
    | exprStatement => exact hchildren.branch (by decide)
    | paren => exact hchildren.branch (by decide)
    | binary => exact hchildren.branch (by decide)
    | nameRef =>
      exact unnamed_leaf (by decide : Kind.nameRef ≠ Kind.name ∧ Kind.nameRef ≠ Kind.assignment)
    | literal => exact unnamed_literal offset
    | templateStatement => exact unnamed_chunkDrafts (by decide) _ offset
    | templateExpr => exact unnamed_chunkDrafts (by decide) _ offset
    | error =>
      exact unnamed_leaf (by decide : Kind.error ≠ Kind.name ∧ Kind.error ≠ Kind.assignment)

end Drafts

section Targets

variable {source : String} {level : AstLevel} {ast : Ast} {n : Ast.Node}

theorem firstNamed_of_lower (h : lower (parse source) level = .ok ast) :
    ast.root.kind = Kind.program ∧ ∀ n ∈ ast.nodes, FirstNamed n.tree := by
  obtain ⟨hlt, hl⟩ := lowered_of_lower h
  have hdrafts := unnamed_draftsAmong (fun c _ => namesFirst c) (sound_parse source) 0
  have hprogram : ∀ t ∈ (programDraft _ hlt).tree.preorder, FirstNamed t := by
    intro t ht
    have hbranch : Unnamed [programDraft _ hlt] := hdrafts.branch (by decide)
    apply hbranch.firstNamed
    simpa [trees, Tree.preorders] using ht
  have hsketch := congrArg Tree.preorder hl.sketch_eq
  rw [Tree.preorder_sketch, Tree.preorder_sketch] at hsketch
  constructor
  · rw [← Tree.kind_sketch, hl.sketch_eq, Tree.kind_sketch]
    rfl
  · intro n hn
    exact Tree.forall_of_sketch (fun _ => firstNamed_sketch) hsketch hprogram n.tree
      (Tree.mem_preorder_of_mem_nodesFrom hn)

private theorem kind_eq_name_iff (h : lower (parse source) level = .ok ast) (hn : n ∈ ast.nodes) :
    n.tree.kind = Kind.name ↔
      ∃ p ∈ ast.nodes, p.tree.kind = Kind.assignment ∧ p.childIds.head? = some n.id := by
  obtain ⟨hroot, hfirst⟩ := firstNamed_of_lower h
  constructor
  · intro hname
    have hid : n.id ≠ 0 := by
      intro h0
      have hn0 := Ast.eq_of_id_eq hn (Ast.rootNode_mem ast) h0
      rw [hn0] at hname
      exact absurd (hroot.symm.trans hname) (by decide)
    obtain ⟨p, hp, hc⟩ := Ast.exists_childOf hn hid
    have hmem := hc.mem
    have hpfirst := hfirst p hp
    unfold FirstNamed at hpfirst
    rw [Tree.numberedChildren] at hmem
    split at hpfirst
    · rename_i hkind
      obtain ⟨name, rest, hchildren, -, hrest⟩ := hpfirst
      refine ⟨p, hp, hkind, ?_⟩
      rw [hchildren, Tree.numbered] at hmem
      rw [Ast.Node.childIds, Tree.numberedChildren, hchildren, Tree.numbered]
      rcases List.mem_cons.1 hmem with heq | hmem
      · rw [List.map_cons, List.head?_cons, ← heq]
      · exact absurd hname (hrest _ (Tree.mem_of_mem_numbered hmem))
    · exact absurd hname (hpfirst _ (Tree.mem_of_mem_numbered hmem))
  · rintro ⟨p, hp, hkind, hhead⟩
    have hc := Ast.childOf_of_mem_childIds hp hn (List.mem_of_mem_head? hhead)
    have hpfirst := hfirst p hp
    rw [FirstNamed, if_pos hkind] at hpfirst
    obtain ⟨name, rest, hchildren, hname, -⟩ := hpfirst
    have hmem := hc.mem
    rw [Tree.numberedChildren, hchildren, Tree.numbered] at hmem
    rw [Ast.Node.childIds, Tree.numberedChildren, hchildren, Tree.numbered, List.map_cons,
      List.head?_cons, Option.some.injEq] at hhead
    rcases List.mem_cons.1 hmem with heq | hmem
    · rw [show n.tree = name from congrArg Prod.snd heq]
      exact hname
    · have hle : p.id + 1 + name.size ≤ n.id := Tree.le_of_mem_numbered hmem
      have hpos := name.size_pos
      omega

end Targets

/-! ## Accesses -/

/-- An access of a syntax tree is that of a name in the text: it lies where the name lies, under the
text of the name, and it is written just if its node is the target of an assignment. -/
structure Occurs (ast : Ast) (t : Token) (a : NameAccess) : Prop where
  label_eq : a.label = t.text
  offset_eq : a.region.offset = t.start
  stop_eq : a.region.stop = t.stop
  node : ∃ n ∈ ast.nodes, n.id = a.nameNode ∧ n.tree.region = a.region ∧ n.tree.text = some t.text
  isWrite_iff : a.isWrite = true ↔
    ∃ p ∈ ast.nodes, p.tree.kind = Kind.assignment ∧ p.childIds.head? = some a.nameNode

section Accesses

variable {source : String} {level : AstLevel} {ast : Ast} {n : Ast.Node} {t : Token}
  {context : List Token}

def isNameKind (kind : SyntaxKind) : Bool := kind = Kind.name ∨ kind = Kind.nameRef

private theorem isNameKind_iff {k : SyntaxKind} {kind : TokenKind} (h : k ∈ kind.nodeKinds) :
    kind = .ident ↔ isNameKind k = true := by
  have hall : ∀ k ∈ kind.nodeKinds, kind = .ident ↔ isNameKind k = true := by
    cases kind <;> decide
  exact hall k h

/-- The nodes for names stand for the names of the text. -/
theorem forall₂_nameNodes (h : lower (parse source) level = .ok ast) :
    List.Forall₂ (fun t n => StandsFor (lex source).tokens t n.tree.data)
      ((lex source).tokens.filter (·.kind = .ident))
      (ast.nodes.filter (isNameKind ·.tree.kind)) := by
  refine forall₂_nodes h rfl (fun k hk => ?_) isNameKind_iff
  rcases of_decide_eq_true hk with rfl | rfl <;> rfl

private theorem occurs_of_standsFor (h : lower (parse source) level = .ok ast) (hn : n ∈ ast.nodes)
    (hk : isNameKind n.tree.kind = true) (hs : StandsFor context t n.tree.data) :
    ∃ a, nameAccess? n = some a ∧ Occurs ast t a := by
  have htext : n.tree.text = some t.text := hs.text_eq
  have hne : n.tree.kind ≠ Kind.templateBlock := by
    intro e
    rw [e] at hk
    exact absurd hk (by decide)
  have hstop : n.tree.region.stop = t.stop := hs.stop_eq.resolve_right fun hb => hne hb.1
  have hiff := kind_eq_name_iff h hn
  by_cases hname : n.tree.kind = Kind.name
  · refine ⟨accessOf n t.text (n.parent?.getD n.id) true, ?_, rfl, hs.offset_eq, hstop, ?_, ?_⟩
    · simp [nameAccess?, htext, hname]
    · exact ⟨n, hn, rfl, rfl, htext⟩
    · exact iff_of_true rfl (hiff.1 hname)
  · have href : n.tree.kind = Kind.nameRef := (of_decide_eq_true hk).resolve_left hname
    refine ⟨accessOf n t.text n.id false, ?_, rfl, hs.offset_eq, hstop, ?_, ?_⟩
    · have hne : ¬ Kind.nameRef = Kind.name := by decide
      simp [nameAccess?, htext, href, hne]
    · exact ⟨n, hn, rfl, rfl, htext⟩
    · exact iff_of_false Bool.false_ne_true (mt hiff.2 hname)

private theorem nameAccess?_eq_none (h : isNameKind n.tree.kind = false) :
    nameAccess? n = none := by
  obtain ⟨hname, href⟩ := not_or.1 (of_decide_eq_false h)
  cases htext : n.tree.text with
  | none => simp [nameAccess?, htext]
  | some text => simp [nameAccess?, htext, hname, href]

private theorem forall₂_nameAccesses (h : lower (parse source) level = .ok ast) :
    List.Forall₂ (Occurs ast) ((lex source).tokens.filter (·.kind = .ident))
      (nameAccesses ast) := by
  have hnodes : nameAccesses ast = (ast.nodes.filter (isNameKind ·.tree.kind)).filterMap
      nameAccess? := by
    rw [nameAccesses, List.filterMap_filter]
    refine List.filterMap_congr fun n _ => ?_
    cases hk : isNameKind n.tree.kind with
    | true => rfl
    | false => exact nameAccess?_eq_none hk
  rw [hnodes]
  refine forall₂_filterMap (forall₂_nameNodes h) fun t n hn hs => ?_
  obtain ⟨hmem, hk⟩ := List.mem_filter.1 hn
  exact occurs_of_standsFor h hmem hk hs

end Accesses

/-! ## The set of accesses -/

/-- A set of accesses is that of a text with the given names: it has an access for each of them in
the group of its text, the groups stand by first names, and an offset determines an access. -/
structure Indexes (ast : Ast) (idents : List Token) (s : NameAccessSet) : Prop where
  accesses : ∃ as, as.Perm s.accesses ∧ List.Forall₂ (Occurs ast) idents as
  names_eq : s.names = (idents.map Token.text).eraseDups
  allOf : ∀ label, List.Forall₂ (Occurs ast) (idents.filter (·.text = label)) (s.allOf label)
  ascending : ∀ label, (s.allOf label).Pairwise fun a b => a.region.offset < b.region.offset
  noneTouched : s.accesses.Pairwise NameAccessSet.NoneTouched
  accessAt?_iff : ∀ offset a, s.accessAt? offset = some a ↔
    a ∈ s.accesses ∧ a.region.touches offset = true
  mem_coReferences : ∀ a ∈ s.accesses, a ∈ s.coReferences a

section Indexes

variable {source : String} {level : AstLevel} {ast : Ast} {idents : List Token}
  {as : List NameAccess}

private theorem apart_of_occurs (h : List.Forall₂ (Occurs ast) idents as)
    (hidents : idents.Pairwise fun t u => t.stop < u.start) : NameAccessSet.Apart as := by
  refine pairwise_of_forall₂ h hidents fun t u a b ha hb hlt => ?_
  rwa [ha.stop_eq, hb.offset_eq]

private theorem indexes_ofList (h : List.Forall₂ (Occurs ast) idents as)
    (hidents : idents.Pairwise fun t u => t.stop < u.start) : Indexes ast idents (.ofList as) := by
  have hapart := apart_of_occurs h hidents
  have hordered := hapart.ordered
  have hperm := NameAccessSet.accesses_perm hordered
  have hlabels : idents.map Token.text = as.map NameAccess.label :=
    map_eq_of_forall₂ h fun t a ha => ha.label_eq.symm
  refine ⟨⟨as, hperm.symm, h⟩, ?_, fun label => ?_, fun label => ?_, hapart.noneTouched,
    fun _ _ => NameAccessSet.accessAt?_eq_some_iff hapart.noneTouched, fun a ha => ?_⟩
  · rw [NameAccessSet.names_ofList hordered, hlabels]
  · rw [NameAccessSet.allOf_ofList hordered]
    refine List.rel_filter (fun t a ha => ?_) h
    simp only [decide_eq_true_eq, ha.label_eq]
  · rw [NameAccessSet.allOf_ofList hordered]
    refine (hapart.filter _).imp fun {a b} hlt => ?_
    exact Nat.lt_of_le_of_lt a.region.offset_le_stop hlt
  · rw [NameAccessSet.coReferences, NameAccessSet.allOf_ofList hordered]
    exact List.mem_filter.2 ⟨hperm.mem_iff.1 ha, decide_eq_true rfl⟩

private theorem pairwise_idents (source : String) :
    ((lex source).tokens.filter (·.kind = .ident)).Pairwise fun t u => t.stop < u.start := by
  refine ((pairwise_namesApart 0 source.toList).filter _).imp_of_mem fun {t u} ht hu hne => ?_
  have hkind : ∀ {t}, t ∈ (lex source).tokens.filter (·.kind = .ident) → t.kind = .ident :=
    fun ht => of_decide_eq_true (List.mem_filter.1 ht).2
  exact hne (hkind ht) (hkind hu)

/-- Every name of a text is in the set of its accesses, once. The lowering gives a tree for every
text within the limits for sizes. -/
theorem indexes_nameAccesses (source : String) (level : AstLevel) :
    (Text.size source < halfWordLimit → (parse source).tree.nodeCount ≤ TreeBuilder.maxNodes →
      ∃ ast, lower (parse source) level = .ok ast) ∧
      ∀ ast, lower (parse source) level = .ok ast →
        Indexes ast ((lex source).tokens.filter (·.kind = .ident)) (.ofList (nameAccesses ast)) :=
  ⟨fun hsize hcount => exists_lower hsize hcount level,
    fun _ h => indexes_ofList (forall₂_nameAccesses h) (pairwise_idents source)⟩

/-- A name that is written, one that has no place, and one that is missing its semicolon. -/
theorem indexes_nameAccesses_unexpected :
    ∃ ast, lower (parse "a = b a ( ; b") .full = .ok ast ∧
      Indexes ast ((lex "a = b a ( ; b").tokens.filter (·.kind = .ident))
        (.ofList (nameAccesses ast)) := by
  obtain ⟨hexists, hindexes⟩ := indexes_nameAccesses "a = b a ( ; b" .full
  obtain ⟨ast, hl⟩ := hexists (by decide) (Nat.le_trans (nodeCount_parse_le _) (by decide))
  exact ⟨ast, hl, hindexes ast hl⟩

end Indexes

end SourceModel.Calc
