import SourceModel.Calc.Outline
import SourceModel.Proofs.Calc.Lowered
import SourceModel.Proofs.Outline.Building
import SourceModel.Proofs.Tree.Links

/-!
# The outline of a nested tree

Where the statements of a program are nested, every declaration and every template is accepted by
the outline builder. There are no more elements than nodes, so the numbers suffice. As the lowering
gives nested trees, a text always has a syntax tree and an outline unless it is too large.
-/

namespace SourceModel.Calc

open OutlineBuilder (maxElements add_eq size_push accepts_push_size)
open SourceModel.Tree (NestedIn StartsBefore sizes)

/-! ## Nodes of a statement -/

/-- Whether nodes lie within `[lo, hi)` and start in the order of the source. -/
def Ordered (lo hi : Nat) (ns : List Ast.Node) : Prop :=
  (∀ n ∈ ns, lo ≤ n.tree.region.offset ∧ n.tree.region.stop ≤ hi) ∧
    ns.Pairwise fun m n => StartsBefore m.tree n.tree

private theorem Ordered.filter {lo hi : Nat} {ns : List Ast.Node} (h : Ordered lo hi ns)
    (p : Ast.Node → Bool) : Ordered lo hi (ns.filter p) :=
  ⟨fun n hn => h.1 n (List.mem_filter.1 hn).1, h.2.filter p⟩

/-- The nodes of a nested tree are in the order of the source. -/
theorem ordered_nodesFrom {t : Tree} (h : t.Nested) (id : Nat) (ancestors : List Nat) :
    Ordered t.region.offset t.region.stop (t.nodesFrom id ancestors) := by
  obtain ⟨hin, hord⟩ := h.preorder
  rw [← Tree.map_tree_nodesFrom id ancestors] at hin hord
  exact ⟨fun n hn => hin _ (List.mem_map_of_mem hn), List.pairwise_map.1 hord⟩

private theorem length_nodesFrom (id : Nat) (ancestors : List Nat) (t : Tree) :
    (t.nodesFrom id ancestors).length = t.size := by
  rw [← Tree.length_preorder, ← Tree.map_tree_nodesFrom id ancestors, List.length_map]

private theorem length_filter_nodesFrom {t : Tree} (h : t.kind ≠ Kind.templateExpr) (id : Nat)
    (ancestors : List Nat) :
    ((t.nodesFrom id ancestors).filter fun n => n.tree.kind = Kind.templateExpr).length + 1 ≤
      t.size := by
  cases t with
  | node data children foreign =>
    have hlen := length_nodesFrom id ancestors (.node data children foreign)
    have hle := List.length_filter_le (fun n : Ast.Node => decide (n.tree.kind = Kind.templateExpr))
      (Tree.nodesAmong (id + 1) (id :: ancestors) children)
    rw [Tree.nodesFrom, List.length_cons] at hlen
    rw [Tree.nodesFrom, List.filter_cons_of_neg (by simpa using h)]
    omega

private theorem containsRegion_target {t target : Tree} (h : t.Nested)
    (ht : target? t = some target) : t.region.containsRegion target.region = true := by
  obtain ⟨hhead, -⟩ := Option.filter_eq_some_iff.1 ht
  obtain ⟨rest, hc⟩ := List.head?_eq_some_iff.1 hhead
  have hn := (Tree.nested_iff t).1 h
  rw [hc] at hn
  exact Region.containsRegion_iff.2 ⟨hn.1, hn.2.2.le⟩

private theorem Ordered.tail {lo hi : Nat} {n : Ast.Node} {ns : List Ast.Node}
    (h : Ordered lo hi (n :: ns)) : Ordered n.tree.region.offset hi ns :=
  ⟨fun m hm => ⟨(List.pairwise_cons.1 h.2).1 m hm, (h.1 m (List.mem_cons_of_mem _ hm)).2⟩,
    (List.pairwise_cons.1 h.2).2⟩

/-! ## Additions -/

section Additions

variable {b : OutlineBuilder} {parent pos lo mid hi n : Nat}

/-- The builder `b'` has at most `n` elements more than `b`, all of them below the element with
number `parent`, which accepts what lies behind `pos`. -/
structure Extends (b b' : OutlineBuilder) (parent pos hi n : Nat) : Prop where
  size_le : b'.outline.size ≤ b.outline.size + n
  accepts : b'.Accepts parent pos hi
  others : ∀ i lo hi, i < b.outline.size → i ≠ parent → b.Accepts i lo hi → b'.Accepts i lo hi

def templateElement (parent : Nat) (n : Ast.Node) : Element where
  type := .embeddedPart
  name := templateElementName
  id := ""
  parent? := some parent
  range := n.tree.region
  nameRange? := none
  node? := some n.id

private theorem outlineTemplate_eq {n : Ast.Node} (h : b.Accepts parent lo hi)
    (hlo : lo ≤ n.tree.region.offset) (hhi : n.tree.region.stop ≤ hi)
    (hn : b.outline.size < maxElements) :
    outlineTemplate b parent n = .ok (b.push (templateElement parent n)) := by
  have hadd := add_eq h hlo hhi hn .embeddedPart templateElementName none
    (fun _ hr => by cases hr) (some n.id)
  rw [outlineTemplate, hadd]
  rfl

private theorem foldlM_outlineTemplate {ns : List Ast.Node} (h : b.Accepts parent lo hi)
    (hns : Ordered lo mid ns) (hlo : lo ≤ mid) (hhi : mid ≤ hi)
    (hn : b.outline.size + ns.length ≤ maxElements) :
    ∃ b', ns.foldlM (fun b n => outlineTemplate b parent n) b = .ok b' ∧
      Extends b b' parent mid hi ns.length := by
  induction ns generalizing b lo with
  | nil =>
    exact ⟨b, rfl, Nat.le_refl _, h.mono hlo (Nat.le_refl _), fun _ _ _ _ _ hi => hi⟩
  | cons n ns ih =>
    obtain ⟨ho, hs⟩ := hns.1 n (List.mem_cons_self ..)
    have hregion := n.tree.region.offset_le_stop
    rw [List.length_cons] at hn
    have hadd := outlineTemplate_eq h ho (Nat.le_trans hs hhi) (by omega)
    have hsize : (b.push (templateElement parent n)).outline.size = b.outline.size + 1 := size_push
    obtain ⟨b', hb, hext⟩ := @ih (b.push (templateElement parent n)) n.tree.region.offset
      (h.push ho) hns.tail (by omega) (by omega)
    refine ⟨b', ?_, ?_, hext.accepts, fun i lo hi hlt hne hacc => ?_⟩
    · rw [List.foldlM_cons, hadd]
      exact hb
    · have := hext.size_le
      rw [List.length_cons]
      omega
    · refine hext.others i lo hi (by omega) hne (hacc.push_of_ne ?_)
      simpa [templateElement] using Ne.symm hne

def declaration (id : Nat) (t : Tree) : Element where
  type := .declaration
  name := .simple (((target? t).bind Tree.text).getD "")
  id := ""
  parent? := some OutlineBuilder.root
  range := t.region
  nameRange? := (target? t).map Tree.region
  node? := some id

private theorem outlineAssignment_eq {t : Tree} (h : b.Accepts OutlineBuilder.root lo hi)
    (ht : t.Nested) (hlo : lo ≤ t.region.offset) (hhi : t.region.stop ≤ hi)
    (hn : b.outline.size < maxElements) (id : Nat) (ha : t.kind = Kind.assignment) :
    outlineStatement b id t =
      outlineTemplates (b.push (declaration id t)) b.outline.size (t.nodesFrom id [0]) := by
  have hadd := add_eq h hlo hhi hn .declaration (declaration id t).name
    (declaration id t).nameRange?
    (fun r hr => by
      obtain ⟨target, htarget, rfl⟩ := Option.map_eq_some_iff.1 hr
      exact containsRegion_target ht htarget) (some id)
  unfold outlineStatement
  rw [if_pos ha]
  change (b.add _ _ (declaration id t).name _ (declaration id t).nameRange? _ >>= _) = _
  rw [hadd]
  rfl

private theorem outlineAssignment_ok {t : Tree} (h : b.Accepts OutlineBuilder.root lo hi)
    (ht : t.Nested) (hlo : lo ≤ t.region.offset) (hhi : t.region.stop ≤ hi)
    (hn : b.outline.size + t.size ≤ maxElements) (id : Nat) (ha : t.kind = Kind.assignment) :
    ∃ b', outlineStatement b id t = .ok b' ∧
      Extends b b' OutlineBuilder.root t.region.stop hi t.size := by
  have hregion := t.region.offset_le_stop
  have hroot := h.lt_size
  have hcount := length_filter_nodesFrom (t := t) (by rw [ha]; decide) id [0]
  have hordered := (ordered_nodesFrom ht id [0]).filter fun n => n.tree.kind = Kind.templateExpr
  have hsize : (b.push (declaration id t)).outline.size = b.outline.size + 1 := size_push
  have hdecl : (b.push (declaration id t)).Accepts b.outline.size t.region.offset t.region.stop :=
    accepts_push_size
  obtain ⟨b', hb, hext⟩ := foldlM_outlineTemplate hdecl hordered hregion (Nat.le_refl _) (by omega)
  have hle := hext.size_le
  refine ⟨b', ?_, by omega, ?_, fun i lo hi hlt hne hacc => ?_⟩
  · rw [outlineAssignment_eq h ht hlo hhi (by omega) id ha]
    exact hb
  · have hunit : (b.push (declaration id t)).Accepts OutlineBuilder.root t.region.offset hi :=
      h.push hlo
    exact (hext.others _ _ _ (by omega) (by omega) hunit).mono hregion (Nat.le_refl _)
  · refine hext.others i lo hi (by omega) (by omega) (hacc.push_of_ne ?_)
    simpa [declaration] using Ne.symm hne

private theorem outlineStatement_ok {t : Tree} (h : b.Accepts OutlineBuilder.root lo hi)
    (ht : t.Nested) (hlo : lo ≤ t.region.offset) (hhi : t.region.stop ≤ hi)
    (hn : b.outline.size + t.size ≤ maxElements) (id : Nat) :
    ∃ b', outlineStatement b id t = .ok b' ∧
      Extends b b' OutlineBuilder.root t.region.stop hi t.size := by
  have hregion := t.region.offset_le_stop
  have hpos := t.size_pos
  have hlen := length_nodesFrom id [0] t
  have hordered := (ordered_nodesFrom ht id [0]).filter fun n => n.tree.kind = Kind.templateExpr
  by_cases ha : t.kind = Kind.assignment
  · exact outlineAssignment_ok h ht hlo hhi hn id ha
  · unfold outlineStatement
    by_cases hb : t.kind = Kind.templateBlock
    · have hall : Ordered lo t.region.stop [⟨id, t, [0]⟩] := by
        simp [Ordered, hlo]
      obtain ⟨b', hb', hext⟩ := foldlM_outlineTemplate h hall (by omega) hhi
        (by rw [List.length_singleton]; omega)
      refine ⟨b', ?_, ?_, hext.accepts, hext.others⟩
      · rw [if_neg ha, if_pos hb]
        simpa using hb'
      · have := hext.size_le
        rw [List.length_singleton] at this
        omega
    · have hfilter := List.length_filter_le (fun n => n.tree.kind = Kind.templateExpr)
        (t.nodesFrom id [0])
      obtain ⟨b', hb', hext⟩ := foldlM_outlineTemplate (h.mono hlo (Nat.le_refl _)) hordered
        (by omega) hhi (by omega)
      refine ⟨b', ?_, ?_, hext.accepts, hext.others⟩
      · rw [if_neg ha, if_neg hb]
        exact hb'
      · have := hext.size_le
        omega

private theorem foldlM_outlineStatement {ts : List Tree} (h : b.Accepts OutlineBuilder.root lo hi)
    (hts : NestedIn lo hi ts) (hn : b.outline.size + sizes ts ≤ maxElements) (id : Nat) :
    ∃ b', (Tree.numbered id ts).foldlM (fun b (id, t) => outlineStatement b id t) b = .ok b' ∧
      b'.outline.size ≤ b.outline.size + sizes ts := by
  induction ts generalizing b lo id with
  | nil => exact ⟨b, rfl, Nat.le_refl _⟩
  | cons t ts ih =>
    obtain ⟨hlo, ht, hrest⟩ := hts
    rw [sizes] at hn
    obtain ⟨b', hb, hext⟩ := outlineStatement_ok h ht hlo hrest.le (by omega) id
    have hle := hext.size_le
    obtain ⟨b'', hb', hle'⟩ := ih hext.accepts hrest (by omega) (id + t.size)
    refine ⟨b'', ?_, ?_⟩
    · rw [Tree.numbered, List.foldlM_cons]
      change (outlineStatement b id t >>= _) = _
      rw [hb]
      exact hb'
    · rw [sizes]
      omega

end Additions

/-- A nested tree over a whole text has an outline, in which there are no more elements than
nodes. -/
theorem exists_outline (unit : String) {size : Nat} {ast : Ast}
    (hregion : Region.make? 0 size = .ok ast.root.region) (hn : ast.root.Nested)
    (hcount : ast.size ≤ maxElements) :
    ∃ o, outline unit size ast = .ok o ∧ o.size ≤ ast.size := by
  obtain ⟨astLanguage, root⟩ := ast
  have hstart := OutlineBuilder.accepts_start language unit root.region false
  have hone := OutlineBuilder.size_start language unit root.region false
  have hsize : Ast.size ⟨astLanguage, root⟩ = 1 + sizes root.children := by
    cases root
    rfl
  obtain ⟨b, hb, hle⟩ := foldlM_outlineStatement hstart ((Tree.nested_iff root).1 hn) (by omega) 1
  refine ⟨b.finish, ?_, ?_⟩
  · unfold outline
    rw [hregion, TreeBuilder.ok_bind, Tree.numberedChildren, hb]
    rfl
  · rw [hsize, ← hone]
    exact hle

theorem make?_of_lower {source : String} {level : AstLevel} {ast : Ast}
    (h : lower (parse source) level = .ok ast) :
    Region.make? 0 (Text.size source) = .ok ast.root.region := by
  obtain ⟨hlt, hl⟩ := lowered_of_lower h
  rw [hl.region_eq]
  exact Region.make?_eq_ok_iff.2 ⟨rfl, width_parse source⟩

/-- However malformed a text is, it has a syntax tree at either level and an outline, as long as its
offsets and its nodes can be numbered with 32 bits. -/
theorem exists_lower_outline {source : String} (hsize : Text.size source < halfWordLimit)
    (hcount : (parse source).tree.nodeCount ≤ TreeBuilder.maxNodes) (level : AstLevel)
    (unit : String) :
    ∃ ast o, lower (parse source) level = .ok ast ∧
      ast.size = (parse source).tree.nodeCount ∧
        outline unit (Text.size source) ast = .ok o ∧ o.size ≤ ast.size := by
  obtain ⟨ast, hlower⟩ := exists_lower hsize hcount level
  obtain ⟨hlt, hl⟩ := lowered_of_lower hlower
  obtain ⟨o, ho, hle⟩ := exists_outline unit (make?_of_lower hlower) hl.nested
    (by rw [hl.size_eq]; exact hcount)
  exact ⟨ast, o, hlower, hl.size_eq, ho, hle⟩

/-- A semicolon without a statement and a template without an end. -/
theorem exists_lower_outline_malformed :
    Text.size "; \x7b% a" < halfWordLimit ∧
      (parse "; \x7b% a").tree.nodeCount ≤ TreeBuilder.maxNodes ∧
      ∃ ast o, lower (parse "; \x7b% a") .full = .ok ast ∧
        ast.size = (parse "; \x7b% a").tree.nodeCount ∧
          outline "unit" (Text.size "; \x7b% a") ast = .ok o ∧ o.size ≤ ast.size := by
  have hsize : Text.size "; \x7b% a" < halfWordLimit := by decide
  have hcount : (parse "; \x7b% a").tree.nodeCount ≤ TreeBuilder.maxNodes :=
    Nat.le_trans (nodeCount_parse_le _) (by decide)
  exact ⟨hsize, hcount, exists_lower_outline hsize hcount .full "unit"⟩

end SourceModel.Calc
