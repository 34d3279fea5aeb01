import SourceModel.Proofs.Calc.Bounds
import SourceModel.Proofs.Calc.Elements
import SourceModel.Proofs.Calc.Problems
import SourceModel.Proofs.Document.Carets

/-!
# Regions split no character

The leaves of a concrete tree, one behind the other, are the text, so every tree starts and ends
where the text can be cut. Nodes take their bounds from tokens and from positions of empty error
nodes, and so the region of every node of a syntax tree splits no character, and neither does that
of a problem.
-/

namespace SourceModel

open Text (byteCount IsBoundary)

/-- Whether a text can be cut at both bounds of a region. -/
structure Region.Cuts (r : Region) (text : String) : Prop where
  offset : IsBoundary text r.offset
  stop : IsBoundary text r.stop

namespace Text

variable {text : String} {i j : Nat}

private theorem isBoundary_zero (text : String) : IsBoundary text 0 := ⟨[], text.toList, rfl, rfl⟩

private theorem isBoundary_size (text : String) : IsBoundary text (size text) :=
  ⟨text.toList, [], (List.append_nil _).symm, rfl⟩

private theorem IsBoundary.le_size (h : IsBoundary text i) : i ≤ size text := by
  obtain ⟨front, back, htext, rfl⟩ := h
  rw [size, htext, byteCount_append]
  exact Nat.le_add_right _ _

private theorem IsBoundary.min (h : IsBoundary text i) (h' : IsBoundary text j) :
    IsBoundary text (min i j) := by
  rcases Nat.le_total i j with hle | hle
  · rwa [Nat.min_eq_left hle]
  · rwa [Nat.min_eq_right hle]

private theorem IsBoundary.max (h : IsBoundary text i) (h' : IsBoundary text j) :
    IsBoundary text (max i j) := by
  rcases Nat.le_total i j with hle | hle
  · rwa [Nat.max_eq_right hle]
  · rwa [Nat.max_eq_left hle]

end Text

namespace Calc

open Draft (entriesAmong)

/-! ## Trees in a text -/

def Cst.chars (c : Cst) : List Char := c.leaves.flatMap fun leaf => leaf.2.toList

private theorem flatMap_chars (cs : List Cst) :
    cs.flatMap Cst.chars = (Cst.leavesAmong cs).flatMap fun leaf => leaf.2.toList := by
  induction cs with
  | nil => rfl
  | cons c cs ih => rw [List.flatMap_cons, ih, Cst.leavesAmong, List.flatMap_append, Cst.chars]

private theorem chars_node (kind : CstKind) (cs : List Cst) :
    (Cst.node kind cs).chars = cs.flatMap Cst.chars := (flatMap_chars cs).symm

private theorem chars_token (kind : TokenKind) (text : String) :
    (Cst.token kind text).chars = text.toList := List.append_nil _

private theorem byteCount_chars (c : Cst) : byteCount c.chars = c.width := by
  refine @Cst.induction (fun c => byteCount c.chars = c.width) ?_ ?_ c
  · intro kind text
    rw [chars_token]
    rfl
  · intro kind cs ih
    rw [chars_node, Cst.width]
    induction cs with
    | nil => rfl
    | cons c cs ihcs =>
      obtain ⟨hc, hcs⟩ := List.forall_mem_cons.1 ih
      rw [List.flatMap_cons, Text.byteCount_append, hc, ihcs hcs, Cst.widths]

/-- Trees stand in a text from an offset on: their leaves, one behind the other, are what the text
has there. -/
def StandsIn (text : String) (offset : Nat) (cs : List Cst) : Prop :=
  ∃ front back, text.toList = front ++ (cs.flatMap Cst.chars ++ back) ∧ byteCount front = offset

section StandsIn

variable {text name : String} {offset position : Nat} {c : Cst} {cs : List Cst} {kind : CstKind}
  {tokenKind : TokenKind}

private theorem StandsIn.start (h : StandsIn text offset cs) : IsBoundary text offset := by
  obtain ⟨front, back, htext, hfront⟩ := h
  exact ⟨front, _, htext, hfront⟩

private theorem StandsIn.cons (h : StandsIn text offset (c :: cs)) :
    StandsIn text offset [c] ∧ StandsIn text (offset + c.width) cs := by
  obtain ⟨front, back, htext, rfl⟩ := h
  rw [List.flatMap_cons, List.append_assoc] at htext
  refine ⟨⟨front, cs.flatMap Cst.chars ++ back, ?_, rfl⟩, front ++ c.chars, back, ?_, ?_⟩
  · rw [List.flatMap_singleton]
    exact htext
  · rw [htext, List.append_assoc]
  · rw [Text.byteCount_append, byteCount_chars]

private theorem StandsIn.stop (h : StandsIn text offset [c]) : IsBoundary text (offset + c.width) :=
  h.cons.2.start

private theorem StandsIn.children (h : StandsIn text offset [.node kind cs]) :
    StandsIn text offset cs := by
  unfold StandsIn at h ⊢
  rwa [List.flatMap_singleton, chars_node] at h

private theorem StandsIn.findToken? (h : StandsIn text offset cs)
    (hfind : Cst.findToken? tokenKind offset cs = some (position, name)) :
    StandsIn text position [.token tokenKind name] := by
  induction cs generalizing offset with
  | nil => cases hfind
  | cons c cs ih =>
    obtain ⟨hc, hcs⟩ := h.cons
    cases c with
    | node kind children => exact ih hcs hfind
    | token k t =>
      rw [Cst.findToken?] at hfind
      split at hfind
      · rename_i hk
        cases hfind
        rwa [hk] at hc
      · exact ih hcs hfind

private theorem HasNode.standsIn {children : List Cst}
    (h : HasNode offset cs position kind children) (hs : StandsIn text offset cs) :
    StandsIn text position [.node kind children] := by
  induction h with
  | here => exact hs.cons.1
  | inside _ ih => exact ih hs.cons.1.children
  | behind _ ih => exact ih hs.cons.2

end StandsIn

/-! ## Bounds -/

section Bounds

variable {text : String} {offset : Nat} {a b : Option (Nat × Nat)} {c : Cst} {cs : List Cst}

/-- Whether a text can be cut at bounds, if there are any. -/
def Severs (text : String) (bounds : Option (Nat × Nat)) : Prop :=
  ∀ s e, bounds = some (s, e) → IsBoundary text s ∧ IsBoundary text e

private theorem severs_none (text : String) : Severs text none := fun _ _ h => nomatch h

private theorem severs_some {s e : Nat} (hs : IsBoundary text s) (he : IsBoundary text e) :
    Severs text (some (s, e)) := by
  rintro _ _ ⟨⟩
  exact ⟨hs, he⟩

private theorem Severs.cover (h : Severs text a) (h' : Severs text b) :
    Severs text (coverBounds a b) := by
  rcases a with _ | ⟨s, e⟩
  · exact h'
  rcases b with _ | ⟨s', e'⟩
  · exact h
  obtain ⟨hs, he⟩ := h s e rfl
  obtain ⟨hs', he'⟩ := h' s' e' rfl
  exact severs_some (hs.min hs') (he.max he')

def SeversAt (text : String) (c : Cst) : Prop :=
  ∀ offset, StandsIn text offset [c] → Severs text (significantBounds offset c)

private theorem severs_boundsAmong (hcs : ∀ c ∈ cs, SeversAt text c) (h : StandsIn text offset cs) :
    Severs text (significantBoundsAmong offset cs) := by
  induction cs generalizing offset with
  | nil => exact severs_none text
  | cons c cs ih =>
    obtain ⟨hc, hrest⟩ := h.cons
    obtain ⟨hsevers, hcs⟩ := List.forall_mem_cons.1 hcs
    exact (hsevers offset hc).cover (ih hcs hrest)

private theorem severs_bounds (text : String) (c : Cst) : SeversAt text c := by
  refine Cst.induction ?_ ?_ c
  · intro kind name offset h
    rw [significantBounds]
    split
    · exact severs_none text
    · exact severs_some h.start h.stop
  · intro kind children ih offset h
    rw [significantBounds]
    split
    · exact severs_some h.start h.start
    · exact severs_boundsAmong ih h.children

variable (hsize : Text.size text < naOffset)
include hsize

private theorem cuts_place (h : StandsIn text offset [c]) : (place offset c).Cuts text := by
  rcases hb : significantBounds offset c with _ | ⟨s, e⟩
  · have hle := h.start.le_size
    have hempty : Region.make? offset 0 = .ok ⟨offset, 0, by omega⟩ :=
      Region.make?_eq_ok_iff.2 ⟨rfl, rfl⟩
    have hplace : place offset c = ⟨offset, 0, by omega⟩ := by
      simp only [place, significantRegion, hb, Region.empty?, hempty]
      rfl
    rw [hplace]
    exact ⟨h.start, h.start⟩
  · obtain ⟨hs, he⟩ := severs_bounds text c offset h s e hb
    obtain ⟨hoffset, hstop⟩ := place_bounds hb (Nat.lt_of_le_of_lt he.le_size hsize)
    exact ⟨hoffset ▸ hs, hstop ▸ he⟩

/-! ## Drafts -/

private theorem cuts_draftsAmong (h : StandsIn text offset cs) :
    ∀ e ∈ entriesAmong (draftsAmong offset cs), e.data.region.Cuts text := by
  intro e he
  obtain ⟨pos, kind, children, hnode, hmade⟩ := comesFrom_draftsAmong offset cs e he
  have hstands := hnode.standsIn h
  have hplace := cuts_place hsize hstands
  cases hmade with
  | branch | nameRef | error => exact hplace
  | name hf => exact cuts_place hsize (hstands.children.findToken? hf)
  | literal => rwa [region_literalEntry]
  | template => rwa [region_chunkEntry]

end Bounds

/-! ## Syntax trees -/

section Texts

variable {source : String} {level : AstLevel} {ast : Ast}

private theorem standsIn_parse (source : String) :
    StandsIn source 0 (statements ⟨(lex source).tokens, 0⟩).items := by
  have htext := congrArg String.toList (parse_lossless source).2.2.2
  rw [Cst.text, String.toList_join, List.flatMap_map] at htext
  refine ⟨[], [], ?_, rfl⟩
  rw [List.nil_append, List.append_nil, flatMap_chars]
  exact htext.symm

private theorem cuts_of_lower (h : lower (parse source) level = .ok ast) :
    ∀ data ∈ ast.root.datas, data.region.Cuts source := by
  obtain ⟨hlt, hl⟩ := lowered_of_lower h
  have hsize : Text.size source < naOffset := by
    rw [← width_parse]
    exact hlt
  have hwhole : (wholeRegion _ hlt).Cuts source := by
    refine ⟨Text.isBoundary_zero source, ?_⟩
    have hstop : (wholeRegion _ hlt).stop = Text.size source :=
      (Nat.zero_add _).trans (width_parse source)
    rw [hstop]
    exact Text.isBoundary_size source
  have hentries : ∀ e ∈ (programDraft _ hlt).entries, e.data.region.Cuts source :=
    List.forall_mem_cons.2
      ⟨hwhole, cuts_draftsAmong hsize (standsIn_parse source)⟩
  intro data hdata
  have hbare := List.mem_map_of_mem (f := NodeData.bare) hdata
  rw [hl.map_bare_datas] at hbare
  obtain ⟨e, he, heq⟩ := List.mem_map.1 hbare
  have hregion : e.data.bare.region = data.bare.region := congrArg NodeData.region heq
  exact (show e.data.region = data.region from hregion) ▸ hentries e he

private theorem cuts_preorder (h : lower (parse source) level = .ok ast) :
    ∀ t ∈ ast.root.preorder, t.region.Cuts source :=
  fun t ht => cuts_of_lower h t.data (List.mem_map_of_mem ht)

/-! ## What is made of a syntax tree -/

theorem cuts_nameAccess {a : NameAccess} (h : lower (parse source) level = .ok ast)
    (ha : a ∈ nameAccesses ast) : a.region.Cuts source := by
  obtain ⟨n, hn, hna⟩ := List.mem_filterMap.1 ha
  have hregion : a.region = n.tree.region := by
    obtain ⟨label, -, hna⟩ := Option.bind_eq_some_iff.1 hna
    split at hna
    · cases hna
      rfl
    · split at hna
      · cases hna
        rfl
      · cases hna
  exact hregion ▸ cuts_preorder h n.tree (Tree.mem_preorder_of_mem_nodesFrom hn)

private theorem region_ofNode_explainedFrom {es : List Entry} (h : ∀ e ∈ es, e.Plain)
    (identity : Nat) (messages : List String) :
    ∀ data ∈ explainedFrom identity messages es, (Problem.ofNode data).region = data.region := by
  induction es generalizing identity messages with
  | nil => exact List.forall_mem_nil _
  | cons e es ih =>
    obtain ⟨he, hes⟩ := List.forall_mem_cons.1 h
    have hexplained : ∀ message,
        (Problem.ofNode (explained identity message e.data)).region = e.data.region := by
      intro message
      rw [ofNode_explained he]
    rw [explainedFrom]
    split
    · refine List.forall_mem_cons.2 ⟨?_, ih hes _ _⟩
      have hnone : e.data.attachments.detail? = none := by
        rw [he.attachments]
        rfl
      rw [Problem.ofNode, hnone]
    · exact List.forall_mem_cons.2 ⟨hexplained _, ih hes _ _⟩
    · exact List.forall_mem_cons.2 ⟨hexplained _, ih hes _ _⟩

theorem cuts_problem {p : Problem} (h : lower (parse source) level = .ok ast)
    (hp : p ∈ ast.problems) : p.region.Cuts source := by
  obtain ⟨hlt, hl⟩ := lowered_of_lower h
  have hroot : p ∈ ast.root.problems := List.mem_mergeSort.1 hp
  rw [Tree.problems_eq hl.foreign] at hroot
  obtain ⟨data, hdata, rfl⟩ := List.mem_map.1 hroot
  have hmem := (List.mem_filter.1 hdata).1
  rw [region_ofNode_explainedFrom (plain_programDraft hlt) _ _ data (hl.datas_eq ▸ hmem)]
  exact cuts_of_lower h data hmem

theorem cuts_element {unit : String} {o : Outline} {e : Element}
    (h : lower (parse source) level = .ok ast) (ho : outline unit (Text.size source) ast = .ok o)
    (he : e ∈ o.elements) : e.range.Cuts source ∧ ∀ r, e.nameRange? = some r → r.Cuts source := by
  obtain ⟨range, hrange, hplains⟩ := plains_outline (isStatement_of_lower h) ho
  have hplain : e.plain ∈ o.plains := List.mem_map_of_mem he
  rw [hplains] at hplain
  change e.plain.range.Cuts source ∧ ∀ r, e.plain.nameRange? = some r → r.Cuts source
  rcases List.mem_cons.1 hplain with hunit | hrest
  · rw [hunit]
    obtain ⟨hoffset, hlength⟩ := Region.make?_eq_ok_iff.1 hrange
    have hstop : range.stop = Text.size source := by
      rw [Region.stop, hoffset, hlength, Nat.zero_add]
    refine ⟨⟨?_, ?_⟩, fun r hr => nomatch hr⟩
    · exact hoffset.symm ▸ Text.isBoundary_zero source
    · exact hstop.symm ▸ Text.isBoundary_size source
  · obtain ⟨s, hs, next, hmem⟩ := exists_of_mem_elementsFrom hrest
    have hstatement : s.2 ∈ ast.root.preorder :=
      Tree.mem_preorder_of_child (Tree.mem_of_mem_numbered hs)
    rcases mem_elementsOf hmem with hd | ⟨parent, n, hn, ht⟩
    · rw [hd]
      refine ⟨cuts_preorder h s.2 hstatement, fun r hr => ?_⟩
      obtain ⟨name, hname, rfl⟩ := Option.map_eq_some_iff.1 hr
      have hchild := List.mem_of_mem_head? (Option.filter_eq_some_iff.1 hname).1
      exact cuts_preorder h name
        (Tree.mem_preorder_trans hstatement (Tree.mem_preorder_of_child hchild))
    · rw [ht]
      have htree := Tree.mem_preorder_of_mem_nodesFrom (List.mem_filter.1 hn).1
      exact ⟨cuts_preorder h n.tree (Tree.mem_preorder_trans hstatement htree),
        fun r hr => nomatch hr⟩

end Texts

end Calc

end SourceModel
