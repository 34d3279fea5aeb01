import SourceModel.Proofs.Calc.Carrying
import SourceModel.Proofs.Calc.Contents
import SourceModel.Proofs.Calc.Lexemes
import SourceModel.Proofs.Calc.WordRuns

/-!
# Templates are split into their words

At the full level the nodes for embedded parts are those for the templates of the text, in the order
of the text, and each carries a body with one leaf for each word between the marks of its template.
-/

namespace SourceModel.Calc

/-! ## Opening marks -/

section Marks

private theorem lexeme_template {c : Char} {cs : List Char} (h : (lexeme c cs).kind = .template) :
    ∃ rest, c :: (lexeme c cs).tail = '{' :: '%' :: rest := by
  unfold lexeme at h ⊢
  split at h
  · cases h
  rename_i hn
  rw [if_neg hn]
  split at h
  · cases h
  rename_i hblank
  rw [if_neg hblank]
  split at h
  · cases h
  rename_i hhash
  rw [if_neg hhash]
  split at h
  · cases h
  rename_i hquote
  rw [if_neg hquote]
  split at h
  · rename_i hmark
    rw [if_pos hmark]
    obtain ⟨rfl, hhead⟩ := hmark
    obtain ⟨ds, rfl⟩ := List.head?_eq_some_iff.1 hhead
    exact ⟨_, rfl⟩
  split at h
  · cases h
  split at h
  · cases h
  split at h
  · rename_i kind hs
    have hk : kind = .template := h
    rw [hk] at hs
    unfold symbol? at hs
    split at hs <;> cases hs
  · cases h

private theorem marked_lexFrom (offset : Nat) (cs : List Char) :
    ∀ t ∈ (lexFrom offset cs).tokens, t.kind = .template →
      ∃ rest, t.text = String.ofList ('{' :: '%' :: rest) := by
  fun_induction lexFrom offset cs with
  | case1 => exact List.forall_mem_nil _
  | case2 offset c cs l stop token later faults ih =>
    refine List.forall_mem_cons.2 ⟨fun hk => ?_, ih⟩
    obtain ⟨rest, hrest⟩ := @lexeme_template c cs hk
    exact ⟨rest, congrArg String.ofList hrest⟩

end Marks

/-! ## Bodies -/

structure IsWordLeaf (source : String) (w : Nat × List Char) (leaf : Tree) : Prop where
  kind_eq : leaf.kind = Kind.templateWord
  children_eq : leaf.children = []
  foreign_eq : leaf.foreign = none
  offset_eq : leaf.region.offset = w.1
  stop_eq : leaf.region.stop = w.1 + Text.byteCount w.2
  text_eq : leaf.text = some (String.ofList w.2)
  slice?_eq : leaf.region.slice? source = some (String.ofList w.2)

/-- A body over the characters that start at `pos` in the source. Its leaves are their words, in
the order of the source. -/
structure IsBody (source : String) (pos : Nat) (inner : List Char) (body : Tree) : Prop where
  kind_eq : body.kind = Kind.templateBody
  foreign_eq : body.foreign = none
  offset_eq : body.region.offset = pos
  stop_eq : body.region.stop = pos + Text.byteCount inner
  words : ∃ words : List (Nat × List Char), (∀ w, w ∈ words ↔ IsWordIn pos inner w) ∧
    words.Pairwise (fun v w => v.1 + Text.byteCount v.2 ≤ w.1) ∧
      List.Forall₂ (IsWordLeaf source) words body.children

/-- The node for a template carries a body over what stands between the marks. -/
structure IsTemplate (source : String) (ast : Ast) (t : Token) (n : Ast.Node) : Prop where
  offset_eq : n.tree.region.offset = t.start
  text_eq : n.tree.text = some t.text
  carries : ∃ inner body, IsInterior t.text.toList inner ∧
    ast.foreign? n.id = some ⟨templateLanguage, body⟩ ∧ IsBody source (t.start + 2) inner body

section Bodies

variable {source : String} {offset pos : Nat} {chunk inner : List Char} {w : Nat × List Char}

private theorem isWordLeaf_wordLeaf (hlt : pos + Text.byteCount inner < naOffset)
    (hslice : Text.slice? source pos (pos + Text.byteCount inner) = some (String.ofList inner))
    (hw : IsWordIn pos inner w) : IsWordLeaf source w (wordLeaf w) := by
  obtain ⟨hle, hword⟩ := hw.slice?_eq hslice
  obtain ⟨hoffset, hstop⟩ := Region.ofBounds?_eq_ok_iff.1 (wordLeaf_region w.1 w.2 (by omega))
  exact
    { kind_eq := rfl
      children_eq := rfl
      foreign_eq := rfl
      offset_eq := hoffset
      stop_eq := hstop
      text_eq := rfl
      slice?_eq := by rw [Region.slice?, hoffset, hstop, hword] }

private theorem isBody_chunkTree (h : IsInterior chunk inner)
    (hlt : offset + Text.size (String.ofList chunk) < naOffset)
    (hslice : Text.slice? source (offset + 2) (offset + 2 + Text.byteCount inner) =
      some (String.ofList inner)) :
    IsBody source (offset + 2) inner (chunkTree offset (String.ofList chunk) hlt) := by
  have hoffset : (chunkTree offset (String.ofList chunk) hlt).region.offset = offset + 2 := by
    rw [region_chunkTree, chunkRegion_offset, h.templateInterior_eq]
  have hstop : (chunkTree offset (String.ofList chunk) hlt).region.stop =
      offset + 2 + Text.byteCount inner := by
    rw [region_chunkTree, chunkRegion_stop, h.templateInterior_eq, Nat.add_assoc]
  have hchildren : (chunkTree offset (String.ofList chunk) hlt).children =
      (wordsFrom (offset + 2) inner).map wordLeaf := by
    rw [children_chunkTree, h.chunkWords_eq]
  have hmem := mem_wordsFrom (offset + 2) inner
  refine
    { kind_eq := rfl
      foreign_eq := rfl
      offset_eq := hoffset
      stop_eq := hstop
      words := ⟨wordsFrom (offset + 2) inner, hmem, (wordsIn_wordsFrom _ _).pairwise, ?_⟩ }
  rw [hchildren, List.forall₂_map_right_iff, List.forall₂_same]
  intro w hw
  refine isWordLeaf_wordLeaf ?_ hslice ((hmem w).1 hw)
  rw [← hstop]
  exact Region.stop_lt_naOffset _

end Bodies

/-! ## Texts -/

section Texts

variable {source : String} {ast : Ast} {t : Token} {n : Ast.Node}

private theorem isTemplate_of_stands (ht : t ∈ (lex source).tokens) (hk : t.kind = .template)
    (hn : n ∈ ast.nodes) (hkind : isTemplateKind n.tree.kind = true)
    (hstands : StandsFor (lex source).tokens t n.tree.data)
    (hf : Furnished n.tree.data n.tree.foreign) : IsTemplate source ast t n := by
  refine ⟨hstands.offset_eq, hstands.text_eq, ?_⟩
  obtain ⟨rest, htext⟩ := marked_lexFrom 0 source.toList t ht hk
  obtain ⟨inner, hinner⟩ := exists_isInterior rest
  have hchunk := slice?_lex source t ht
  rw [htext] at hchunk
  have hslice := Text.slice?_slice? hchunk hinner.slice?_eq
  rw [← Nat.add_assoc] at hslice
  obtain ⟨flags, text, hlt, hembedding, htext', hforeign⟩ := hf.exists_words hkind
  obtain rfl : text = String.ofList ('{' :: '%' :: rest) :=
    Option.some.inj (htext'.symm.trans (hstands.text_eq.trans (congrArg some htext)))
  refine ⟨inner, chunkTree _ _ hlt, ?_, ?_, ?_⟩
  · rw [htext, String.toList_ofList]
    exact hinner
  · rw [Ast.foreign?, Ast.get?_of_mem_nodes hn]
    simp [hembedding, hforeign]
  · rw [← hstands.offset_eq] at hslice ⊢
    exact isBody_chunkTree hinner hlt hslice

private theorem isTemplate_of_lower (h : lower (parse source) .full = .ok ast) :
    List.Forall₂ (IsTemplate source ast) ((lex source).tokens.filter (·.kind = .template))
      (ast.nodes.filter (·.tree.isEmbedding)) := by
  have hfurnished := furnished_of_lower h
  have hfilter : ast.nodes.filter (·.tree.isEmbedding) =
      ast.nodes.filter (isTemplateKind ·.tree.kind) :=
    List.filter_congr fun n hn => (hfurnished n hn).isSome_embedding
  rw [hfilter]
  refine forall₂_of_mem (forall₂_templateNodes h) fun t ht n hn hstands => ?_
  obtain ⟨ht, hk⟩ := List.mem_filter.1 ht
  obtain ⟨hn, hkind⟩ := List.mem_filter.1 hn
  exact isTemplate_of_stands ht (of_decide_eq_true hk) hn hkind hstands (hfurnished n hn)

end Texts

/-- At the full level the embedding nodes are those for the templates of a text, in order, and each
carries a body whose leaves are the words between the marks. The minimal level has no trees of
templates, and is the same otherwise. The lowering gives a tree for every text within the limits
for sizes. -/
theorem splits_templates (source : String) :
    (Text.size source < halfWordLimit → (parse source).tree.nodeCount ≤ TreeBuilder.maxNodes →
      ∃ full, lower (parse source) .full = .ok full) ∧
    (∀ minimal, lower (parse source) .minimal = .ok minimal →
      ∀ n ∈ minimal.nodes, n.tree.foreign = none) ∧
    ∀ full, lower (parse source) .full = .ok full →
      List.Forall₂ (IsTemplate source full) ((lex source).tokens.filter (·.kind = .template))
        (full.nodes.filter (·.tree.isEmbedding)) ∧
      (∀ n ∈ full.nodes, n.tree.isEmbedding = false → n.tree.foreign = none) ∧
      lower (parse source) .minimal = .ok ⟨full.language, full.root.alone⟩ := by
  refine ⟨fun hsize hcount => exists_lower hsize hcount .full, fun minimal h n hn => ?_,
    fun full h => ⟨isTemplate_of_lower h, fun n hn => ?_, lower_minimal h⟩⟩
  · have hmem := Tree.mem_preorder_of_mem_nodesFrom hn
    exact foreign_of_minimal h n.tree.foreign (List.mem_map_of_mem hmem)
  · exact (furnished_of_lower h n hn).eq_none

/-- Templates that are closed, have nothing between their marks, or are too short for both marks. -/
theorem splits_templates_short :
    ∃ full, lower (parse "x = {% a  b %} + {%%}; {%}") .full = .ok full ∧
      List.Forall₂ (IsTemplate "x = {% a  b %} + {%%}; {%}" full)
        ((lex "x = {% a  b %} + {%%}; {%}").tokens.filter (·.kind = .template))
        (full.nodes.filter (·.tree.isEmbedding)) ∧
      lower (parse "x = {% a  b %} + {%%}; {%}") .minimal =
        .ok ⟨full.language, full.root.alone⟩ := by
  obtain ⟨hexists, -, htemplates⟩ := splits_templates "x = {% a  b %} + {%%}; {%}"
  obtain ⟨full, hl⟩ := hexists (by decide) (Nat.le_trans (nodeCount_parse_le _) (by decide))
  obtain ⟨hforall, -, hminimal⟩ := htemplates full hl
  exact ⟨full, hl, hforall, hminimal⟩

end SourceModel.Calc
