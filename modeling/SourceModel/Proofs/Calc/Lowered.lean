import SourceModel.Proofs.Calc.Attaching
import SourceModel.Proofs.Calc.Hosting
import SourceModel.Proofs.Calc.Lexing

/-!
# What the lowering gives

The syntax tree of a text is the draft of its concrete tree with the templates and the details
attached. Within the limits for sizes it exists for every text.
-/

namespace SourceModel.Calc

open TreeBuilder (within within_of_le ok_bind bind_eq_ok maxNodes)

private theorem mem_pendingFrom {id : Nat} {es : List Entry} {t : PendingTemplate}
    (h : t ∈ pendingFrom id es) : ∃ (i : Nat) (e : Entry), es[i]? = some e ∧ t.node = id + i ∧
      e.chunk = some (t.offset, t.text) := by
  induction es generalizing id with
  | nil => cases h
  | cons e es ih =>
    rcases List.mem_append.1 h with h | h
    · obtain ⟨⟨start, text⟩, hc, rfl⟩ := List.mem_map.1 h
      exact ⟨0, e, rfl, rfl, Option.mem_toList.1 hc⟩
    · obtain ⟨i, e', he, hn, hc⟩ := ih h
      exact ⟨i + 1, e', by simpa using he, by omega, hc⟩

section Lowered

variable {children : List Cst} {messages : List String}

structure Lowered (children : List Cst) (h : Cst.widths children < naOffset)
    (messages : List String) (ast : Ast) : Prop where
  size_eq : ast.size = Cst.nodeCount (.node .program children)
  region_eq : ast.root.region = wholeRegion (Cst.widths children) h
  nested : ast.root.Nested
  foreign : ast.root.ForeignSound
  datas_eq : ast.root.datas = explainedFrom 0 messages (programDraft children h).entries
  sketch_eq : ast.root.sketch NodeData.bare =
    (programDraft children h).tree.sketch NodeData.bare

theorem Lowered.map_bare_datas {h : Cst.widths children < naOffset} {ast : Ast}
    (hl : Lowered children h messages ast) :
    ast.root.datas.map NodeData.bare =
      (programDraft children h).entries.map (NodeData.bare ∘ Entry.data) := by
  rw [← Tree.datas_sketch, hl.sketch_eq, Tree.datas_sketch, ← Draft.map_data_entries, List.map_map]

private theorem size_programDraft (hs : SoundAmong children) (h : Cst.widths children < naOffset) :
    (programDraft children h).tree.size = Cst.nodeCount (.node .program children) := by
  have hsize := sizes_draftsAmong (fun c _ => counts_draft c) hs 0
  simp [programDraft, Draft.branch, Draft.tree, Tree.size, hsize, Cst.nodeCount]

mutual
private theorem foreignSound_tree : ∀ d : Draft, d.tree.ForeignSound
  | .node entry children => by
    rw [Draft.tree, Tree.ForeignSound]
    exact foreignSound_trees children

private theorem foreignSound_trees : ∀ ds : List Draft, Tree.ForeignSoundAmong (Draft.trees ds)
  | [] => trivial
  | d :: ds => ⟨foreignSound_tree d, foreignSound_trees ds⟩
end

theorem pending_hosts (hs : SoundAmong children) (h : Cst.widths children < naOffset) :
    ∀ t ∈ pendingFrom 0 (programDraft children h).entries,
      (∃ data, (programDraft children h).tree.datas[t.node]? = some data ∧ Hosts data t) ∧
        Text.size t.text ≤ Cst.widths children := by
  intro t ht
  obtain ⟨i, e, he, hn, hc⟩ := mem_pendingFrom ht
  have hhosted : e.Hosted (0 + Cst.widths children) := by
    have hmem := List.mem_of_getElem? he
    simp only [programDraft, Draft.branch, Draft.entries] at hmem
    rcases List.mem_cons.1 hmem with rfl | hmem
    · exact Entry.hosted_of_none rfl
    · exact hosted_draftsAmong hs (by omega) e hmem
  obtain ⟨⟨flags, hf⟩, ho, ht, hstop⟩ := hhosted t.offset t.text hc
  refine ⟨⟨e.data, ?_, flags, hf, ho, ht⟩, by omega⟩
  rw [← Draft.map_data_entries, hn, Nat.zero_add, List.getElem?_map, he]
  rfl

/-- At either level the templates are attached, or one of them has too many words. -/
theorem attachTemplates_level {ast : Ast} {templates : List PendingTemplate} (level : AstLevel)
    (h : ∀ t ∈ templates, ∃ data, ast.root.datas[t.node]? = some data ∧ Hosts data t) :
    (∀ ast', (if level = .full then attachTemplates ast templates else .ok ast) = .ok ast' →
      Keeps ast ast' ∧ ast'.root.datas = ast.root.datas) ∧
      ((∀ t ∈ templates, Text.size t.text < halfWordLimit) →
        ∃ ast', (if level = .full then attachTemplates ast templates else .ok ast) = .ok ast') := by
  by_cases hl : level = .full
  · simpa only [if_pos hl] using attachTemplates_spec h
  · simp only [if_neg hl]
    exact ⟨fun ast' ha => Except.ok.inj ha ▸ ⟨.refl ast, rfl⟩, fun _ => ⟨ast, rfl⟩⟩

def draftAst (children : List Cst) (h : Cst.widths children < naOffset) : Ast :=
  ⟨language, (programDraft children h).tree⟩

private theorem datas_draftAst (h : Cst.widths children < naOffset) :
    (draftAst children h).root.datas = (programDraft children h).entries.map Entry.data :=
  (Draft.map_data_entries _).symm

/-- Whatever the templates have become, every detail is accepted. -/
theorem attachDetails_lowered (hs : SoundAmong children) (h : Cst.widths children < naOffset)
    (messages : List String) {ast : Ast} (hk : Keeps (draftAst children h) ast)
    (hd : ast.root.datas = (draftAst children h).root.datas) :
    ∃ ast', attachDetails ast (detailsFrom 0 messages (programDraft children h).entries) =
        .ok ast' ∧
      Lowered children h messages ast' := by
  obtain ⟨ast', ha, hk', hd'⟩ := @foldlM_attachDetail ast [] (programDraft children h).entries
    (by rw [hd, datas_draftAst, List.nil_append]) messages 0
  have hkeep := hk.trans hk'
  exact ⟨ast', ha,
    { size_eq := hkeep.size_eq.trans (size_programDraft hs h)
      region_eq := hkeep.region
      nested := hkeep.nested (nested_programDraft hs h)
      foreign := hkeep.foreign (foreignSound_tree _)
      datas_eq := hd'
      sketch_eq := hkeep.sketch_eq }⟩

/-- The lowering builds the draft, attaches the templates and then the details. -/
theorem lower_eq {parse : Parse} (ht : parse.tree = .node .program children)
    (hs : SoundAmong children) (h : Cst.widths children < naOffset) (level : AstLevel) :
    lower parse level = (within (programDraft children h).tree.size (draftAst children h) >>=
      fun ast => (if level = .full then
          attachTemplates ast (pendingFrom 0 (programDraft children h).entries) else .ok ast) >>=
        fun ast => attachDetails ast (detailsFrom 0 (parse.grammarFaults.map Diagnostic.message)
          (programDraft children h).entries)) := by
  unfold lower
  rw [ht, lowerProgram_run hs h]
  unfold within
  split
  · cases level <;> rfl
  · rfl

/-- The lowering gives a tree as described, or is refused for its size. -/
theorem lower_spec {parse : Parse} (ht : parse.tree = .node .program children)
    (hs : SoundAmong children) (h : Cst.widths children < naOffset) (level : AstLevel) :
    (∀ ast, lower parse level = .ok ast →
      Lowered children h (parse.grammarFaults.map Diagnostic.message) ast) ∧
      (Cst.widths children < halfWordLimit → Cst.nodeCount parse.tree ≤ maxNodes →
        ∃ ast, lower parse level = .ok ast) := by
  have hosts := pending_hosts hs h
  obtain ⟨hkeeps, hok⟩ := @attachTemplates_level (draftAst children h) _ level
    fun t ht => (hosts t ht).1
  have hdetails := @attachDetails_lowered children hs h
    (parse.grammarFaults.map Diagnostic.message)
  rw [lower_eq ht hs h]
  constructor
  · intro ast ha
    unfold within at ha
    split at ha
    · rw [ok_bind] at ha
      cases hx : (if level = .full then attachTemplates (draftAst children h)
        (pendingFrom 0 (programDraft children h).entries) else .ok (draftAst children h)) with
      | error fault =>
        rw [hx] at ha
        cases ha
      | ok ast' =>
        obtain ⟨hk, hd⟩ := hkeeps ast' hx
        obtain ⟨ast'', ha', hl⟩ := hdetails hk hd
        rw [hx, ok_bind, ha'] at ha
        cases ha
        exact hl
    · cases ha
  · intro hsmall hn
    obtain ⟨ast', hx⟩ := hok fun t ht => Nat.lt_of_le_of_lt (hosts t ht).2 hsmall
    obtain ⟨hk, hd⟩ := hkeeps ast' hx
    obtain ⟨ast, ha, -⟩ := hdetails hk hd
    rw [ht, ← size_programDraft hs h] at hn
    exact ⟨ast, by rw [within_of_le hn, ok_bind, hx, ok_bind, ha]⟩

end Lowered

/-! ## Texts -/

section Texts

private theorem lt_of_finishNode {b : TreeBuilder} {stop id : Nat}
    (h : (b.finishNode stop).1 = .ok id) : stop < naOffset := by
  unfold TreeBuilder.finishNode at h
  split at h
  · cases h
  · rename_i node outer ho
    cases hc : TreeBuilder.closeData (TreeBuilder.countOpen outer) node stop with
    | error fault =>
      simp only [hc] at h
      cases h
    | ok data =>
      rw [← (TreeBuilder.closeData_eq_ok hc).stop_eq]
      exact data.region.stop_lt_naOffset

private theorem width_lt_of_lower {parse : Parse} {kind : CstKind} {children : List Cst}
    {level : AstLevel} {ast : Ast} (ht : parse.tree = .node kind children)
    (h : lower parse level = .ok ast) : parse.tree.width < naOffset := by
  obtain ⟨⟨_, state⟩, hrun, -⟩ := bind_eq_ok h
  rw [lowerProgram, ht, StateT.run_bind] at hrun
  obtain ⟨⟨_, opened⟩, -, hrun⟩ := bind_eq_ok hrun
  rw [StateT.run_bind] at hrun
  obtain ⟨⟨_, filled⟩, -, hrun⟩ := bind_eq_ok hrun
  rw [finishNode_run] at hrun
  obtain ⟨id, hclosed, -⟩ := bind_eq_ok hrun
  rw [ht]
  exact lt_of_finishNode hclosed

variable {source : String} {level : AstLevel}

theorem sound_parse (source : String) : SoundAmong (statements ⟨(lex source).tokens, 0⟩).items :=
  (statements_reads _).sound.1

theorem width_parse (source : String) : (parse source).tree.width = Text.size source := by
  rw [← widths_lex]
  exact (statements_reads _).widths_eq

/-- The number of syntax nodes is linear in the size of the text. -/
theorem nodeCount_parse_le (source : String) :
    (parse source).tree.nodeCount ≤ 1 + 5 * Text.size source := by
  have hnodes := (statements_reads (lex source).tokens).nodeCounts_le
  have hmul := Nat.mul_le_mul_left 5 (length_lex_le source)
  exact Nat.add_le_add_left (Nat.le_trans hnodes hmul) 1

theorem lowered_of_lower {ast : Ast} (h : lower (parse source) level = .ok ast) :
    ∃ hlt, Lowered (statements ⟨(lex source).tokens, 0⟩).items hlt
      ((parse source).grammarFaults.map Diagnostic.message) ast :=
  have hlt := width_lt_of_lower rfl h
  ⟨hlt, (lower_spec rfl (sound_parse source) hlt level).1 ast h⟩

theorem size_le_of_lower {ast : Ast} (h : lower (parse source) level = .ok ast) :
    ast.size ≤ maxNodes := by
  obtain ⟨hlt, hl⟩ := lowered_of_lower h
  rw [lower_eq rfl (sound_parse source) hlt level] at h
  obtain ⟨_, hwithin, -⟩ := bind_eq_ok h
  rw [hl.size_eq, ← size_programDraft (sound_parse source) hlt]
  unfold within at hwithin
  split at hwithin
  · assumption
  · cases hwithin

/-- A text of less than 2^32 bytes whose nodes have numbers is lowered. -/
theorem exists_lower (hsize : Text.size source < halfWordLimit)
    (hcount : (parse source).tree.nodeCount ≤ maxNodes) (level : AstLevel) :
    ∃ ast, lower (parse source) level = .ok ast := by
  have hlimit : halfWordLimit ≤ naOffset := by decide
  rw [← width_parse] at hsize
  exact (lower_spec rfl (sound_parse source) (Nat.lt_of_lt_of_le hsize hlimit) level).2 hsize hcount

end Texts

end SourceModel.Calc
