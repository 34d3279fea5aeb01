import SourceModel.Proofs.Calc.Elements
import SourceModel.Proofs.Calc.Lowered
import SourceModel.Proofs.Related

/-!
# What the nodes of a syntax tree carry

At the full level the node of a template carries the tree of the template, and no other node
carries anything. At the minimal level no node does, and there is no other difference.
-/

namespace SourceModel.Calc

open SourceModel.Tree (foreignsAmong)
open TreeBuilder (within ok_bind bind_eq_ok eq_of_within)

/-! ## Templates of entries -/

/-- An entry with a template says so: it starts where the template does and has its text. The other
entries ask for no tree. -/
def Entry.Asks (e : Entry) : Prop :=
  match e.chunk with
  | none => e.data.embedding = none ∧ isTemplateKind e.data.kind = false
  | some (start, text) =>
    (∃ flags, e.data.embedding = some ⟨templateLanguage, flags⟩) ∧
      isTemplateKind e.data.kind = true ∧ e.data.region.offset = start ∧ e.data.text = some text

section Asks

variable {offset : Nat} {kind : CstKind} {cs : List Cst}

private theorem Entry.asks_of_none {e : Entry} (hc : e.chunk = none) (he : e.data.embedding = none)
    (hk : isTemplateKind e.data.kind = false) : e.Asks := by
  rw [Entry.Asks, hc]
  exact ⟨he, hk⟩

private theorem asks_chunkEntry {kind : SyntaxKind} (flags : EmbeddingFlags) {region : Region}
    {start : Nat} (text : String) (hk : isTemplateKind kind = true) (ho : region.offset = start) :
    (chunkEntry kind flags region start text).Asks := by
  simp only [Entry.Asks, chunkEntry, chunk_judged, embedding_judged, kind_judged, region_judged,
    text_judged]
  exact ⟨⟨flags, rfl⟩, hk, ho, rfl⟩

private theorem asks_literalEntry (offset : Nat) (region : Region) (cs : List Cst) :
    (literalEntry offset region cs).Asks := by
  unfold literalEntry
  split
  · refine Entry.asks_of_none ?_ ?_ ?_
    · rw [chunk_judged]
      rfl
    · rw [embedding_judged]
      rfl
    · rw [kind_judged]
      rfl
  · exact Entry.asks_of_none rfl rfl rfl

private theorem offset_place {token : TokenKind} {start : Nat} {text : String} {rest : List Cst}
    (hs : Sound (.node kind cs)) (hk : kind ≠ .error) (hsize : offset + Cst.widths cs < naOffset)
    (ht : token.isTrivia = false) (hw : Starts token offset cs start text rest) :
    (place offset (.node kind cs)).offset = start := by
  have hp := (place_mem hs hsize).2
  rw [significantBounds, if_neg fun h => hk h.1, hw.bounds_eq] at hp
  exact Nat.le_antisymm (start_mem_place hs hk hsize ht hw).1 (significantBoundsAmong_mem hp).1

private theorem asks_draftsAmong (hs : SoundAmong cs) (hsize : offset + Cst.widths cs < naOffset) :
    ∀ e ∈ Draft.entriesAmong (draftsAmong offset cs), e.Asks := by
  intro e he
  obtain ⟨pos, kind, children, hnode, hmade⟩ := comesFrom_draftsAmong offset cs e he
  have hsound := hnode.sound hs
  have hstop := hnode.stop_le
  have hplain : ∀ k ∈ [Kind.assignment, Kind.exprStatement, Kind.paren, Kind.binary],
      isTemplateKind k = false := by decide
  have htemplate : ∀ k ∈ [Kind.templateBlock, Kind.templateExpr], isTemplateKind k = true := by
    decide
  cases hmade with
  | branch hk => exact Entry.asks_of_none rfl rfl (hplain _ hk)
  | name | nameRef | error => exact Entry.asks_of_none rfl rfl rfl
  | literal => exact asks_literalEntry ..
  | template hk hkind hf =>
    obtain ⟨hne, rest, hw⟩ := exists_starts_template hsound hkind hf
    have hlt : pos + Cst.widths children < naOffset := by omega
    exact asks_chunkEntry _ _ (htemplate _ hk) (offset_place hsound hne hlt rfl hw)

private theorem asks_programDraft {children : List Cst} (hs : SoundAmong children)
    (h : Cst.widths children < naOffset) : ∀ e ∈ (programDraft children h).entries, e.Asks := by
  rw [programDraft, Draft.branch, Draft.entries]
  refine List.forall_mem_cons.2 ⟨Entry.asks_of_none rfl rfl rfl, ?_⟩
  exact asks_draftsAmong hs (by rwa [Nat.zero_add])

end Asks

/-! ## Attaching -/

/-- What the node of an entry carries: the tree of its template, or nothing. -/
inductive Carried (e : Entry) : Option Tree → Prop
  | nothing (h : e.chunk = none) : Carried e none
  | words {start : Nat} {text : String} (h : e.chunk = some (start, text))
    (hlt : start + Text.size text < naOffset) : Carried e (some (chunkTree start text hlt))

section Attaching

private theorem attachTemplates_cons (ast : Ast) (t : PendingTemplate) (ts : List PendingTemplate) :
    attachTemplates ast (t :: ts) = (templateTree t.offset t.text >>= fun foreign =>
      ast.attachForeign t.node foreign >>= fun ast' => attachTemplates ast' ts) := by
  rw [attachTemplates, List.foldlM_cons, bind_assoc]
  rfl

private theorem eq_chunkTree {offset : Nat} {chunk : String} {foreign : Ast}
    (h : offset + Text.size chunk < naOffset) (hf : templateTree offset chunk = .ok foreign) :
    foreign.root = chunkTree offset chunk h := by
  rw [templateTree_eq h] at hf
  rw [eq_of_within hf]

/-- Every template is attached to the node of its entry. The induction is on the entries that are
left; `pre` is what the nodes before them carry. -/
theorem foreigns_attachTemplates {ast ast' : Ast} {pre : List (Option Tree)} {es : List Entry}
    (hf : ast.root.foreigns = pre ++ es.map fun _ => none)
    (hlt : ∀ t ∈ pendingFrom pre.length es, t.offset + Text.size t.text < naOffset)
    (h : attachTemplates ast (pendingFrom pre.length es) = .ok ast') :
    ∃ foreigns, ast'.root.foreigns = pre ++ foreigns ∧ List.Forall₂ Carried es foreigns := by
  induction es generalizing ast pre with
  | nil =>
    cases h
    exact ⟨[], hf, .nil⟩
  | cons e es ih =>
    have hbehind : ∀ (foreign : Option Tree), Carried e foreign → ∀ {ast₁ : Ast},
        ast₁.root.foreigns = pre ++ foreign :: es.map (fun _ => none) →
        attachTemplates ast₁ (pendingFrom (pre.length + 1) es) = .ok ast' →
        ∃ foreigns, ast'.root.foreigns = pre ++ foreigns ∧
          List.Forall₂ Carried (e :: es) foreigns := by
      intro foreign hcarried ast₁ hf₁ h₁
      have hlength : (pre ++ [foreign]).length = pre.length + 1 := by simp
      obtain ⟨foreigns, hforeigns, hrest⟩ := @ih ast₁ (pre ++ [foreign])
        (by rw [hf₁, List.append_assoc, List.singleton_append])
        (fun t ht => hlt t (by rw [hlength] at ht; exact List.mem_append_right _ ht))
        (by rwa [hlength])
      refine ⟨foreign :: foreigns, ?_, .cons hcarried hrest⟩
      rw [hforeigns, List.append_assoc, List.singleton_append]
    rw [pendingFrom] at h hlt
    cases hc : e.chunk with
    | none =>
      rw [hc] at h
      exact hbehind none (.nothing hc) hf h
    | some chunk =>
      obtain ⟨start, text⟩ := chunk
      rw [hc] at h hlt
      have hstart := hlt ⟨pre.length, start, text⟩ List.mem_cons_self
      rw [Option.toList_some, List.map_singleton, List.singleton_append, attachTemplates_cons] at h
      obtain ⟨foreign, hforeign, h⟩ := bind_eq_ok h
      obtain ⟨ast₁, hattach, h⟩ := bind_eq_ok h
      refine hbehind _ (.words hc hstart) ?_ h
      rw [(Ast.attaches_of_eq_ok hattach).foreigns_eq, hf, eq_chunkTree hstart hforeign]
      simp

private theorem foreigns_attachDetail {ast ast' : Ast} {d : (Nat × String) × Nat}
    (h : attachDetail ast d = .ok ast') :
    ast'.root.foreigns = ast.root.foreigns ∧ ast'.language = ast.language := by
  unfold attachDetail Ast.addDetail at h
  split at h
  · cases h
  · split at h
    · cases h
    · split at h
      · cases h
        exact ⟨Tree.foreigns_modifyData .., rfl⟩
      · cases h

private theorem foreigns_foldlM_attachDetail {ast ast' : Ast} {ds : List ((Nat × String) × Nat)}
    (h : ds.foldlM attachDetail ast = .ok ast') :
    ast'.root.foreigns = ast.root.foreigns ∧ ast'.language = ast.language := by
  induction ds generalizing ast with
  | nil =>
    cases h
    exact ⟨rfl, rfl⟩
  | cons d ds ih =>
    rw [List.foldlM_cons] at h
    obtain ⟨ast₁, hd, h⟩ := bind_eq_ok h
    obtain ⟨hforeigns, hlanguage⟩ := foreigns_attachDetail hd
    obtain ⟨hforeigns', hlanguage'⟩ := ih h
    exact ⟨hforeigns'.trans hforeigns, hlanguage'.trans hlanguage⟩

private theorem foreigns_attachDetails {ast ast' : Ast} {details : List (Nat × String)}
    (h : attachDetails ast details = .ok ast') :
    ast'.root.foreigns = ast.root.foreigns ∧ ast'.language = ast.language :=
  foreigns_foldlM_attachDetail h

mutual
private theorem foreigns_draft : ∀ d : Draft, d.tree.foreigns = d.entries.map fun _ => none
  | .node entry children => by
    rw [Draft.tree, Tree.foreigns_node, Draft.entries, List.map_cons, foreigns_drafts children]

private theorem foreigns_drafts : ∀ ds : List Draft,
    foreignsAmong (Draft.trees ds) = (Draft.entriesAmong ds).map fun _ => none
  | [] => rfl
  | d :: ds => by
    rw [Draft.trees, Tree.foreignsAmong_cons, Draft.entriesAmong, List.map_append,
      foreigns_draft d, foreigns_drafts ds]
end

end Attaching

/-! ## Levels -/

/-- The node of a template carries the tree of its text. The others ask for no tree, and have
none. -/
inductive Furnished (data : NodeData) : Option Tree → Prop
  | plain (embedding : data.embedding = none) (kind : isTemplateKind data.kind = false) :
    Furnished data none
  | template {flags : EmbeddingFlags} {text : String}
    (embedding : data.embedding = some ⟨templateLanguage, flags⟩)
    (kind : isTemplateKind data.kind = true) (text_eq : data.text = some text)
    (hlt : data.region.offset + Text.size text < naOffset) :
    Furnished data (some (chunkTree data.region.offset text hlt))

theorem Furnished.isSome_embedding {data : NodeData} {foreign : Option Tree}
    (h : Furnished data foreign) : data.embedding.isSome = isTemplateKind data.kind := by
  cases h with
  | plain he hk => rw [he, hk, Option.isSome_none]
  | template he hk => rw [he, hk, Option.isSome_some]

theorem Furnished.exists_words {data : NodeData} {foreign : Option Tree}
    (h : Furnished data foreign) (hk : isTemplateKind data.kind = true) :
    ∃ flags text hlt, data.embedding = some ⟨templateLanguage, flags⟩ ∧ data.text = some text ∧
      foreign = some (chunkTree data.region.offset text hlt) := by
  cases h with
  | plain _ hnot =>
    rw [hnot] at hk
    cases hk
  | template he _ ht hlt => exact ⟨_, _, hlt, he, ht, rfl⟩

theorem Furnished.eq_none {data : NodeData} {foreign : Option Tree} (h : Furnished data foreign)
    (hd : data.embedding.isSome = false) : foreign = none := by
  cases h with
  | plain => rfl
  | template he =>
    rw [he] at hd
    cases hd

private theorem Carried.furnished {e : Entry} {foreign : Option Tree} (h : Carried e foreign)
    (ha : e.Asks) : Furnished e.data foreign := by
  cases h with
  | nothing hc =>
    rw [Entry.Asks, hc] at ha
    exact .plain ha.1 ha.2
  | words hc hlt =>
    rw [Entry.Asks, hc] at ha
    obtain ⟨⟨flags, hf⟩, hk, rfl, ht⟩ := ha
    exact .template hf hk ht hlt

private theorem furnished_bare {data : NodeData} {foreign : Option Tree} :
    Furnished data.bare foreign ↔ Furnished data foreign := by
  constructor
  · intro h
    cases h with
    | plain he hk => exact .plain he hk
    | template he hk ht hlt => exact @Furnished.template data _ _ he hk ht hlt
  · intro h
    cases h with
    | plain he hk => exact .plain he hk
    | template he hk ht hlt => exact @Furnished.template data.bare _ _ he hk ht hlt

section Levels

variable {source : String} {level : AstLevel} {ast : Ast}

private theorem exists_attached (h : lower (parse source) level = .ok ast)
    (hlt : Cst.widths (statements ⟨(lex source).tokens, 0⟩).items < naOffset) :
    ∃ attached, within (programDraft _ hlt).tree.size (draftAst _ hlt) = .ok (draftAst _ hlt) ∧
      (if level = .full then
        attachTemplates (draftAst _ hlt) (pendingFrom 0 (programDraft _ hlt).entries)
      else .ok (draftAst _ hlt)) = .ok attached ∧
        attachDetails attached (detailsFrom 0 ((parse source).grammarFaults.map Diagnostic.message)
          (programDraft _ hlt).entries) = .ok ast := by
  rw [lower_eq rfl (sound_parse source) hlt level] at h
  obtain ⟨draft, hwithin, h⟩ := bind_eq_ok h
  obtain ⟨attached, hattached, hdetails⟩ := bind_eq_ok h
  obtain rfl := eq_of_within hwithin
  exact ⟨attached, hwithin, hattached, hdetails⟩

/-- At the full level every node carries what it asks for. -/
theorem furnished_of_lower (h : lower (parse source) .full = .ok ast) :
    ∀ n ∈ ast.nodes, Furnished n.tree.data n.tree.foreign := by
  obtain ⟨hlt, hl⟩ := lowered_of_lower h
  obtain ⟨attached, -, hattached, hdetails⟩ := exists_attached h hlt
  rw [if_pos rfl] at hattached
  have hhosts := pending_hosts (sound_parse source) hlt
  obtain ⟨foreigns, hforeigns, hcarried⟩ := @foreigns_attachTemplates _ _ [] _
    (foreigns_draft (programDraft _ hlt)) (fun t ht => (hhosts t ht).1.choose_spec.2.lt) hattached
  have hfurnished : List.Forall₂ (fun e => Furnished (Entry.data e))
      (programDraft _ hlt).entries ast.root.foreigns := by
    rw [(foreigns_attachDetails hdetails).1, hforeigns, List.nil_append]
    refine forall₂_of_mem hcarried fun e he foreign _ h => ?_
    exact h.furnished (asks_programDraft (sound_parse source) hlt e he)
  have hbare : List.Forall₂ Furnished (ast.root.datas.map NodeData.bare) ast.root.foreigns := by
    rw [hl.map_bare_datas, List.forall₂_map_left_iff]
    exact hfurnished.imp fun _ _ h => furnished_bare.2 h
  rw [Tree.datas, Tree.foreigns, List.map_map, List.forall₂_map_left_iff,
    List.forall₂_map_right_iff, List.forall₂_same] at hbare
  intro n hn
  exact furnished_bare.1 (hbare n.tree (Tree.mem_preorder_of_mem_nodesFrom hn))

theorem foreign_of_minimal (h : lower (parse source) .minimal = .ok ast) :
    ∀ foreign ∈ ast.root.foreigns, foreign = none := by
  obtain ⟨hlt, -⟩ := lowered_of_lower h
  obtain ⟨attached, -, hattached, hdetails⟩ := exists_attached h hlt
  cases hattached
  rw [(foreigns_attachDetails hdetails).1]
  intro foreign hf
  rw [draftAst, foreigns_draft] at hf
  obtain ⟨_, -, rfl⟩ := List.mem_map.1 hf
  rfl

/-- Without the trees of templates the tree at the full level is the one at the minimal level. -/
theorem lower_minimal (h : lower (parse source) .full = .ok ast) :
    lower (parse source) .minimal = .ok ⟨ast.language, ast.root.alone⟩ := by
  obtain ⟨hlt, hl⟩ := lowered_of_lower h
  obtain ⟨attached, hwithin, hattached, hdetails⟩ := exists_attached h hlt
  have hhosts := pending_hosts (sound_parse source) hlt
  obtain ⟨hkeeps, -⟩ := (@attachTemplates_level (draftAst _ hlt) _ .full
    fun t ht => (hhosts t ht).1).1 attached hattached
  obtain ⟨minimal, hminimal, hl'⟩ := attachDetails_lowered (sound_parse source) hlt
    ((parse source).grammarFaults.map Diagnostic.message) (Keeps.refl _) rfl
  have hlower : lower (parse source) .minimal = .ok minimal := by
    rw [lower_eq rfl (sound_parse source) hlt, hwithin, ok_bind]
    exact hminimal
  have hlanguage : minimal.language = ast.language := by
    rw [(foreigns_attachDetails hminimal).2, (foreigns_attachDetails hdetails).2, hkeeps.language]
  have halone : minimal.root.alone = ast.root.alone :=
    Tree.alone_eq_of_sketch (hl'.sketch_eq.trans hl.sketch_eq.symm)
      (hl'.datas_eq.trans hl.datas_eq.symm)
  rw [hlower, ← hlanguage, ← halone, Tree.alone_eq_self (foreign_of_minimal hlower)]

end Levels

end SourceModel.Calc
