import SourceModel.Proofs.Calc.Placement

/-!
# The lowering adds drafts

Where the builder accepts the place of a sound tree, the lowering of the tree adds its draft, and
it is refused only if the syntax tree grows too large. The induction is on the concrete tree; it
carries the position up to which the builder is filled.
-/

namespace SourceModel.Calc

open SourceModel.Tree (NestedIn sizes)
open Draft (trees entriesAmong leaf branch)
open TreeBuilder (within within_bind within_of_le ok_bind maxNodes)

/-! ## What a draft adds to the state -/

/-- What is to be said about the nodes in error, where the first entry has number `id`. The faults
of the grammar take their messages in order. -/
def detailsFrom (id : Nat) (messages : List String) : List Entry → List (Nat × String)
  | [] => []
  | e :: es =>
    match e.slip with
    | none => detailsFrom (id + 1) messages es
    | some .grammar =>
      (id, messages.headD "syntax error") :: detailsFrom (id + 1) messages.tail es
    | some (.unterminated fault) => (id, fault.message) :: detailsFrom (id + 1) messages es

/-- The templates that are still to be attached. -/
def pendingFrom (id : Nat) : List Entry → List PendingTemplate
  | [] => []
  | e :: es =>
    (e.chunk.toList.map fun (offset, text) => ⟨id, offset, text⟩) ++ pendingFrom (id + 1) es

def grammarSlips (es : List Entry) : Nat := es.countP fun e => e.slip = some .grammar

def Lowering.extend (st : Lowering) (ds : List Draft) : Lowering where
  builder := st.builder.addAll (trees ds)
  messages := st.messages.drop (grammarSlips (entriesAmong ds))
  details := st.details ++ detailsFrom st.builder.size st.messages (entriesAmong ds)
  templates := st.templates ++ pendingFrom st.builder.size (entriesAmong ds)

private theorem detailsFrom_append (id : Nat) (messages : List String) (es fs : List Entry) :
    detailsFrom id messages (es ++ fs) = detailsFrom id messages es ++
      detailsFrom (id + es.length) (messages.drop (grammarSlips es)) fs := by
  induction es generalizing id messages with
  | nil => simp [detailsFrom, grammarSlips]
  | cons e es ih =>
    have hid : id + 1 + es.length = id + (es.length + 1) := by omega
    rcases hs : e.slip with _ | _ | fault
    · simp [detailsFrom, grammarSlips, hs, ih, hid]
    · simp [detailsFrom, grammarSlips, hs, ih, hid, List.drop_tail]
    · simp [detailsFrom, grammarSlips, hs, ih, hid]

private theorem pendingFrom_append (id : Nat) (es fs : List Entry) :
    pendingFrom id (es ++ fs) = pendingFrom id es ++ pendingFrom (id + es.length) fs := by
  induction es generalizing id with
  | nil => simp [pendingFrom]
  | cons e es ih =>
    have hid : id + 1 + es.length = id + (es.length + 1) := by omega
    simp [pendingFrom, ih, hid]

private theorem Lowering.extend_nil (st : Lowering) : st.extend [] = st := by
  simp [extend, trees, entriesAmong, TreeBuilder.addAll_nil, grammarSlips, detailsFrom, pendingFrom]

private theorem Lowering.extend_append {st : Lowering} (h : st.builder.openNodes ≠ [])
    (ds es : List Draft) : st.extend (ds ++ es) = (st.extend ds).extend es := by
  simp only [extend, Draft.trees_append, Draft.entriesAmong_append, TreeBuilder.addAll_append,
    detailsFrom_append, pendingFrom_append, TreeBuilder.size_addAll h, Draft.length_entriesAmong,
    List.append_assoc, List.drop_drop, grammarSlips, List.countP_append]

/-! ## Steps -/

private theorem node_run (call : TreeBuilder → Except Fault (Nat × TreeBuilder)) (st : Lowering) :
    (LowerM.node call).run st =
      (call st.builder >>= fun p => .ok (p.1, { st with builder := p.2 })) := by
  cases h : call st.builder <;> simp [LowerM.node, h] <;> rfl

private theorem update_run (call : TreeBuilder → Except Fault TreeBuilder) (st : Lowering) :
    (LowerM.update call).run st =
      (call st.builder >>= fun b => .ok ((), { st with builder := b })) := by
  cases h : call st.builder <;> simp [LowerM.update, h] <;> rfl

theorem finishNode_run (stop : Nat) (st : Lowering) :
    (LowerM.finishNode stop).run st = ((st.builder.finishNode stop).1 >>= fun _ =>
      .ok ((), { st with builder := (st.builder.finishNode stop).2 })) := by
  cases h : (st.builder.finishNode stop).1 <;> simp [LowerM.finishNode, h] <;> rfl

/-- A step adds drafts, or is refused because there would be too many nodes. -/
def Lowers (m : LowerM Unit) (st : Lowering) (ds : List Draft) : Prop :=
  m.run st = within (st.builder.size + sizes (trees ds)) ((), st.extend ds)

section Steps

variable {m m' : LowerM Unit} {st : Lowering} {ds es : List Draft} {lo : Nat} {region : Region}

private theorem lowers_nil (h : st.builder.Accepts lo) : Lowers (pure ()) st [] := by
  rw [Lowers, Lowering.extend_nil]
  exact (within_of_le h.size_le).symm

private theorem Lowers.seq (h : st.builder.Accepts lo) (hm : Lowers m st ds)
    (hm' : st.builder.size + sizes (trees ds) ≤ maxNodes → Lowers m' (st.extend ds) es) :
    Lowers (do m; m') st (ds ++ es) := by
  have hsize : (st.extend ds).builder.size = st.builder.size + sizes (trees ds) :=
    TreeBuilder.size_addAll h.openNodes_ne_nil
  rw [Lowers, Draft.trees_append, Tree.sizes_append, ← Nat.add_assoc,
    Lowering.extend_append h.openNodes_ne_nil]
  change (m.run st >>= fun r => m'.run r.2) = _
  rw [hm]
  refine within_bind (by omega) fun hn => ?_
  rw [← hsize]
  exact hm' hn

private theorem lowers_ok {α : Type} {a : α} {f : α → LowerM Unit} (hf : Lowers (f a) st ds) :
    Lowers (liftM (Except.ok a : Except Fault α) >>= f) st ds := hf

def Lowering.addLeaf (st : Lowering) (data : NodeData) : Lowering :=
  { st with builder := st.builder.addAll [.leaf data] }

private theorem addLeaf_run {α : Type} (h : st.builder.Accepts lo) {data : NodeData}
    (hlo : lo ≤ data.region.offset) (f : Nat → LowerM α) {r : α × Lowering}
    (hf : (f st.builder.size).run (st.addLeaf data) = .ok r) :
    (LowerM.node (·.addLeaf data) >>= f).run st = within (st.builder.size + 1) r := by
  rw [StateT.run_bind, node_run, TreeBuilder.addLeaf_eq h hlo, bind_assoc]
  refine within_bind (Nat.le_refl _) fun hn => ?_
  rw [within_of_le hn]
  exact hf

private theorem update_leaf_run (h : st.builder.Accepts lo) (data : NodeData)
    (above f : NodeData → NodeData) :
    (LowerM.update (·.modifyData above f st.builder.size)).run (st.addLeaf data) =
      .ok ((), st.addLeaf (f data)) := by
  rw [update_run]
  simp only [Lowering.addLeaf, TreeBuilder.modifyData_leaf h]
  rfl

private theorem Lowers.of_addLeaf (h : st.builder.Accepts lo) (data : NodeData)
    (hlo : lo ≤ data.region.offset) (f : Nat → LowerM Unit) (e : Entry)
    (hf : (f st.builder.size).run (st.addLeaf data) = .ok ((), st.extend [leaf e])) :
    Lowers (LowerM.node (·.addLeaf data) >>= f) st [leaf e] := by
  rw [Lowers, Draft.trees_leaf, addLeaf_run h hlo f hf]
  simp [sizes, Tree.leaf, Tree.size]

private theorem lowerText_eq (kind : SyntaxKind) (region : Region) (text : Option (Nat × String)) :
    lowerText kind region text =
      (LowerM.node (·.addLeaf (textEntry kind region text).data) >>= fun _ => pure ()) := rfl

private theorem lowers_text (h : st.builder.Accepts lo) (hlo : lo ≤ region.offset)
    (kind : SyntaxKind) (text : Option (Nat × String)) :
    Lowers (lowerText kind region text) st [leaf (textEntry kind region text)] := by
  rw [lowerText_eq]
  refine Lowers.of_addLeaf h _ hlo _ _ ?_
  simp [Lowering.extend, Lowering.addLeaf, grammarSlips, detailsFrom, pendingFrom, textEntry]
  rfl

private theorem judged_run (h : st.builder.Accepts lo) {e : Entry} (hs : e.slip = none)
    (hd : e.data.status = .ok) (closed : Bool) (fault : LexicalFault) :
    (if !closed then LowerM.unterminated st.builder.size fault else pure ()).run
        (st.addLeaf e.data) =
      .ok ((), { st.addLeaf (e.judged closed fault).data with
        details := st.details ++ detailsFrom st.builder.size [] [e.judged closed fault] }) := by
  cases closed with
  | true => simp [Entry.judged, detailsFrom, hs]; rfl
  | false =>
    simp only [Bool.not_false, if_true, LowerM.unterminated, TreeBuilder.setStatus]
    rw [StateT.run_bind, update_leaf_run h, hd]
    rfl

private theorem Lowering.extend_judged {e : Entry} (hs : e.slip = none) (closed : Bool)
    (fault : LexicalFault) (st : Lowering) :
    st.extend [leaf (e.judged closed fault)] =
      { st.addLeaf (e.judged closed fault).data with
        details := st.details ++ detailsFrom st.builder.size [] [e.judged closed fault]
        templates := st.templates ++ pendingFrom st.builder.size [e] } := by
  cases closed <;> simp [extend, addLeaf, Entry.judged, grammarSlips, detailsFrom, pendingFrom, hs]

private theorem lowers_literal (h : st.builder.Accepts lo) (hlo : lo ≤ region.offset) (offset : Nat)
    (children : List Cst) :
    Lowers (lowerLiteral offset region children) st
      [leaf (literalEntry offset region children)] := by
  unfold lowerLiteral literalEntry
  cases hf : Cst.findToken? .string offset children with
  | none => exact lowers_text h hlo _ _
  | some found =>
    refine Lowers.of_addLeaf h (textEntry Kind.string region (some found)).data hlo _ _ ?_
    rw [Lowering.extend_judged rfl, judged_run h rfl rfl]
    simp [textEntry, pendingFrom]
    rfl

private theorem lowers_chunk (h : st.builder.Accepts lo) (hlo : lo ≤ region.offset)
    (kind : SyntaxKind) (flags : EmbeddingFlags) {offset start : Nat} {children : List Cst}
    {text : String} (hf : Cst.findToken? .template offset children = some (start, text)) :
    Lowers (lowerTemplate kind flags offset region children) st
      (chunkDrafts kind flags offset region children) := by
  unfold lowerTemplate chunkDrafts
  simp only [hf, Option.toList_some, List.map_cons, List.map_nil, chunkEntry]
  refine Lowers.of_addLeaf h { kind, region, text := some text } hlo _ _ ?_
  unfold TreeBuilder.markEmbedding
  rw [StateT.run_bind, update_leaf_run h, Lowering.extend_judged rfl]
  have hjudge := judged_run h (e := templateEntry kind flags region start text) rfl rfl
    (isClosedTemplate text) .unterminatedTemplate
  have hseq : ∀ k : LowerM Unit,
      (if (!isClosedTemplate text) = true then
        (LowerM.unterminated st.builder.size .unterminatedTemplate >>= fun _ => k) else k) =
      ((if (!isClosedTemplate text) = true then
        LowerM.unterminated st.builder.size .unterminatedTemplate else pure ()) >>=
          fun _ => k) := by
    intro k
    split <;> simp
  rw [ok_bind, hseq, StateT.run_bind]
  change (StateT.run _ (st.addLeaf (templateEntry kind flags region start text).data) >>= _) = _
  rw [hjudge]
  simp only [templateEntry, Lowering.addLeaf, StateT.run_modify, bind_pure_comp, pendingFrom,
    Option.toList_some, List.map_cons, List.map_nil, List.append_nil]
  rfl

private theorem Lowering.extend_error (region : Region) (st : Lowering) :
    st.extend [leaf (errorEntry region)] =
      { st.addLeaf (errorEntry region).data with
        messages := st.messages.tail
        details := st.details ++ [(st.builder.size, st.messages.headD "syntax error")] } := by
  simp [extend, addLeaf, errorEntry, grammarSlips, detailsFrom, pendingFrom]

private theorem lowers_error (h : st.builder.Accepts lo) (hlo : lo ≤ region.offset) :
    Lowers (lowerError region) st [leaf (errorEntry region)] := by
  refine Lowers.of_addLeaf h { kind := Kind.error, region } hlo _ _ ?_
  unfold TreeBuilder.setStatus
  rw [StateT.run_bind, update_leaf_run h, Lowering.extend_error]
  obtain ⟨builder, messages, details, templates⟩ := st
  cases messages with
  | nil => rfl
  | cons message messages => rfl

def Lowering.open (st : Lowering) (data : NodeData) : Lowering :=
  { st with builder := st.builder.opened data }

private theorem Lowering.extend_branch (st : Lowering) (kind : SyntaxKind) (region : Region)
    (text : Option String) (ds : List Draft) (data : NodeData) :
    st.extend [branch kind region text ds] =
      { (st.open data).extend ds with
        builder := st.builder.addAll (trees [branch kind region text ds]) } := by
  simp [extend, Lowering.open, branch, entriesAmong, Draft.entries, grammarSlips, detailsFrom,
    pendingFrom, TreeBuilder.size_opened]

private theorem lowers_branch (h : st.builder.Accepts lo) (hlo : lo ≤ region.offset)
    {kind : SyntaxKind} {text : Option String} {body : Nat → LowerM Unit} {inner : LowerM Unit}
    (hds : NestedIn region.offset region.stop (trees ds))
    (hbody : (body st.builder.size).run (st.open { kind, region := region.opening }) =
      (inner >>= fun _ => LowerM.finishNode region.stop).run
        (st.open { kind, region := region.opening, text }))
    (hinner : st.builder.size + 1 ≤ maxNodes →
      Lowers inner (st.open { kind, region := region.opening, text }) ds) :
    Lowers (LowerM.node (·.startNode kind region.offset) >>= body) st
      [branch kind region text ds] := by
  have hsize : sizes (trees [branch kind region text ds]) = 1 + sizes (trees ds) := by
    simp [branch, trees, Draft.tree, sizes, Tree.size]
  rw [Lowers, StateT.run_bind, node_run, TreeBuilder.startNode_eq h hlo region.opening rfl rfl,
    bind_assoc, hsize]
  refine within_bind (by omega) fun hn => ?_
  have hopen : (st.open { kind, region := region.opening, text }).builder.size =
      st.builder.size + 1 := TreeBuilder.size_opened
  change (body st.builder.size).run (st.open { kind, region := region.opening }) = _
  rw [hbody, StateT.run_bind, hinner hn, hopen, ← Nat.add_assoc]
  refine within_bind (Nat.le_refl _) fun hn' => ?_
  rw [within_of_le hn', finishNode_run]
  simp only [Lowering.extend_branch st kind region text ds
    { kind, region := region.opening, text }]
  simp only [Lowering.extend, Lowering.open,
    TreeBuilder.finishNode_eq h region region.opening text hds rfl]
  rfl

end Steps

/-! ## The induction -/

def LowersDraft (c : Cst) : Prop :=
  ∀ offset lo hi st, Sound c → offset + c.width < naOffset → lo ≤ hi →
    Between lo hi (significantBounds offset c) → st.builder.Accepts lo →
      Lowers (lowerCst offset c) st (drafts offset c)

section Induction

variable {offset lo hi : Nat} {cs : List Cst} {st : Lowering}

private theorem lowers_among (hcs : ∀ c ∈ cs, LowersDraft c) (hs : SoundAmong cs)
    (hsize : offset + Cst.widths cs < naOffset) (hle : lo ≤ hi)
    (hb : Between lo hi (significantBoundsAmong offset cs)) (h : st.builder.Accepts lo) :
    Lowers (lowerAmong offset cs) st (draftsAmong offset cs) := by
  induction cs generalizing offset lo st with
  | nil =>
    rw [lowerAmong]
    exact lowers_nil h
  | cons c cs ih =>
    obtain ⟨mid, hlo, hhi, hc, hrest⟩ := hb.split hle
    simp only [Cst.widths] at hsize
    have hnest := nests_draft c offset lo mid hs.1 (by omega) hlo hc
    rw [lowerAmong, draftsAmong]
    refine Lowers.seq h (hcs c (by simp) offset lo mid st hs.1 (by omega) hlo hc h) fun hn => ?_
    exact ih (fun d hd => hcs d (by simp [hd])) hs.2 (by omega) hhi hrest (h.addAll hnest hn)

private theorem lowers_named {start : Nat} {text : String} {rest : List Cst}
    (hcs : ∀ c ∈ cs, LowersDraft c) (hw : Starts .ident offset cs start text rest)
    (hs : SoundAmong cs) (hsize : offset + Cst.widths cs < naOffset) (hle : lo ≤ hi)
    (hb : Between lo hi (significantBoundsAmong offset cs)) (h : st.builder.Accepts lo) :
    Lowers (do
        lowerText Kind.name (place start (.token .ident text)) (some (start, text))
        lowerAmong offset cs) st
      (nameDrafts offset cs ++ draftsAmong offset cs) := by
  have hwidth := hw.widths_eq
  have hplace := Region.ofBounds?_eq_ok_iff.1 (place_token start .ident text rfl (by omega))
  rw [hw.bounds_eq] at hb
  obtain ⟨mid, hlo, hhi, hname, hrest⟩ := hb.split hle
  have hmem := hname start (start + Text.size text) rfl
  have hleaf := nestedIn_name (by omega) hmem.1 hmem.2
  rw [nameDrafts, hw.findToken?_eq, hw.drafts_eq, hw.lower_eq]
  refine Lowers.seq h (lowers_text h (by omega) Kind.name (some (start, text))) fun hn => ?_
  exact lowers_among (fun c hc => hcs c (hw.mem c hc)) (hw.sound hs) (by omega) hhi hrest
    (h.addAll hleaf hn)

/-- The lowering of a sound tree adds its draft where the builder accepts the tree. -/
theorem lowers_draft (c : Cst) : LowersDraft c := by
  refine Cst.induction ?_ ?_ c
  · intro kind text offset lo hi st hs hsize hle hb h
    rw [lowerCst]
    exact lowers_nil h
  · intro kind children ih offset lo hi st hs hsize hle hb h
    obtain ⟨hok, hbounds⟩ := place_mem hs hsize
    obtain ⟨hlo, hhi⟩ := hb _ _ hbounds
    have hregion := (place offset (.node kind children)).offset_le_stop
    have hbetween := fun hk : kind ≠ .error => between_place hs hk hsize
    have hnest := fun hk : kind ≠ .error => nestedIn_draftsAmong
      (fun c _ => nests_draft c) hs.2.2 hsize hregion (hbetween hk)
    have hamong : ∀ (kind' : SyntaxKind) (text : Option String), kind ≠ .error →
        st.builder.size + 1 ≤ maxNodes → Lowers (lowerAmong offset children)
          (st.open { kind := kind', region := (place offset (.node kind children)).opening, text })
          (draftsAmong offset children) :=
      fun _ _ hk hn => lowers_among ih hs.2.2 hsize hregion (hbetween hk) (h.opened hn rfl)
    have hcontainer : ∀ kind' : SyntaxKind, kind ≠ .error → Lowers (do
        let _ ← LowerM.node (·.startNode kind' (place offset (.node kind children)).offset)
        lowerAmong offset children
        LowerM.finishNode (place offset (.node kind children)).stop) st
        [branch kind' (place offset (.node kind children)) none (draftsAmong offset children)] :=
      fun kind' hk => lowers_branch h hlo (hnest hk) rfl (hamong kind' none hk)
    rw [lowerCst, hok]
    refine lowers_ok ?_
    cases kind with
    | program => exact hs.2.1.elim
    | assignment =>
      obtain ⟨start, text, rest, hw⟩ := StartsWith.exists_starts hs.2.1 rfl offset
      have hwidth := hw.widths_eq
      have hsize' : offset + Cst.widths children < naOffset := hsize
      have hplace := place_token start .ident text rfl (by omega)
      have hnamed := nestedIn_named (fun c _ => nests_draft c) hs.2.1 hs.2.2 hsize hregion
        (hbetween (by decide))
      simp only [drafts, hw.findToken?_eq, hplace]
      refine lowers_branch h hlo hnamed ?_ fun hn =>
        lowers_named ih hw hs.2.2 hsize hregion (hbetween (by decide)) (h.opened hn rfl)
      rw [lowerText_eq]
      simp only [bind_assoc, pure_bind]
      rfl
    | exprStatement => exact hcontainer Kind.exprStatement (by decide)
    | paren => exact hcontainer Kind.paren (by decide)
    | binary =>
      have hinner := hamong Kind.binary (Cst.firstSignificant? children) (by decide)
      simp only [drafts]
      refine lowers_branch h hlo (hnest (by decide)) ?_ hinner
      cases Cst.firstSignificant? children with
      | none => rfl
      | some operator =>
        simp only [StateT.run_bind, TreeBuilder.setText]
        rw [update_run]
        simp only [Lowering.open, TreeBuilder.modifyData_opened h]
        rfl
    | nameRef => exact lowers_text h hlo _ _
    | literal => exact lowers_literal h hlo _ _
    | templateStatement =>
      obtain ⟨start, text, rest, hw⟩ := StartsWith.exists_starts hs.2.1 rfl offset
      exact lowers_chunk h hlo _ _ hw.findToken?_eq
    | templateExpr =>
      obtain ⟨start, text, rest, hw⟩ := StartsWith.exists_starts hs.2.1 rfl offset
      exact lowers_chunk h hlo _ _ hw.findToken?_eq
    | error => exact lowers_error h hlo

end Induction

/-! ## Programs -/

def wholeRegion (size : Nat) (h : size < naOffset) : Region := ⟨0, size, by omega⟩

@[simp] theorem wholeRegion_stop (size : Nat) (h : size < naOffset) :
    (wholeRegion size h).stop = size := Nat.zero_add size

def programDraft (children : List Cst) (h : Cst.widths children < naOffset) : Draft :=
  branch Kind.program (wholeRegion (Cst.widths children) h) none (draftsAmong 0 children)

section Program

variable {children : List Cst}

private theorem nestedIn_wholeRegion (hs : SoundAmong children)
    (h : Cst.widths children < naOffset) :
    NestedIn (wholeRegion _ h).offset (wholeRegion _ h).stop (trees (draftsAmong 0 children)) := by
  have hn := nestedIn_draftsAmong (fun c _ => nests_draft c) hs (by omega) (by omega)
    (between_widths 0 children)
  rwa [Nat.zero_add, ← wholeRegion_stop _ h] at hn

theorem nested_programDraft (hs : SoundAmong children) (h : Cst.widths children < naOffset) :
    (programDraft children h).tree.Nested := by
  rw [Tree.nested_iff]
  exact nestedIn_wholeRegion hs h

/-- The state in which the statements of a program are lowered. -/
def openedProgram (messages : List String) : Lowering where
  builder := (TreeBuilder.new language).opened { kind := Kind.program, region := default }
  messages := messages

/-- The lowering of a program builds its draft. -/
theorem lowerProgram_run (hs : SoundAmong children) (h : Cst.widths children < naOffset)
    (messages : List String) :
    (lowerProgram (.node .program children)).run { builder := { language }, messages } =
      within (programDraft children h).tree.size ((),
        { builder := { language, root? := some (programDraft children h).tree }
          messages := messages.drop (grammarSlips (programDraft children h).entries)
          details := detailsFrom 0 messages (programDraft children h).entries
          templates := pendingFrom 0 (programDraft children h).entries }) := by
  have hb := between_widths 0 children
  have hamong : Lowers (lowerAmong 0 children) (openedProgram messages) (draftsAmong 0 children) :=
    lowers_among (fun c _ => lowers_draft c) hs (by omega) (by omega) hb
      (TreeBuilder.accepts_root language { kind := Kind.program, region := default } rfl)
  have hstart : (LowerM.node (·.startNode Kind.program 0)).run
      { builder := { language }, messages } = .ok (0, openedProgram messages) := rfl
  have htree : (programDraft children h).tree.size =
      (openedProgram messages).builder.size + sizes (trees (draftsAmong 0 children)) := by
    simp only [programDraft, branch, Draft.tree, Tree.size]
    rfl
  have hroot : ((openedProgram messages).builder.addAll
      (trees (draftsAmong 0 children))).finishNode (wholeRegion (Cst.widths children) h).stop = _ :=
    TreeBuilder.finishNode_root language Kind.program (wholeRegion _ h) default
      (nestedIn_wholeRegion hs h) rfl
  rw [lowerProgram, StateT.run_bind, hstart, ok_bind, StateT.run_bind, hamong, htree]
  refine within_bind (Nat.le_refl _) fun hn => ?_
  rw [wholeRegion_stop] at hroot
  rw [within_of_le hn, finishNode_run]
  simp only [Lowering.extend, Cst.width, hroot, ok_bind]
  simp [openedProgram, programDraft, branch, Draft.entries, Draft.tree, grammarSlips, detailsFrom,
    pendingFrom, TreeBuilder.new]
  exact ⟨rfl, rfl⟩

end Program

end SourceModel.Calc
