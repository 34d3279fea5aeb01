import SourceModel.Proofs.Calc.Lowering
import SourceModel.Proofs.Calc.Words
import SourceModel.Proofs.Tree.Embedding

/-!
# What is attached to a finished tree

The trees of templates and the details of statuses change no region and no child. A template is
accepted where its node says that it is one and lies around it; a detail is accepted at every node.
-/

namespace SourceModel.Calc

open TreeBuilder (within within_of_le ok_bind maxNodes)

/-- A tree has the shape of another one, and no worse foreign trees. -/
structure Keeps (ast ast' : Ast) : Prop where
  language : ast'.language = ast.language
  region : ast'.root.region = ast.root.region
  nested : ast.root.Nested → ast'.root.Nested
  foreign : ast.root.ForeignSound → ast'.root.ForeignSound
  size_eq : ast'.size = ast.size
  sketch_eq : ast'.root.sketch NodeData.bare = ast.root.sketch NodeData.bare

theorem Keeps.refl (ast : Ast) : Keeps ast ast := ⟨rfl, rfl, id, id, rfl, rfl⟩

theorem Keeps.trans {a b c : Ast} (h : Keeps a b) (h' : Keeps b c) : Keeps a c where
  language := h'.language.trans h.language
  region := h'.region.trans h.region
  nested := h'.nested ∘ h.nested
  foreign := h'.foreign ∘ h.foreign
  size_eq := h'.size_eq.trans h.size_eq
  sketch_eq := h'.sketch_eq.trans h.sketch_eq

private theorem keeps_modify {f : Tree → Tree} {g : NodeData → NodeData} (ast : Ast) (id : Nat)
    (hc : ∀ t, (f t).children = t.children) (hd : ∀ t, (f t).data = g t.data)
    (hb : ∀ data, (g data).bare = data.bare)
    (hf : ∀ t, t.ForeignSound → (f t).ForeignSound) :
    Keeps ast { ast with root := ast.root.modify (fun above => above) f id } := by
  have hregion : ∀ t, (f t).region = t.region := by
    intro t
    have hbare := congrArg NodeData.region (hb t.data)
    rw [Tree.region, hd]
    exact hbare
  have hsketch : ∀ t, (f t).sketch NodeData.bare = t.sketch NodeData.bare := by
    intro t
    rw [Tree.sketch_eq, Tree.sketch_eq t, hc, hd, hb]
  refine ⟨rfl, Tree.region_modify hregion id ast.root, fun h => h.modify hc hregion id,
    fun h => h.modify hf id, ?_, Tree.sketch_modify (fun _ => rfl) hsketch id ast.root⟩
  rw [Ast.size, Ast.size, ← Tree.length_datas, Tree.datas_modify hc hd, List.length_modify,
    Tree.length_datas]

/-! ## Templates -/

/-- A node says that it is the given template, and lies around it. -/
def Hosts (data : NodeData) (t : PendingTemplate) : Prop :=
  ∃ flags, data.embedding = some ⟨templateLanguage, flags⟩ ∧ data.region.offset ≤ t.offset ∧
    t.offset + Text.size t.text ≤ data.region.stop

theorem Hosts.lt {data : NodeData} {t : PendingTemplate} (h : Hosts data t) :
    t.offset + Text.size t.text < naOffset := by
  obtain ⟨_, _, _, hs⟩ := h
  exact Nat.lt_of_le_of_lt hs data.region.stop_lt_naOffset

private theorem keeps_putForeign (ast foreign : Ast) (id : Nat) (h : foreign.root.problems = []) :
    Keeps ast (ast.putForeign id foreign) :=
  keeps_modify (g := fun data => data) ast id (Tree.children_withForeign _)
    (Tree.data_withForeign _) (fun _ => rfl) (Tree.ForeignSound.withForeign h)

private theorem datas_putForeign (ast foreign : Ast) (id : Nat) :
    (ast.putForeign id foreign).root.datas = ast.root.datas := Tree.datas_carry ..

def Hosts.foreign {data : NodeData} {t : PendingTemplate} (h : Hosts data t) : Ast :=
  ⟨templateLanguage, chunkTree t.offset t.text h.lt⟩

private theorem attachForeign_eq {ast : Ast} {data : NodeData} {t : PendingTemplate}
    (hn : ast.root.datas[t.node]? = some data) (h : Hosts data t) :
    ast.attachForeign t.node h.foreign = .ok (ast.putForeign t.node h.foreign) := by
  have hregion := chunkTree_region h.lt
  obtain ⟨flags, he, ho, hs⟩ := id h
  obtain ⟨u, hu, rfl⟩ := Tree.exists_get? hn
  apply Ast.Fits.attachForeign_eq
  refine ⟨u, flags, hu, he, Region.containsRegion_iff.2 ?_⟩
  change u.data.region.offset ≤ (chunkTree t.offset t.text h.lt).region.offset ∧
    (chunkTree t.offset t.text h.lt).region.stop ≤ u.data.region.stop
  omega

/-- The trees of templates are attached to the nodes that say so, unless one has too many words. -/
theorem attachTemplates_spec {ast : Ast} {templates : List PendingTemplate}
    (h : ∀ t ∈ templates, ∃ data, ast.root.datas[t.node]? = some data ∧ Hosts data t) :
    (∀ ast', attachTemplates ast templates = .ok ast' →
      Keeps ast ast' ∧ ast'.root.datas = ast.root.datas) ∧
      ((∀ t ∈ templates, Text.size t.text < halfWordLimit) →
        ∃ ast', attachTemplates ast templates = .ok ast') := by
  induction templates generalizing ast with
  | nil =>
    refine ⟨fun ast' ha => ?_, fun _ => ⟨ast, rfl⟩⟩
    cases ha
    exact ⟨.refl ast, rfl⟩
  | cons t templates ih =>
    obtain ⟨data, hn, hosts⟩ := h t (by simp)
    have hkeep : Keeps ast (ast.putForeign t.node hosts.foreign) :=
      keeps_putForeign ast hosts.foreign t.node (problems_chunkTree hosts.lt)
    have hdatas := datas_putForeign ast hosts.foreign t.node
    have hstep : attachTemplates ast (t :: templates) =
        (within (1 + (chunkWords t.offset t.text).length) hosts.foreign >>= fun foreign =>
          ast.attachForeign t.node foreign >>= fun ast' => attachTemplates ast' templates) := by
      rw [attachTemplates, List.foldlM_cons, templateTree_eq hosts.lt, bind_assoc]
      rfl
    obtain ⟨hkeeps, hok⟩ := @ih (ast.putForeign t.node hosts.foreign) fun u hu => by
      rw [hdatas]
      exact h u (by simp [hu])
    rw [hstep]
    constructor
    · intro ast' ha
      unfold within at ha
      split at ha
      · rw [ok_bind, attachForeign_eq hn hosts, ok_bind] at ha
        obtain ⟨hk, hd⟩ := hkeeps ast' ha
        exact ⟨hkeep.trans hk, hd.trans hdatas⟩
      · cases ha
    · intro hsmall
      have hlen := length_chunkWords_le t.offset t.text
      have hsize := hsmall t (by simp)
      have hle : 1 + (chunkWords t.offset t.text).length ≤ maxNodes := by
        rw [show maxNodes = halfWordLimit from rfl]
        omega
      rw [within_of_le hle, ok_bind, attachForeign_eq hn hosts, ok_bind]
      exact hok fun u hu => hsmall u (by simp [hu])

/-! ## Details -/

/-- A node about which something has been said. -/
def detailed (identity : Nat) (detail : StatusDetail) (data : NodeData) : NodeData :=
  { data with attachments := data.attachments.add ⟨identity, .detail detail⟩ }

/-- A node about all of which something has been said. -/
def explained (identity : Nat) (message : String) (data : NodeData) : NodeData :=
  detailed identity ⟨data.region, message⟩ data

/-- What the nodes say about themselves once the details are attached. -/
def explainedFrom (identity : Nat) (messages : List String) : List Entry → List NodeData
  | [] => []
  | e :: es =>
    match e.slip with
    | none => e.data :: explainedFrom identity messages es
    | some .grammar =>
      explained identity (messages.headD "syntax error") e.data ::
        explainedFrom (identity + 1) messages.tail es
    | some (.unterminated fault) =>
      explained identity fault.message e.data :: explainedFrom (identity + 1) messages es

def attachDetail (ast : Ast) (d : (Nat × String) × Nat) : Except Fault Ast :=
  match ast.root.get? d.1.1 with
  | none => .error (.internal s!"lost AST node {displayId d.1.1}")
  | some t => ast.addDetail d.1.1 d.2 ⟨t.region, d.1.2⟩

private theorem modify_length {α : Type} (f : α → α) (as bs : List α) (a : α) :
    (as ++ a :: bs).modify as.length f = as ++ f a :: bs := by
  induction as with
  | nil => rfl
  | cons b as ih => rw [List.cons_append, List.length_cons, List.modify_succ_cons, ih]; rfl

private theorem attachDetail_ok {ast : Ast} {pre post : List NodeData} {data : NodeData}
    (h : ast.root.datas = pre ++ data :: post) (message : String) (identity : Nat) :
    ∃ ast', attachDetail ast ((pre.length, message), identity) = .ok ast' ∧ Keeps ast ast' ∧
      ast'.root.datas = pre ++ explained identity message data :: post := by
  have hn : ast.root.datas[pre.length]? = some data := by simp [h]
  obtain ⟨t, ht, rfl⟩ := Tree.exists_get? hn
  have hin := t.region.containsRegion_refl
  refine ⟨ast.modifyData pre.length (detailed identity ⟨t.region, message⟩), ?_, ?_, ?_⟩
  · simp only [attachDetail, Ast.addDetail, ht, hin, if_true]
    rfl
  · exact keeps_modify (g := detailed identity ⟨t.region, message⟩) ast pre.length
      (Tree.children_mapData _) (Tree.data_mapData _) (fun _ => rfl)
      (Tree.ForeignSound.mapData _)
  · rw [Ast.modifyData, Tree.datas_modify (g := detailed identity ⟨t.region, message⟩)
      (Tree.children_mapData _) (Tree.data_mapData _), h, modify_length]
    rfl

theorem foldlM_attachDetail {ast : Ast} {pre : List NodeData} {es : List Entry}
    (h : ast.root.datas = pre ++ es.map Entry.data) (messages : List String) (identity : Nat) :
    ∃ ast', ((detailsFrom pre.length messages es).zipIdx identity).foldlM attachDetail ast =
        .ok ast' ∧
      Keeps ast ast' ∧ ast'.root.datas = pre ++ explainedFrom identity messages es := by
  induction es generalizing ast pre messages identity with
  | nil => exact ⟨ast, rfl, .refl ast, h⟩
  | cons e es ih =>
    have hmark : ∀ message messages', ∃ ast',
        (((pre.length, message) :: detailsFrom (pre.length + 1) messages' es).zipIdx
          identity).foldlM attachDetail ast = .ok ast' ∧ Keeps ast ast' ∧
        ast'.root.datas = pre ++
          explained identity message e.data :: explainedFrom (identity + 1) messages' es := by
      intro message messages'
      obtain ⟨a, ha, hk, hd⟩ := attachDetail_ok h message identity
      obtain ⟨b, hb, hk', hd'⟩ := @ih a (pre ++ [explained identity message e.data])
        (by simpa using hd) messages' (identity + 1)
      refine ⟨b, ?_, hk.trans hk', by simpa using hd'⟩
      rw [List.zipIdx_cons, List.foldlM_cons, ha, ok_bind]
      simpa using hb
    rcases hs : e.slip with _ | _ | fault
    · obtain ⟨b, hb, hk, hd⟩ := @ih ast (pre ++ [e.data]) (by simpa using h) messages identity
      refine ⟨b, ?_, hk, ?_⟩
      · simpa [detailsFrom, hs] using hb
      · simpa [explainedFrom, hs] using hd
    · simpa [detailsFrom, explainedFrom, hs] using
        hmark (messages.headD "syntax error") messages.tail
    · simpa [detailsFrom, explainedFrom, hs] using hmark fault.message messages

end SourceModel.Calc
