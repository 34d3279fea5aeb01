import SourceModel.CommandLine.OpenedFile
import SourceModel.Proofs.Calc.Boundaries
import SourceModel.Proofs.Calc.Sections
import SourceModel.Proofs.Lines
import SourceModel.Proofs.NameAccess.Collecting
import SourceModel.Proofs.SourceUnit.Custody
import SourceModel.Proofs.SourceUnit.Failures
import SourceModel.Proofs.SourceUnit.Transparency

/-!
# Positions in a file

Line and column tell the places of a text apart and keep them in order. What is reported about a
calc file lies at such places: the model of an opened file is the one of its text, and no region in
it splits a character.
-/

namespace SourceModel

open Text (byteCount IsBoundary)

/-! ## The model of a text -/

namespace Calc

variable {σ : Type} {content : SourceContent}

private theorem frontEnd_answers (hsize : content.size < halfWordLimit)
    (hcount : (parse content.text).tree.nodeCount ≤ TreeBuilder.maxNodes) (unit : String)
    (level : AstLevel) {token : CancellationToken σ} {client : σ}
    (htoken : token.isCancelled client = false) :
    (frontEnd : FrontEnd σ).Answers analysis unit content level token (Eq client) where
  live state hstate := hstate ▸ htoken
  parse state hstate := by
    subst hstate
    obtain ⟨ast, hlower⟩ := exists_lower hsize hcount level
    have hcheck : ∀ phase, token.check phase client = .ok () := by
      intro phase
      unfold CancellationToken.check
      rw [htoken]
      rfl
    refine ⟨ast, client, ?_, rfl⟩
    change (parseContent content level token client, client) = (.ok ast, client)
    unfold parseContent
    rw [hcheck, hcheck, ← hlower]
    rfl
  buildOutline built ast state hlower hstate := by
    obtain ⟨hlt, hl⟩ := lowered_of_lower hlower
    obtain ⟨o, ho, -⟩ := exists_outline unit (make?_of_lower hlower) hl.nested
      (size_le_of_lower hlower)
    exact ⟨o, state, congrArg (·, state) ho, hstate⟩
  nameAccesses _ _ hstate := hstate

structure ModelCuts (model : ModelInfo) (text : String) : Prop where
  accesses : ∀ a ∈ model.names.accesses, a.region.Cuts text
  elements : ∀ e ∈ model.outline.elements,
    e.range.Cuts text ∧ ∀ r, e.nameRange? = some r → r.Cuts text
  problems : ∀ p ∈ model.problems, p.region.Cuts text

private theorem modelCuts_of_isOf {u : SourceUnit σ} {model : ModelInfo}
    (h : model.IsOf analysis u content) : ModelCuts model content.text where
  accesses a ha := by
    rw [h.names] at ha
    have hmem := (NameAccessSet.perm_accesses _).mem_iff.1 ha
    split at hmem
    · exact cuts_nameAccess h.astInfo.ast hmem
    · cases hmem
  elements e he := cuts_element h.astInfo.ast h.outline he
  problems p hp := cuts_problem h.astInfo.ast (h.problems ▸ hp)

end Calc

/-! ## Opened files -/

namespace CommandLine.OpenedFile

open Calc (analysis)

/-- The unit of a file with the connection under which results are built. -/
def connected (file : OpenedFile) : Session TextDocument where
  unit := { file.unit with document? := some ⟨fun d => d⟩, connections := 1 }
  client := file.document

section Opened

variable {name text : String} {options : ModelOptions} {file : OpenedFile} {model : ModelInfo}

/-- A file that has been opened, with nothing built yet. -/
structure IsOpened (name text : String) (options : ModelOptions) (file : OpenedFile) : Prop where
  unit : file.unit = { Calc.documentUnit name ⟨fun d => d⟩ with options }
  content : file.content = ⟨file.document.stamp, file.document.text⟩
  text : file.document.text = text

private theorem isOpened (h : ofText name text options = .ok file) :
    IsOpened name text options file := by
  obtain ⟨document, hdocument, hfile⟩ := TreeBuilder.bind_eq_ok h
  cases hfile
  exact ⟨rfl, rfl, (TextDocument.addPartitioner_eq hdocument).2⟩

private theorem exists_ofText (name : String) (options : ModelOptions)
    (h : Text.size text < naOffset) : ∃ file, ofText name text options = .ok file := by
  obtain ⟨document, hdocument, -, -⟩ := Calc.exists_document h
  unfold ofText
  rw [hdocument]
  exact ⟨_, rfl⟩

private theorem content_connected (h : IsOpened name text options file) :
    file.connected.unit.currentContent file.connected.client = .ok file.content := by
  simp only [connected, h.unit, h.content]
  rfl

private theorem request_eq_ok_iff {α : Type} (h : IsOpened name text options file)
    (call : UnitM TextDocument (Option α)) (a : α) :
    file.request call = .ok a ↔ (call.run.run file.connected).1 = .ok (some a) := by
  have hconnect : SourceUnit.connect.run.run ⟨file.unit, file.document⟩ =
      (.ok (), file.connected) := by
    simp only [connected, h.unit]
    rfl
  unfold request
  rw [SourceUnit.withConnection_run, hconnect]
  rcases (call.run.run file.connected).1 with fault | found
  · exact ⟨(nomatch ·), (nomatch ·)⟩
  · cases found with
    | none => exact ⟨(nomatch ·), (nomatch ·)⟩
    | some b =>
      constructor
      · rintro ⟨⟩
        rfl
      · rintro ⟨⟩
        rfl

private theorem computes_connected (h : IsOpened name text options file) :
    file.connected.unit.frontEnd.Computes analysis := by
  simp only [connected, h.unit]
  exact Calc.frontEnd_computes

private theorem isOf_of_model (h : IsOpened name text options file) (hm : file.model = .ok model) :
    model.IsOf analysis file.connected.unit file.content := by
  have hcurrent : file.connected.unit.Current analysis file.content := by
    simp only [connected, h.unit]
    exact ⟨fun _ hi => (nomatch hi), fun _ hi => (nomatch hi)⟩
  obtain ⟨-, hok⟩ := SourceUnit.getModel_synced (computes_connected h) (content_connected h)
    hcurrent file.unit.options.astLevel uncancelled
  exact (hok model ((request_eq_ok_iff h _ model).1 hm)).1

private theorem exists_model (h : IsOpened name text options file)
    (hsize : Text.size text < halfWordLimit)
    (hcount : (Calc.parse text).tree.nodeCount ≤ TreeBuilder.maxNodes) :
    ∃ model, file.model = .ok model := by
  have htext : file.content.text = text := (congrArg SourceContent.text h.content).trans h.text
  rw [← htext] at hsize hcount
  have hfront : file.connected.unit.frontEnd = Calc.frontEnd := by
    simp only [connected, h.unit]
    rfl
  have hfresh : file.connected.unit.astInfo? = none ∧ file.connected.unit.modelInfo? = none := by
    simp only [connected, h.unit]
    exact ⟨rfl, rfl⟩
  have hp := computes_connected h
  have hc := content_connected h
  obtain ⟨least, hleast⟩ : ∃ least, least =
    max file.unit.options.astLevel file.connected.unit.options.astLevel := ⟨_, rfl⟩
  have hanswers := Calc.frontEnd_answers hsize hcount file.connected.unit.id least
    (show uncancelled.isCancelled file.connected.client = false from rfl)
  rw [← hfront] at hanswers
  obtain ⟨ast, htree⟩ := exists_tree hp hanswers rfl
  have hsynced : file.connected.unit.syncedAst file.content least ast =
      file.connected.unit.nextAst file.content least ast := by
    rw [SourceUnit.syncedAst, hfresh.1]
    rfl
  have hbuilt : analysis.tree file.content least =
      .ok (file.connected.unit.syncedAst file.content least ast).ast := by
    rw [hsynced]
    exact htree
  obtain ⟨parts, hparts⟩ := exists_parts hp hanswers rfl hbuilt
  have hnone : file.connected.unit.modelInfo?.filter
      (·.serves file.content.stamp file.unit.options.astLevel) = none := by
    rw [hfresh.2]
    rfl
  obtain ⟨next, hrun⟩ := getModel_answers hleast hp hanswers rfl htree hbuilt hparts hc hnone
  exact ⟨_, (request_eq_ok_iff h _ _).2 (congrArg Prod.fst hrun)⟩

end Opened

/-- Line and column tell the places of a text apart: they come in the order of the places, and the
line counts the line breaks in front. -/
structure Locates (content : SourceContent) : Prop where
  ascending : ∀ i j, IsBoundary content.text i → IsBoundary content.text j → i < j →
    Prod.Lex (· < ·) (· < ·) (content.lineColumn i) (content.lineColumn j)
  line : ∀ front back, content.text.toList = front ++ back →
    (content.lineColumn (byteCount front)).1 = 1 + front.count '\n'

/-- Every text can be opened whose offsets are available, and what is shown of its offsets tells the
places of the text apart. All regions in the model lie between such places, and within the limits
for sizes there is a model. -/
theorem locates_opened (name text : String) (options : ModelOptions) :
    (Text.size text < naOffset → ∃ file, ofText name text options = .ok file) ∧
      ∀ file, ofText name text options = .ok file →
        file.content.text = text ∧ Locates file.content ∧
          (Text.size text < halfWordLimit →
            (Calc.parse text).tree.nodeCount ≤ TreeBuilder.maxNodes →
              ∃ model, file.model = .ok model) ∧
            ∀ model, file.model = .ok model → Calc.ModelCuts model text := by
  refine ⟨exists_ofText name options, fun file hfile => ?_⟩
  have h := isOpened hfile
  have htext : file.content.text = text := (congrArg SourceContent.text h.content).trans h.text
  refine ⟨htext, ⟨fun i j hi hj hlt => ?_, fun front back hsplit => ?_⟩, exists_model h,
    fun model hm => ?_⟩
  · exact SourceContent.lineColumn_lt hi hj hlt
  · rw [SourceContent.lineColumn_fst hsplit, Nat.add_comm]
  · have hcuts := Calc.modelCuts_of_isOf (isOf_of_model h hm)
    rwa [htext] at hcuts

/-- Two lines, with a name of two bytes and an empty error node in front of the last semicolon. -/
theorem locates_opened_unclosed :
    ∃ file model, ofText "main" "é = 1;\nx = (é ;" {} = .ok file ∧ file.model = .ok model ∧
      Locates file.content ∧ Calc.ModelCuts model "é = 1;\nx = (é ;" := by
  obtain ⟨hopens, hopened⟩ := locates_opened "main" "é = 1;\nx = (é ;" {}
  obtain ⟨file, hfile⟩ := hopens (by decide)
  obtain ⟨-, hlocates, hmodels, hcuts⟩ := hopened file hfile
  obtain ⟨model, hmodel⟩ := hmodels (by decide)
    (Nat.le_trans (Calc.nodeCount_parse_le _) (by decide))
  exact ⟨file, model, hfile, hmodel, hlocates, hcuts model hmodel⟩

end CommandLine.OpenedFile

end SourceModel
