import SourceModel.Calc.FrontEnd
import SourceModel.Proofs.Calc.Lowered
import SourceModel.Proofs.SourceUnit.Runs

/-!
# What a unit keeps does not show

Whatever order calls and edits come in, a unit that keeps its last syntax tree and its last model
answers like one that keeps nothing. A request for an up-to-date result gets what the front end
makes of the text as it is. Any other request gets at most what an earlier call of the epoch has
built, and the stamp of that tells whether an edit has been accepted since.
-/

namespace SourceModel

variable {σ : Type}

open SourceUnit in
/-- The answers that a session gives are those of a unit that keeps nothing. -/
structure Session.Transparent (p : Analysis) (past : List (PastStep σ)) (s : Session σ) :
    Prop where
  ast : ∀ level token info, ((getAst level true token).run.run s).1 = .ok (some info) →
    ∃ content, s.content = .ok content ∧ info.IsOf p content ∧ info.level.satisfies level
  model : ∀ level token info, ((getModel level true token).run.run s).1 = .ok (some info) →
    ∃ content, s.content = .ok content ∧ info.IsOf p s.unit content ∧
      info.astInfo.level.satisfies level
  keptAst : ∀ level token info, ((getAst level false token).run.run s).1 = .ok (some info) →
    info.level.satisfies level ∧ ∃ c ∈ past, info.BuiltBy p c ∧
      (((verifyStamp info.stamp).run.run s).1 = .ok () ↔ c.edits = 0)
  keptModel : ∀ level token info, ((getModel level false token).run.run s).1 = .ok (some info) →
    info.astInfo.level.satisfies level ∧ ∃ c ∈ past, info.BuiltBy p c ∧
      (((verifyStamp info.stamp).run.run s).1 = .ok () ↔ c.edits = 0)
  verify : ∀ found, ((verifyStamp found).run.run s).1 = .ok () ↔
    ∃ content, s.content = .ok content ∧ content.stamp = found
  /-- The stamp that an earlier request of the epoch has seen is refused behind an edit. -/
  verifyPast : ∀ c ∈ past, ∃ content, c.before.content = .ok content ∧
    (((verifyStamp content.stamp).run.run s).1 = .ok () ↔ c.edits = 0)

section Answers

variable {p : Analysis} {past : List (PastStep σ)} {start s : Session σ}

private theorem Epoch.verifyStamp_iff {c : PastStep σ} {before : SourceContent} (h : Epoch p past s)
    (hc : c ∈ past) (hb : c.before.content = .ok before) :
    ((SourceUnit.verifyStamp before.stamp).run.run s).1 = .ok () ↔ c.edits = 0 := by
  obtain ⟨_, now, _, hn, _⟩ := h.content c hc
  rw [SourceUnit.verifyStamp_eq_ok, ← (h.content_eq hc hb hn).1]
  constructor
  · rintro ⟨content, hcontent, hstamp⟩
    cases hn.symm.trans hcontent
    exact hstamp
  · exact fun hstamp => ⟨now, hn, hstamp⟩

private theorem eq_some_of_unsynced {α : Type} {kept : Option α} {suits : α → Bool} {k : Nat}
    {info : α}
    (h : (.ok (if k = 0 then none else kept.filter suits) : Except Fault (Option α)) =
      .ok (some info)) :
    kept = some info ∧ suits info := by
  injection h with h
  split at h
  · cases h
  · exact Option.filter_eq_some_iff.1 h

private theorem content_of_getAst {level : AstLevel} {token : CancellationToken σ} {info : AstInfo}
    (h : ((SourceUnit.getAst level true token).run.run s).1 = .ok (some info)) :
    ∃ content, s.content = .ok content := by
  cases hc : s.content with
  | ok content => exact ⟨content, rfl⟩
  | error fault =>
    rw [SourceUnit.getAst_error hc] at h
    dsimp only at h
    split at h <;> cases h

private theorem content_of_getModel {level : AstLevel} {token : CancellationToken σ}
    {info : ModelInfo}
    (h : ((SourceUnit.getModel level true token).run.run s).1 = .ok (some info)) :
    ∃ content, s.content = .ok content := by
  cases hc : s.content with
  | ok content => exact ⟨content, rfl⟩
  | error fault =>
    rw [SourceUnit.getModel_error hc] at h
    dsimp only at h
    split at h <;> cases h

/-- Behind any run, whoever edited the text, built the results and raised the tokens, an up-to-date
answer is what the front end makes of the text as it is, and of nothing that was kept. An answer
that need not be up to date was built by a step since the unit last had no connections. The stamp
of either is accepted just if the text has not been edited since. -/
theorem Run.transparent (hp : start.unit.frontEnd.Computes p) (hr : Run start past s) :
    s.Transparent p past := by
  have h := hr.epoch hp
  refine
    { ast := fun level token info ha => ?_
      model := fun level token info ha => ?_
      keptAst := fun level token info ha => ?_
      keptModel := fun level token info ha => ?_
      verify := SourceUnit.verifyStamp_eq_ok s
      verifyPast := fun c hc => ?_ }
  · obtain ⟨content, hc⟩ := content_of_getAst ha
    obtain ⟨-, hok⟩ := SourceUnit.getAst_synced h.computes hc (h.current hc) level token
    exact ⟨content, hc, hok info ha⟩
  · obtain ⟨content, hc⟩ := content_of_getModel ha
    obtain ⟨-, hok⟩ := SourceUnit.getModel_synced h.computes hc (h.current hc) level token
    exact ⟨content, hc, hok info ha⟩
  · rw [SourceUnit.getAst_unsynced] at ha
    obtain ⟨hk, hlevel⟩ := eq_some_of_unsynced ha
    obtain ⟨c, hc, hbuilt⟩ := h.ast info hk
    obtain ⟨before, hb, his⟩ := hbuilt.isOf
    exact ⟨hlevel, c, hc, hbuilt, his.stamp ▸ h.verifyStamp_iff hc hb⟩
  · rw [SourceUnit.getModel_unsynced] at ha
    obtain ⟨hk, hlevel⟩ := eq_some_of_unsynced ha
    obtain ⟨c, hc, hbuilt⟩ := h.model info hk
    obtain ⟨before, hb, his⟩ := hbuilt.isOf
    have hstamp : info.stamp = before.stamp := his.astInfo.stamp
    exact ⟨hlevel, c, hc, hbuilt, hstamp ▸ h.verifyStamp_iff hc hb⟩
  · obtain ⟨before, _, hb, _⟩ := h.content c hc
    exact ⟨before, hb, h.verifyStamp_iff hc hb⟩

end Answers

namespace Calc

def analysis : Analysis where
  tree content level := lower (parse content.text) level
  outline unit content ast := outline unit content.size ast
  names _ ast := nameAccesses ast

/-- Calc is pure: a token can only keep it from answering. -/
theorem frontEnd_computes : (frontEnd : FrontEnd σ).Computes analysis where
  parse content level token state ast h := by
    change parseContent content level token state = .ok ast at h
    unfold parseContent at h
    cases hc : token.check "parse" state with
    | error fault =>
      rw [hc] at h
      cases h
    | ok _ =>
      rw [hc] at h
      cases hc' : token.check "lower" state with
      | error fault =>
        rw [hc'] at h
        cases h
      | ok _ =>
        rw [hc'] at h
        exact h
  buildOutline unit content ast state outline h := h
  nameAccesses content ast state := rfl

private theorem exists_getAst {s : Session σ} {content : SourceContent}
    (hf : s.unit.frontEnd = frontEnd) (hc : s.content = .ok content)
    (hkept : s.unit.astInfo? = none) (hsize : content.size < halfWordLimit)
    (hcount : (parse content.text).tree.nodeCount ≤ TreeBuilder.maxNodes) (level : AstLevel)
    {token : CancellationToken σ} (htoken : token.isCancelled s.client = false) :
    ∃ info, (SourceUnit.getAst level true token).run.run s =
      (.ok (some info), ⟨s.unit.keepAst info, s.client⟩) ∧ info.stamp = content.stamp ∧
        info.level = level := by
  obtain ⟨ast, hlower⟩ := exists_lower hsize hcount level
  have hcheck (phase : String) : token.check phase s.client = .ok () := by
    unfold CancellationToken.check
    rw [htoken]
    rfl
  have hparse : (s.unit.frontEnd.parse content level token).run s.client =
      (.ok ast, s.client) := by
    rw [hf]
    change (parseContent content level token s.client, s.client) = (.ok ast, s.client)
    unfold parseContent
    rw [hcheck, hcheck, ← hlower]
    rfl
  refine ⟨⟨s.unit.astCount, content.stamp, level, ast⟩, ?_, rfl, rfl⟩
  unfold SourceUnit.getAst SourceUnit.syncAst SourceUnit.rebuildAst
  simp only [SourceUnit.run_bind, SourceUnit.run_self, SourceUnit.connections_ne_zero hc, if_false,
    Bool.not_true, Bool.false_eq_true, SourceUnit.run_content, show s.unit.currentContent s.client =
      .ok content from hc, hkept, Option.filter_none, SourceUnit.run_checkPhase, hcheck,
    SourceUnit.run_attempt, hparse]
  rfl

def unused : Session Unit := ⟨detachedUnit "a.calc" ⟨1, "a = 1;"⟩, ()⟩

def opened : Session Unit := (SourceUnit.connect.run.run unused).2

/-- A syntax tree that is out of date is still there for those who do not mind. -/
theorem transparent_outdated :
    ∃ (past : List (PastStep Unit)) (s : Session Unit) (info : AstInfo),
      unused.unit.frontEnd.Computes analysis ∧ Run unused past s ∧ s.Transparent analysis past ∧
        ((SourceUnit.getAst .full false ⟨fun _ => false⟩).run.run s).1 = .ok (some info) ∧
          s.content = .ok ⟨2, "a = 2;"⟩ ∧ info.stamp = 1 := by
  obtain ⟨info, hget, hstamp, hlevel⟩ := @exists_getAst Unit opened ⟨1, "a = 1;"⟩ rfl rfl rfl
    (by decide) (Nat.le_trans (nodeCount_parse_le _) (by decide)) .full ⟨fun _ => false⟩ rfl
  have hopened : Run unused _ opened := .step (.fresh ⟨rfl, rfl, rfl⟩) (.connect unused)
  have hbuilt := hopened.step (.getAst opened .full true ⟨fun _ => false⟩ rfl)
  rw [hget] at hbuilt
  have hedited := hbuilt.step (.setContent _ "a = 2;")
  refine ⟨_, _, info, frontEnd_computes, hedited, hedited.transparent frontEnd_computes, ?_, rfl,
    hstamp⟩
  have hserves : (some info).filter (·.level.satisfies .full) = some info :=
    Option.filter_eq_some_iff.2 ⟨rfl, hlevel ▸ SourceUnit.satisfies_self _⟩
  rw [SourceUnit.getAst_unsynced]
  exact congrArg Except.ok hserves

end Calc

end SourceModel
