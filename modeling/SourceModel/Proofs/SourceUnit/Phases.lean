import SourceModel.SourceUnit

/-!
# Phases of a rebuild

A call of a unit is run step by step. A rebuild goes through phases, in which only the client acts:
the token is checked, the text is parsed, the token is checked again, and so on. What the unit keeps
changes behind the last phase of a syntax tree and behind the last one of a model.
-/

namespace SourceModel

variable {σ α β : Type}

namespace SourceUnit

/-! ## Steps of a call -/

section Steps

theorem run_bind {τ : Type} (m : ExceptT Fault (StateM τ) α) (f : α → ExceptT Fault (StateM τ) β)
    (s : τ) :
    (m >>= f).run.run s =
      match m.run.run s with
      | (.ok a, t) => (f a).run.run t
      | (.error fault, t) => (.error fault, t) := by
  rw [ExceptT.run_bind, StateT.run_bind]
  rcases m.run.run s with ⟨_ | a, t⟩ <;> rfl

theorem run_pure {τ : Type} (a : α) (s : τ) :
    (pure a : ExceptT Fault (StateM τ) α).run.run s = (.ok a, s) := rfl

variable (s : Session σ)

theorem run_throw (fault : Fault) : (throw fault : UnitM σ α).run.run s = (.error fault, s) := rfl

theorem run_self : (self : UnitM σ (SourceUnit σ)).run.run s = (.ok s.unit, s) := rfl

theorem run_update (f : SourceUnit σ → SourceUnit σ) :
    (update f).run.run s = (.ok (), { s with unit := f s.unit }) := rfl

theorem run_perform (act : StateM σ α) :
    (perform act).run.run s =
      (.ok (act.run s.client).1, { s with client := (act.run s.client).2 }) := rfl

theorem mapError_ok (report : Fault → Fault) (a : α) :
    (Except.ok a : Except Fault α).mapError report = .ok a := rfl

theorem run_attempt (report : Fault → Fault) (act : StateM σ (Except Fault α)) :
    (attempt report act).run.run s =
      ((act.run s.client).1.mapError report, { s with client := (act.run s.client).2 }) := by
  unfold attempt
  rw [run_bind, run_perform]
  cases (act.run s.client).1 <;> rfl

private theorem run_get : (get : UnitM σ (Session σ)).run.run s = (.ok s, s) := rfl

private theorem run_lift (r : Except Fault α) : (liftM r : UnitM σ α).run.run s = (r, s) := rfl

theorem run_content : (content : UnitM σ SourceContent).run.run s =
    (s.unit.currentContent s.client, s) := by
  unfold content
  rw [run_bind, run_get]
  exact run_lift s _

theorem run_checkPhase (token : CancellationToken σ) (phase : String) :
    (checkPhase token phase).run.run s = (token.check phase s.client, s) := by
  unfold checkPhase
  rw [run_bind, run_get]
  exact run_lift s _

end Steps

end SourceUnit

/-! ## Phases -/

/-- Phases in which a client acts, up to the first one that reports a fault. -/
abbrev PhaseM (σ : Type) := ExceptT Fault (StateM σ)

def CancellationToken.phase (token : CancellationToken σ) (name : String) : PhaseM σ Unit :=
  ExceptT.mk fun state => (token.check name state, state)

theorem CancellationToken.phase_run (token : CancellationToken σ) (name : String) (state : σ) :
    (token.phase name).run.run state = (token.check name state, state) := rfl

theorem PhaseM.run_lift (act : StateM σ α) (state : σ) :
    (ExceptT.lift act : PhaseM σ α).run.run state = (.ok (act.run state).1, (act.run state).2) :=
  rfl

/-- Phases that do not change what a client has in view. -/
def PhaseM.Leaves {τ : Type} (phases : PhaseM σ α) (view : σ → τ) : Prop :=
  ∀ state, view (phases.run.run state).2 = view state

section Leaves

variable {τ : Type} {view : σ → τ}

theorem CancellationToken.leaves_phase (token : CancellationToken σ) (name : String) :
    (token.phase name).Leaves view := fun _ => rfl

theorem PhaseM.Leaves.bind {m : PhaseM σ α} {f : α → PhaseM σ β} (hm : m.Leaves view)
    (hf : ∀ a, (f a).Leaves view) : (m >>= f).Leaves view := by
  intro state
  have hstate := hm state
  rw [SourceUnit.run_bind]
  rcases hr : m.run.run state with ⟨fault | a, next⟩
  all_goals rw [hr] at hstate
  · exact hstate
  · exact (hf a next).trans hstate

end Leaves

namespace SourceUnit

def parsePhases (u : SourceUnit σ) (content : SourceContent) (level : AstLevel)
    (token : CancellationToken σ) : PhaseM σ Ast := do
  token.phase "parse"
  ExceptT.mk (u.frontEnd.parse content level token)

def accessPhase (u : SourceUnit σ) (content : SourceContent) (ast : Ast) :
    StateM σ (List NameAccess) :=
  if u.options.buildNames then u.frontEnd.nameAccesses content ast else pure []

/-- The phases that lead from a syntax tree to what a model has besides. -/
def modelPhases (u : SourceUnit σ) (content : SourceContent) (ast : Ast)
    (token : CancellationToken σ) : PhaseM σ (Outline × List NameAccess) := do
  token.phase "structure"
  let outline ← ExceptT.mk (u.frontEnd.buildOutline u.id content ast)
  token.phase "name access"
  let accesses ← ExceptT.lift (u.accessPhase content ast)
  token.phase "problems"
  return (outline, accesses)

theorem parsePhases_run (u : SourceUnit σ) (content : SourceContent) (level : AstLevel)
    (token : CancellationToken σ) (state : σ) :
    (u.parsePhases content level token).run.run state =
      if token.isCancelled state then (.error (.cancelled "parse"), state)
      else (u.frontEnd.parse content level token).run state := by
  unfold parsePhases
  simp only [run_bind, token.phase_run, CancellationToken.check]
  cases token.isCancelled state <;> rfl

theorem modelPhases_run (u : SourceUnit σ) (content : SourceContent) (ast : Ast)
    (token : CancellationToken σ) (state : σ) :
    (u.modelPhases content ast token).run.run state =
      if token.isCancelled state then (.error (.cancelled "structure"), state)
      else
        match (u.frontEnd.buildOutline u.id content ast).run state with
        | (.error fault, next) => (.error fault, next)
        | (.ok outline, next) =>
          if token.isCancelled next then (.error (.cancelled "name access"), next)
          else
            let (accesses, last) := (u.accessPhase content ast).run next
            if token.isCancelled last then (.error (.cancelled "problems"), last)
            else (.ok (outline, accesses), last) := by
  unfold modelPhases
  simp only [run_bind, token.phase_run, CancellationToken.check, ExceptT.run_mk, PhaseM.run_lift]
  cases token.isCancelled state with
  | true => rfl
  | false =>
    simp only [Bool.false_eq_true, if_false]
    rcases (u.frontEnd.buildOutline u.id content ast).run state with ⟨fault | outline, next⟩
    · rfl
    · dsimp only
      cases token.isCancelled next with
      | true => rfl
      | false =>
        simp only [Bool.false_eq_true, if_false]
        rcases (u.accessPhase content ast).run next with ⟨accesses, last⟩
        dsimp only
        cases token.isCancelled last <;> rfl

section Phases

variable {u : SourceUnit σ} {content : SourceContent} {level : AstLevel} {ast : Ast}
  {token : CancellationToken σ} {state next : σ}

theorem parsePhases_ok
    (h : (u.parsePhases content level token).run.run state = (.ok ast, next)) :
    (u.frontEnd.parse content level token).run state = (.ok ast, next) := by
  rw [parsePhases_run] at h
  split at h
  · cases h
  · exact h

theorem modelPhases_ok {parts : Outline × List NameAccess}
    (h : (u.modelPhases content ast token).run.run state = (.ok parts, next)) :
    ∃ mid, (u.frontEnd.buildOutline u.id content ast).run state = (.ok parts.1, mid) ∧
      (u.accessPhase content ast).run mid = (parts.2, next) := by
  rw [modelPhases_run] at h
  split at h
  · cases h
  rcases ho : (u.frontEnd.buildOutline u.id content ast).run state with ⟨fault | outline, mid⟩
  · rw [ho] at h
    cases h
  · rw [ho] at h
    dsimp only at h
    split at h
    · cases h
    rcases ha : (u.accessPhase content ast).run mid with ⟨accesses, last⟩
    rw [ha] at h
    dsimp only at h
    split at h
    · cases h
    · cases h
      exact ⟨mid, rfl, ha⟩

end Phases

def nextAst (u : SourceUnit σ) (content : SourceContent) (level : AstLevel) (ast : Ast) : AstInfo :=
  { serial := u.astCount, stamp := content.stamp, level, ast }

def nextModel (u : SourceUnit σ) (astInfo : AstInfo) (parts : Outline × List NameAccess) :
    ModelInfo :=
  { serial := u.modelCount
    astInfo
    outline := parts.1
    names := .ofList parts.2
    problems := astInfo.ast.problems }

def keepAst (u : SourceUnit σ) (info : AstInfo) : SourceUnit σ :=
  { u with astInfo? := some info, astCount := u.astCount + 1 }

def keepModel (u : SourceUnit σ) (info : ModelInfo) : SourceUnit σ :=
  { u with modelInfo? := some info, modelCount := u.modelCount + 1 }

section Rebuilds

variable (s : Session σ) (content : SourceContent) (level : AstLevel) (token : CancellationToken σ)

theorem rebuildAst_run :
    (rebuildAst content level token).run.run s =
      match (s.unit.parsePhases content level token).run.run s.client with
      | (.ok ast, client) => (.ok (s.unit.nextAst content level ast),
          ⟨s.unit.keepAst (s.unit.nextAst content level ast), client⟩)
      | (.error fault, client) =>
        (.error (s.unit.rebuildFault fault), { s with client := client }) := by
  unfold rebuildAst
  simp only [run_bind, run_self, run_checkPhase, run_attempt, parsePhases_run,
    CancellationToken.check]
  cases token.isCancelled s.client with
  | true => rfl
  | false =>
    simp only [Bool.false_eq_true, if_false]
    rcases (s.unit.frontEnd.parse content level token).run s.client with ⟨fault | ast, client⟩ <;>
      rfl

theorem rebuildModel_run (astInfo : AstInfo) :
    (rebuildModel content astInfo token).run.run s =
      match (s.unit.modelPhases content astInfo.ast token).run.run s.client with
      | (.ok parts, client) => (.ok (s.unit.nextModel astInfo parts),
          ⟨s.unit.keepModel (s.unit.nextModel astInfo parts), client⟩)
      | (.error fault, client) =>
        (.error (s.unit.rebuildFault fault), { s with client := client }) := by
  unfold rebuildModel
  simp only [run_bind, run_self, run_checkPhase, run_attempt, modelPhases_run,
    CancellationToken.check]
  cases token.isCancelled s.client with
  | true => rfl
  | false =>
    simp only [Bool.false_eq_true, if_false]
    rcases (s.unit.frontEnd.buildOutline s.unit.id content astInfo.ast).run s.client with
      ⟨fault | outline, client⟩
    · rfl
    · simp only [mapError_ok]
      cases token.isCancelled client with
      | true => rfl
      | false =>
        by_cases hb : s.unit.options.buildNames = true
        · simp only [Bool.false_eq_true, if_false, accessPhase, if_pos hb, run_bind, run_perform]
          rcases (s.unit.frontEnd.nameAccesses content astInfo.ast).run client with ⟨accesses, last⟩
          simp only [run_checkPhase, CancellationToken.check]
          cases token.isCancelled last <;> rfl
        · have hnone : (s.unit.accessPhase content astInfo.ast).run client = ([], client) := by
            rw [accessPhase, if_neg hb]
            rfl
          simp only [Bool.false_eq_true, if_false, hnone, if_neg hb, run_bind, run_pure,
            run_checkPhase, CancellationToken.check]
          cases token.isCancelled client <;> rfl

end Rebuilds

end SourceUnit

end SourceModel
