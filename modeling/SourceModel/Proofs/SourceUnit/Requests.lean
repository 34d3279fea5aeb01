import SourceModel.Proofs.SourceUnit.Calls

/-!
# What requests leave alone

A request changes nothing but what requests keep. Of the client it changes at most what the front
end does: a view of the client that the front end leaves alone is the same behind a request.
-/

namespace SourceModel

variable {σ τ : Type}

/-- A front end does not change what a client has in view. -/
structure FrontEnd.Leaves (f : FrontEnd σ) (unit : String) (view : σ → τ) : Prop where
  parse : ∀ content level token state,
    view ((f.parse content level token).run state).2 = view state
  buildOutline : ∀ content ast state,
    view ((f.buildOutline unit content ast).run state).2 = view state
  nameAccesses : ∀ content ast state,
    view ((f.nameAccesses content ast).run state).2 = view state

def SourceUnit.bare (u : SourceUnit σ) : SourceUnit σ :=
  { u with astInfo? := none, modelInfo? := none, astCount := 0, modelCount := 0 }

/-- Nothing has changed but what requests keep, and nothing in view. -/
structure Session.Requested (view : σ → τ) (s t : Session σ) : Prop where
  bare : t.unit.bare = s.unit.bare
  view : view t.client = view s.client

section Requests

variable {view : σ → τ} {s t v : Session σ}

theorem Session.Requested.connections (h : s.Requested view t) :
    t.unit.connections = s.unit.connections := (congrArg SourceUnit.connections h.bare :)

theorem Session.Requested.backing (h : s.Requested view t) : t.unit.backing = s.unit.backing :=
  (congrArg SourceUnit.backing h.bare :)

private theorem Session.Requested.refl (s : Session σ) : s.Requested view s := ⟨rfl, rfl⟩

private theorem Session.Requested.trans (h : s.Requested view t) (h' : t.Requested view v) :
    s.Requested view v :=
  ⟨h'.bare.trans h.bare, h'.view.trans h.view⟩

end Requests

namespace SourceUnit

section Requests

variable {view : σ → τ} {s : Session σ}

private theorem leaves_of_bare {u w : SourceUnit σ} (h : u.frontEnd.Leaves u.id view)
    (hw : w.bare = u.bare) : w.frontEnd.Leaves w.id view := by
  have hid : w.id = u.id := (congrArg SourceUnit.id hw :)
  have hfront : w.frontEnd = u.frontEnd := (congrArg SourceUnit.frontEnd hw :)
  rw [hid, hfront]
  exact h

private theorem leaves_parsePhases {u : SourceUnit σ} (h : u.frontEnd.Leaves u.id view)
    (content : SourceContent) (level : AstLevel) (token : CancellationToken σ) :
    (u.parsePhases content level token).Leaves view :=
  (token.leaves_phase "parse").bind fun _ => h.parse content level token

private theorem leaves_modelPhases {u : SourceUnit σ} (h : u.frontEnd.Leaves u.id view)
    (content : SourceContent) (ast : Ast) (token : CancellationToken σ) :
    (u.modelPhases content ast token).Leaves view := by
  have haccess (state : σ) : view ((u.accessPhase content ast).run state).2 = view state := by
    unfold accessPhase
    split
    · exact h.nameAccesses content ast state
    · rfl
  refine (token.leaves_phase "structure").bind fun _ => ?_
  refine PhaseM.Leaves.bind (h.buildOutline content ast) fun outline => ?_
  refine (token.leaves_phase "name access").bind fun _ => ?_
  refine PhaseM.Leaves.bind haccess fun accesses => ?_
  exact (token.leaves_phase "problems").bind fun _ _ => rfl

private theorem requested_rebuildAst (h : s.unit.frontEnd.Leaves s.unit.id view)
    (content : SourceContent) (level : AstLevel) (token : CancellationToken σ) :
    s.Requested view ((rebuildAst content level token).run.run s).2 := by
  have hview := leaves_parsePhases h content level token s.client
  rw [rebuildAst_run]
  rcases hr : (s.unit.parsePhases content level token).run.run s.client with
    ⟨fault | ast, client⟩
  all_goals
    rw [hr] at hview
    exact ⟨rfl, hview⟩

private theorem requested_syncAst (h : s.unit.frontEnd.Leaves s.unit.id view)
    (content : SourceContent) (level : AstLevel) (token : CancellationToken σ) :
    s.Requested view ((syncAst content level token).run.run s).2 := by
  rw [syncAst_run]
  split
  · exact Session.Requested.refl s
  · exact requested_rebuildAst h content level token

private theorem requested_rebuildModel (h : s.unit.frontEnd.Leaves s.unit.id view)
    (content : SourceContent) (astInfo : AstInfo) (token : CancellationToken σ) :
    s.Requested view ((rebuildModel content astInfo token).run.run s).2 := by
  have hview := leaves_modelPhases h content astInfo.ast token s.client
  rw [rebuildModel_run]
  rcases hr : (s.unit.modelPhases content astInfo.ast token).run.run s.client with
    ⟨fault | parts, client⟩
  all_goals
    rw [hr] at hview
    exact ⟨rfl, hview⟩

theorem requested_getAst (h : s.unit.frontEnd.Leaves s.unit.id view)
    (level : AstLevel) (sync : Bool) (token : CancellationToken σ) :
    s.Requested view ((getAst level sync token).run.run s).2 := by
  cases sync with
  | false =>
    rw [getAst_unsynced]
    exact Session.Requested.refl s
  | true =>
    cases hc : s.unit.currentContent s.client with
    | error fault =>
      rw [getAst_error hc]
      exact Session.Requested.refl s
    | ok content =>
      rw [getAst_run hc]
      exact requested_syncAst h content level token

theorem requested_getModel (h : s.unit.frontEnd.Leaves s.unit.id view)
    (level : AstLevel) (sync : Bool) (token : CancellationToken σ) :
    s.Requested view ((getModel level sync token).run.run s).2 := by
  cases sync with
  | false =>
    rw [getModel_unsynced]
    exact Session.Requested.refl s
  | true =>
    cases hc : s.unit.currentContent s.client with
    | error fault =>
      rw [getModel_error hc]
      exact Session.Requested.refl s
    | ok content =>
      rw [getModel_run hc]
      split
      · exact Session.Requested.refl s
      · have hsync := requested_syncAst h content (max level s.unit.options.astLevel) token
        rcases hr : (syncAst content (max level s.unit.options.astLevel) token).run.run s with
          ⟨fault | astInfo, t⟩
        all_goals rw [hr] at hsync
        · exact hsync
        · have hmodel := requested_rebuildModel (leaves_of_bare h hsync.bare) content astInfo token
          exact hsync.trans hmodel

theorem getAst_idle (h : s.unit.connections = 0) (level : AstLevel) (sync : Bool)
    (token : CancellationToken σ) : (getAst level sync token).run.run s = (.ok none, s) := by
  unfold getAst
  rw [run_bind, run_self]
  simp only [if_pos h, run_pure]

theorem getModel_idle (h : s.unit.connections = 0) (level : AstLevel) (sync : Bool)
    (token : CancellationToken σ) : (getModel level sync token).run.run s = (.ok none, s) := by
  unfold getModel
  rw [run_bind, run_self]
  simp only [if_pos h, run_pure]

end Requests

end SourceUnit

end SourceModel
