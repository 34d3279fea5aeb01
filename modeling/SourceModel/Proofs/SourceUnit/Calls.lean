import SourceModel.Proofs.SourceUnit.Phases

/-!
# What the calls of a unit do

A call reads the text once. A request for something that is kept changes nothing; one that builds
keeps what it has built, and one that is refused leaves what was kept, up to a syntax tree that was
already finished.
-/

namespace SourceModel

/-- What a pure front end computes from a text. -/
structure Analysis where
  tree : SourceContent → AstLevel → Except Fault Ast
  outline : String → SourceContent → Ast → Except Fault Outline
  names : SourceContent → Ast → List NameAccess
deriving Inhabited

/-- A front end is pure: whatever it answers, in whatever state of its client, is what the analysis
says. It may refuse to answer, as it does when a rebuild is cancelled. -/
structure FrontEnd.Computes {σ : Type} (f : FrontEnd σ) (p : Analysis) : Prop where
  parse : ∀ content level token state ast,
    ((f.parse content level token).run state).1 = .ok ast → p.tree content level = .ok ast
  buildOutline : ∀ unit content ast state outline,
    ((f.buildOutline unit content ast).run state).1 = .ok outline →
      p.outline unit content ast = .ok outline
  nameAccesses : ∀ content ast state,
    ((f.nameAccesses content ast).run state).1 = p.names content ast

/-- A syntax tree is what a unit that keeps nothing builds from a text at the level of the tree. -/
structure AstInfo.IsOf (info : AstInfo) (p : Analysis) (content : SourceContent) : Prop where
  stamp : info.stamp = content.stamp
  ast : p.tree content info.level = .ok info.ast

/-- A model is what a unit that keeps nothing builds from a text at the level of the model's tree:
everything in it comes from that tree and that text. -/
structure ModelInfo.IsOf {σ : Type} (info : ModelInfo) (p : Analysis) (u : SourceUnit σ)
    (content : SourceContent) : Prop where
  astInfo : info.astInfo.IsOf p content
  outline : p.outline u.id content info.astInfo.ast = .ok info.outline
  names : info.names =
    .ofList (if u.options.buildNames then p.names content info.astInfo.ast else [])
  problems : info.problems = info.astInfo.ast.problems

namespace SourceUnit

variable {σ α : Type}

/-! ## Connections and edits -/

section Connections

variable {s : Session σ}

/-- How a unit takes a connect, with the result and the session behind it. -/
inductive Connects (s : Session σ) : Except Fault Unit × Session σ → Prop where
  | counted : s.unit.connections ≠ 0 →
      Connects s
        (.ok (), { s with unit := { s.unit with connections := s.unit.connections + 1 } })
  | detached {content : SourceContent} : s.unit.connections = 0 →
      s.unit.backing = .detached content →
      Connects s (.ok (), { s with unit := { s.unit with connections := 1 } })
  | acquired {provider : DocumentProvider σ} {document : SharedDocument σ} {client : σ} :
      s.unit.connections = 0 → s.unit.backing = .document provider →
      (provider.acquire s.unit.id).run s.client = (.ok document, client) →
      Connects s (.ok (), ⟨{ s.unit with document? := some document, connections := 1 }, client⟩)
  | refused {provider : DocumentProvider σ} {cause : Fault} {client : σ} :
      s.unit.connections = 0 → s.unit.backing = .document provider →
      (provider.acquire s.unit.id).run s.client = (.error cause, client) →
      Connects s (.error (.syncFailed s.unit.id cause.message), { s with client := client })

theorem connects (s : Session σ) : Connects s (connect.run.run s) := by
  unfold connect
  rw [run_bind, run_self]
  by_cases h : s.unit.connections = 0
  · simp only [if_pos h]
    cases hb : s.unit.backing with
    | detached content =>
      simpa only [run_update, h, hb] using Connects.detached h hb
    | document provider =>
      simp only [run_bind, run_attempt]
      rcases hr : (provider.acquire s.unit.id).run s.client with ⟨cause | document, client⟩
      · exact .refused h hb hr
      · simpa only [mapError_ok, run_update, h, hb] using Connects.acquired h hb hr
  · simp only [if_neg h]
    exact .counted h

/-- How a unit takes a disconnect, with the result and the session behind it. -/
inductive Disconnects (s : Session σ) : Except Fault Unit × Session σ → Prop where
  | unmatched : s.unit.connections = 0 →
      Disconnects s
        (.error (.contract s!"disconnect of '{s.unit.id}' without matching connect"), s)
  | counted : 1 < s.unit.connections →
      Disconnects s
        (.ok (), { s with unit := { s.unit with connections := s.unit.connections - 1 } })
  | detached {content : SourceContent} : s.unit.connections = 1 →
      s.unit.backing = .detached content →
      Disconnects s (.ok (), { s with unit := { s.unit with
        connections := 0
        document? := none
        astInfo? := none
        modelInfo? := none } })
  | released {provider : DocumentProvider σ} :
      s.unit.connections = 1 → s.unit.backing = .document provider →
      Disconnects s (.ok (), ⟨{ s.unit with
          connections := 0
          document? := none
          astInfo? := none
          modelInfo? := none },
        ((provider.release s.unit.id).run s.client).2⟩)

theorem disconnects (s : Session σ) : Disconnects s (disconnect.run.run s) := by
  unfold disconnect
  rw [run_bind, run_self]
  by_cases h0 : s.unit.connections = 0
  · simp only [if_pos h0, run_bind, run_throw]
    exact .unmatched h0
  · simp only [if_neg h0]
    by_cases h1 : s.unit.connections = 1
    · simp only [if_pos h1, run_bind, run_update]
      cases hb : s.unit.backing with
      | detached content =>
        simpa only [hb, run_pure] using Disconnects.detached h1 hb
      | document provider =>
        simpa only [hb, run_perform] using Disconnects.released h1 hb
    · simp only [if_neg h1, run_update]
      exact .counted (by omega)

theorem setContent_cases (s : Session σ) (text : String) :
    (∃ fault, (setContent text).run.run s = (.error fault, s)) ∨
      ∃ content, s.unit.connections ≠ 0 ∧ s.unit.backing = .detached content ∧
        (setContent text).run.run s = (.ok (content.stamp + 1),
          { s with unit := { s.unit with backing := .detached ⟨content.stamp + 1, text⟩ } }) := by
  unfold setContent
  rw [run_bind, run_self]
  by_cases h0 : s.unit.connections = 0
  · left
    simp only [if_pos h0, run_bind, run_throw]
    exact ⟨_, rfl⟩
  · simp only [if_neg h0]
    cases hb : s.unit.backing with
    | document provider => exact .inl ⟨_, run_throw s _⟩
    | detached content => exact .inr ⟨content, h0, rfl, rfl⟩

theorem verifyStamp_eq_ok (s : Session σ) (found : Nat) :
    ((verifyStamp found).run.run s).1 = .ok () ↔
      ∃ content, s.unit.currentContent s.client = .ok content ∧ content.stamp = found := by
  unfold verifyStamp stamp
  simp only [run_bind, run_content]
  cases s.unit.currentContent s.client with
  | error fault => simp
  | ok content =>
    simp only [run_pure, Except.ok.injEq, exists_eq_left']
    by_cases h : content.stamp = found
    · simp only [h, bne_self_eq_false, Bool.false_eq_true, if_false, run_pure]
    · have hne : (content.stamp != found) = true := by simp [h]
      simp only [hne, if_true, run_bind, run_self, run_throw, h, reduceCtorEq]

end Connections

/-! ## Rebuilds -/

theorem accessPhase_eq {u : SourceUnit σ} {p : Analysis} (hp : u.frontEnd.Computes p)
    (content : SourceContent) (ast : Ast) (state : σ) :
    ((u.accessPhase content ast).run state).1 =
      if u.options.buildNames then p.names content ast else [] := by
  unfold accessPhase
  split
  · exact hp.nameAccesses content ast state
  · rfl

section Rebuilds

variable {p : Analysis} {s : Session σ} {content : SourceContent} {level : AstLevel}
  {astInfo : AstInfo}

private theorem rebuildAst_cases (hp : s.unit.frontEnd.Computes p) (content : SourceContent)
    (level : AstLevel) (token : CancellationToken σ) :
    (∃ fault client, (rebuildAst content level token).run.run s =
        (.error fault, { s with client := client })) ∨
      ∃ info client, (rebuildAst content level token).run.run s =
          (.ok info, ⟨s.unit.keepAst info, client⟩) ∧
        info.serial = s.unit.astCount ∧ info.level = level ∧ info.IsOf p content := by
  rw [rebuildAst_run]
  rcases hr : (s.unit.parsePhases content level token).run.run s.client with ⟨fault | ast, client⟩
  · exact .inl ⟨_, client, rfl⟩
  · have hparse := hp.parse content level token s.client ast
    rw [parsePhases_ok hr] at hparse
    exact .inr ⟨_, client, rfl, rfl, rfl, rfl, hparse rfl⟩

theorem syncAst_run (s : Session σ) (content : SourceContent) (level : AstLevel)
    (token : CancellationToken σ) :
    (syncAst content level token).run.run s =
      match s.unit.astInfo?.filter (·.serves content.stamp level) with
      | some info => (.ok info, s)
      | none => (rebuildAst content level token).run.run s := by
  unfold syncAst
  rw [run_bind, run_self]
  dsimp only
  cases s.unit.astInfo?.filter (·.serves content.stamp level) <;> rfl

private theorem syncAst_cases (hp : s.unit.frontEnd.Computes p) (content : SourceContent)
    (level : AstLevel) (token : CancellationToken σ) :
    (∃ info, s.unit.astInfo? = some info ∧ info.serves content.stamp level ∧
        (syncAst content level token).run.run s = (.ok info, s)) ∨
      (∃ fault client, (syncAst content level token).run.run s =
        (.error fault, { s with client := client })) ∨
      ∃ info client, (syncAst content level token).run.run s =
          (.ok info, ⟨s.unit.keepAst info, client⟩) ∧
        info.serial = s.unit.astCount ∧ info.level = level ∧ info.IsOf p content := by
  rw [syncAst_run]
  cases hk : s.unit.astInfo?.filter (·.serves content.stamp level) with
  | none => exact .inr (rebuildAst_cases hp content level token)
  | some info =>
    obtain ⟨hi, hs⟩ := Option.filter_eq_some_iff.1 hk
    exact .inl ⟨info, hi, hs, rfl⟩

private theorem rebuildModel_cases (hp : s.unit.frontEnd.Computes p) (hast : astInfo.IsOf p content)
    (token : CancellationToken σ) :
    (∃ fault client, (rebuildModel content astInfo token).run.run s =
        (.error fault, { s with client := client })) ∨
      ∃ info client, (rebuildModel content astInfo token).run.run s =
          (.ok info, ⟨s.unit.keepModel info, client⟩) ∧
        info.serial = s.unit.modelCount ∧ info.astInfo = astInfo ∧
          info.IsOf p s.unit content := by
  rw [rebuildModel_run]
  rcases hr : (s.unit.modelPhases content astInfo.ast token).run.run s.client with
    ⟨fault | parts, client⟩
  · exact .inl ⟨_, client, rfl⟩
  · obtain ⟨mid, ho, ha⟩ := modelPhases_ok hr
    have houtline := hp.buildOutline s.unit.id content astInfo.ast s.client parts.1
    rw [ho] at houtline
    have hnames := accessPhase_eq hp content astInfo.ast mid
    rw [ha] at hnames
    exact .inr ⟨_, client, rfl, rfl, rfl, hast, houtline rfl, congrArg NameAccessSet.ofList hnames,
      rfl⟩

end Rebuilds

/-! ## Requests -/

/-- What a unit keeps with the stamp of a text is of that text. -/
structure Current (u : SourceUnit σ) (p : Analysis) (content : SourceContent) : Prop where
  ast : ∀ info, u.astInfo? = some info → info.stamp = content.stamp → info.IsOf p content
  model : ∀ info, u.modelInfo? = some info → info.stamp = content.stamp → info.IsOf p u content

/-- A unit differs from another one only in what it keeps: a new syntax tree of a text, or a new
model of it. -/
inductive Renews (p : Analysis) (content : SourceContent) (u : SourceUnit σ) :
    SourceUnit σ → Prop where
  | refl : Renews p content u u
  | ast {info : AstInfo} : info.serial = u.astCount → info.IsOf p content →
      Renews p content u (u.keepAst info)
  | model {v : SourceUnit σ} {info : ModelInfo} : Renews p content u v →
      info.serial = u.modelCount → info.IsOf p u content → Renews p content u (v.keepModel info)

section Requests

variable {p : Analysis} {s : Session σ} {content : SourceContent}

theorem connections_ne_zero (hc : s.unit.currentContent s.client = .ok content) :
    s.unit.connections ≠ 0 := by
  intro h
  rw [currentContent, if_pos h] at hc
  cases hc

theorem satisfies_self (level : AstLevel) : level.satisfies level := by
  cases level <;> rfl

theorem satisfies_of_max {a b c : AstLevel} (h : c.satisfies (max a b)) : c.satisfies a := by
  revert h
  cases a <;> cases b <;> cases c <;> decide

theorem getAst_unsynced (s : Session σ) (level : AstLevel) (token : CancellationToken σ) :
    (getAst level false token).run.run s =
      (.ok (if s.unit.connections = 0 then none
        else s.unit.astInfo?.filter (·.level.satisfies level)), s) := by
  unfold getAst
  rw [run_bind, run_self]
  by_cases h : s.unit.connections = 0 <;> simp [h] <;> rfl

theorem getModel_unsynced (s : Session σ) (level : AstLevel) (token : CancellationToken σ) :
    (getModel level false token).run.run s =
      (.ok (if s.unit.connections = 0 then none
        else s.unit.modelInfo?.filter (·.astInfo.level.satisfies level)), s) := by
  unfold getModel
  rw [run_bind, run_self]
  by_cases h : s.unit.connections = 0 <;> simp [h] <;> rfl

theorem getAst_error {fault : Fault} (hc : s.unit.currentContent s.client = .error fault)
    (level : AstLevel) (token : CancellationToken σ) :
    (getAst level true token).run.run s =
      (if s.unit.connections = 0 then .ok none else .error fault, s) := by
  unfold getAst
  rw [run_bind, run_self]
  by_cases h : s.unit.connections = 0
  · simp only [h, if_true, run_pure]
  · simp only [h, if_false, Bool.not_true, Bool.false_eq_true, run_bind, run_content, hc]

theorem getModel_error {fault : Fault} (hc : s.unit.currentContent s.client = .error fault)
    (level : AstLevel) (token : CancellationToken σ) :
    (getModel level true token).run.run s =
      (if s.unit.connections = 0 then .ok none else .error fault, s) := by
  unfold getModel
  rw [run_bind, run_self]
  by_cases h : s.unit.connections = 0
  · simp only [h, if_true, run_pure]
  · simp only [h, if_false, Bool.not_true, Bool.false_eq_true, run_bind, run_content, hc]

theorem getAst_run (hc : s.unit.currentContent s.client = .ok content) (level : AstLevel)
    (token : CancellationToken σ) :
    (getAst level true token).run.run s =
      (((syncAst content level token).run.run s).1.map some,
        ((syncAst content level token).run.run s).2) := by
  unfold getAst
  rw [run_bind, run_self]
  simp only [connections_ne_zero hc, if_false, Bool.not_true, Bool.false_eq_true, run_bind,
    run_content, hc]
  rcases (syncAst content level token).run.run s with ⟨_ | _, t⟩ <;> rfl

theorem getModel_run (hc : s.unit.currentContent s.client = .ok content) (level : AstLevel)
    (token : CancellationToken σ) :
    (getModel level true token).run.run s =
      match s.unit.modelInfo?.filter (·.serves content.stamp level) with
      | some info => (.ok (some info), s)
      | none =>
        match (syncAst content (max level s.unit.options.astLevel) token).run.run s with
        | (.ok astInfo, t) => (((rebuildModel content astInfo token).run.run t).1.map some,
            ((rebuildModel content astInfo token).run.run t).2)
        | (.error fault, t) => (.error fault, t) := by
  unfold getModel
  rw [run_bind, run_self]
  simp only [connections_ne_zero hc, if_false, Bool.not_true, Bool.false_eq_true]
  rw [run_bind, run_content, hc]
  dsimp only
  cases s.unit.modelInfo?.filter (·.serves content.stamp level) with
  | some info => rfl
  | none =>
    dsimp only
    rw [run_bind]
    rcases (syncAst content (max level s.unit.options.astLevel) token).run.run s with ⟨_ | info, t⟩
    · rfl
    · dsimp only
      rw [run_bind]
      rcases (rebuildModel content info token).run.run t with ⟨_ | _, _⟩ <;> rfl

/-- An up-to-date syntax tree is of the text as it is when the request is made. -/
theorem getAst_synced (hp : s.unit.frontEnd.Computes p)
    (hc : s.unit.currentContent s.client = .ok content) (hcur : s.unit.Current p content)
    (level : AstLevel) (token : CancellationToken σ) :
    Renews p content s.unit ((getAst level true token).run.run s).2.unit ∧
      ∀ info, ((getAst level true token).run.run s).1 = .ok (some info) →
        info.IsOf p content ∧ info.level.satisfies level := by
  rw [getAst_run hc]
  rcases syncAst_cases hp content level token with
    ⟨info, hk, hserves, hr⟩ | ⟨fault, client, hr⟩ | ⟨info, client, hr, hserial, hlevel, his⟩
  · rw [hr]
    refine ⟨.refl, fun info' h => ?_⟩
    cases h
    simp only [AstInfo.serves, Bool.and_eq_true, beq_iff_eq] at hserves
    exact ⟨hcur.ast info hk hserves.1, hserves.2⟩
  · rw [hr]
    exact ⟨.refl, fun info' h => by cases h⟩
  · rw [hr]
    refine ⟨.ast hserial his, fun info' h => ?_⟩
    cases h
    exact ⟨his, hlevel ▸ satisfies_self level⟩

private theorem rebuildModel_spec {t : Session σ} {astInfo : AstInfo}
    (hp : s.unit.frontEnd.Computes p)
    (ht : t.unit = s.unit ∨ ∃ info : AstInfo, info.serial = s.unit.astCount ∧
      info.IsOf p content ∧ t.unit = s.unit.keepAst info)
    (hast : astInfo.IsOf p content) (token : CancellationToken σ) :
    Renews p content s.unit ((rebuildModel content astInfo token).run.run t).2.unit ∧
      ∀ info, ((rebuildModel content astInfo token).run.run t).1 = .ok info →
        info.IsOf p s.unit content ∧ info.astInfo = astInfo := by
  have hfront : t.unit.frontEnd.Computes p := by
    rcases ht with ht | ⟨_, _, _, ht⟩ <;> rw [ht] <;> exact hp
  have hrenews : Renews p content s.unit t.unit := by
    rcases ht with ht | ⟨_, hserial, his, ht⟩ <;> rw [ht]
    · exact .refl
    · exact .ast hserial his
  rcases rebuildModel_cases hfront hast token with
    ⟨fault, client, hr⟩ | ⟨info, client, hr, hserial, hinfo, his⟩
  · rw [hr]
    exact ⟨hrenews, fun info h => by cases h⟩
  · have hs : info.serial = s.unit.modelCount ∧ info.IsOf p s.unit content := by
      rcases ht with ht | ⟨_, _, _, ht⟩ <;> rw [ht] at hserial his
      · exact ⟨hserial, his⟩
      · exact ⟨hserial, ⟨his.astInfo, his.outline, his.names, his.problems⟩⟩
    rw [hr]
    refine ⟨.model hrenews hs.1 hs.2, fun info' h => ?_⟩
    cases h
    exact ⟨hs.2, hinfo⟩

private theorem eq_ok_of_map {r : Except Fault α} {a : α} (h : r.map some = .ok (some a)) :
    r = .ok a := by
  cases r <;> cases h
  rfl

/-- An up-to-date model is of the text as it is when the request is made. -/
theorem getModel_synced (hp : s.unit.frontEnd.Computes p)
    (hc : s.unit.currentContent s.client = .ok content) (hcur : s.unit.Current p content)
    (level : AstLevel) (token : CancellationToken σ) :
    Renews p content s.unit ((getModel level true token).run.run s).2.unit ∧
      ∀ info, ((getModel level true token).run.run s).1 = .ok (some info) →
        info.IsOf p s.unit content ∧ info.astInfo.level.satisfies level := by
  rw [getModel_run hc]
  cases hk : s.unit.modelInfo?.filter (·.serves content.stamp level) with
  | some info =>
    obtain ⟨hi, hserves⟩ := Option.filter_eq_some_iff.1 hk
    refine ⟨.refl, fun info' h => ?_⟩
    cases h
    simp only [ModelInfo.serves, AstInfo.serves, Bool.and_eq_true, beq_iff_eq] at hserves
    exact ⟨hcur.model info hi hserves.1, hserves.2⟩
  | none =>
    rcases syncAst_cases hp content (max level s.unit.options.astLevel) token with
      ⟨info, hi, hserves, hr⟩ | ⟨fault, client, hr⟩ | ⟨info, client, hr, hserial, hlevel, his⟩
    · simp only [AstInfo.serves, Bool.and_eq_true, beq_iff_eq] at hserves
      have hast := hcur.ast info hi hserves.1
      obtain ⟨hrenews, hok⟩ := @rebuildModel_spec _ _ s _ s info hp (.inl rfl) hast token
      rw [hr]
      refine ⟨hrenews, fun info' h => ?_⟩
      obtain ⟨his, hinfo⟩ := hok info' (eq_ok_of_map h)
      exact ⟨his, hinfo ▸ satisfies_of_max hserves.2⟩
    · rw [hr]
      exact ⟨.refl, fun info h => by cases h⟩
    · obtain ⟨hrenews, hok⟩ := @rebuildModel_spec _ _ s _ ⟨s.unit.keepAst info, client⟩ info hp
        (.inr ⟨info, hserial, his, rfl⟩) his token
      have hself : info.level.satisfies (max level s.unit.options.astLevel) := by
        rw [hlevel]
        exact satisfies_self _
      rw [hr]
      refine ⟨hrenews, fun info' h => ?_⟩
      obtain ⟨his', hinfo⟩ := hok info' (eq_ok_of_map h)
      exact ⟨his', hinfo ▸ satisfies_of_max hself⟩

end Requests

end SourceUnit

end SourceModel
