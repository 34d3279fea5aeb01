import SourceModel.Proofs.SourceUnit.Requests
import SourceModel.Proofs.SourceUnit.Runs

/-!
# Requests that fail

A request for an up-to-date result fails when a phase reports a fault. What it leaves behind is the
unit as it was, up to a syntax tree of the text that was finished before, so another try gets what a
first one would have got.
-/

namespace SourceModel

variable {σ : Type}

open SourceUnit

/-- A rebuild of a model, with a syntax tree at a level, stops in a phase. Told are the fault that
the phase reports and the session behind it. -/
inductive Session.Stopped (s : Session σ) (content : SourceContent) (level : AstLevel)
    (token : CancellationToken σ) : Fault → Session σ → Prop where
  | parse {fault : Fault} {client : σ} :
      s.unit.astInfo?.filter (·.serves content.stamp level) = none →
      (s.unit.parsePhases content level token).run.run s.client = (.error fault, client) →
      Stopped s content level token fault { s with client := client }
  | kept {info : AstInfo} {fault : Fault} {client : σ} :
      s.unit.astInfo?.filter (·.serves content.stamp level) = some info →
      (s.unit.modelPhases content info.ast token).run.run s.client = (.error fault, client) →
      Stopped s content level token fault { s with client := client }
  | built {ast : Ast} {fault : Fault} {mid client : σ} :
      s.unit.astInfo?.filter (·.serves content.stamp level) = none →
      (s.unit.parsePhases content level token).run.run s.client = (.ok ast, mid) →
      (s.unit.modelPhases content ast token).run.run mid = (.error fault, client) →
      Stopped s content level token fault
        ⟨s.unit.keepAst (s.unit.nextAst content level ast), client⟩

section Stopped

variable {s t : Session σ} {content : SourceContent} {level : AstLevel}
  {token : CancellationToken σ} {fault : Fault}

private theorem getAst_stopped (hc : s.content = .ok content)
    (h : (getAst level true token).run.run s = (.error fault, t)) :
    ∃ reported, fault = s.unit.rebuildFault reported ∧ t.unit = s.unit ∧
      s.unit.astInfo?.filter (·.serves content.stamp level) = none ∧
        (s.unit.parsePhases content level token).run.run s.client =
          (.error reported, t.client) := by
  rw [getAst_run hc, syncAst_run] at h
  cases hk : s.unit.astInfo?.filter (·.serves content.stamp level) with
  | some info =>
    rw [hk] at h
    cases h
  | none =>
    rw [hk, rebuildAst_run] at h
    rcases hr : (s.unit.parsePhases content level token).run.run s.client with
      ⟨reported | ast, client⟩
    · rw [hr] at h
      cases h
      exact ⟨reported, rfl, rfl, rfl, rfl⟩
    · rw [hr] at h
      cases h

private theorem getModel_stopped (hc : s.content = .ok content)
    (h : (getModel level true token).run.run s = (.error fault, t)) :
    s.unit.modelInfo?.filter (·.serves content.stamp level) = none ∧
      ∃ reported, fault = s.unit.rebuildFault reported ∧
        s.Stopped content (max level s.unit.options.astLevel) token reported t := by
  rw [getModel_run hc] at h
  cases hm : s.unit.modelInfo?.filter (·.serves content.stamp level) with
  | some info =>
    rw [hm] at h
    cases h
  | none =>
    refine ⟨rfl, ?_⟩
    rw [hm, syncAst_run] at h
    generalize max level s.unit.options.astLevel = least at h ⊢
    cases hk : s.unit.astInfo?.filter (·.serves content.stamp least) with
    | some info =>
      rw [hk] at h
      dsimp only at h
      rw [rebuildModel_run] at h
      rcases hr : (s.unit.modelPhases content info.ast token).run.run s.client with
        ⟨reported | parts, client⟩
      · rw [hr] at h
        cases h
        exact ⟨reported, rfl, .kept hk hr⟩
      · rw [hr] at h
        cases h
    | none =>
      rw [hk] at h
      dsimp only at h
      rw [rebuildAst_run] at h
      rcases hp : (s.unit.parsePhases content least token).run.run s.client with
        ⟨reported | ast, mid⟩
      · rw [hp] at h
        cases h
        exact ⟨reported, rfl, .parse hk hp⟩
      · rw [hp] at h
        dsimp only at h
        rw [rebuildModel_run] at h
        rcases hr : ((s.unit.keepAst (s.unit.nextAst content least ast)).modelPhases content
          (s.unit.nextAst content least ast).ast token).run.run mid with ⟨reported | parts, client⟩
        · rw [hr] at h
          cases h
          exact ⟨reported, rfl, .built hk hp hr⟩
        · rw [hr] at h
          cases h

end Stopped

/-! ## What is left behind -/

/-- What a request for a level leaves of a session when it fails. -/
structure Session.Spared (s t : Session σ) (content : SourceContent) (level : AstLevel)
    (token : CancellationToken σ) : Prop where
  connections : t.unit.connections = s.unit.connections
  backing : t.unit.backing = s.unit.backing
  document : t.unit.document? = s.unit.document?
  model : t.unit.modelInfo? = s.unit.modelInfo?
  /-- Another syntax tree is complete and would serve the request. -/
  ast : t.unit.astInfo? = s.unit.astInfo? ∨ ∃ info mid, t.unit.astInfo? = some info ∧
    info.serves content.stamp level ∧
      (s.unit.frontEnd.parse content info.level token).run s.client = (.ok info.ast, mid)

section Spared

variable {s t : Session σ} {content : SourceContent} {level : AstLevel}
  {token : CancellationToken σ} {fault : Fault}

theorem nextAst_serves (u : SourceUnit σ) (content : SourceContent) (level : AstLevel) (ast : Ast) :
    (u.nextAst content level ast).serves content.stamp level := by
  simp only [AstInfo.serves, nextAst, beq_self_eq_true, Bool.true_and, satisfies_self]

theorem serves_of_max {info : AstInfo} {stamp : Nat} {least : AstLevel}
    (h : info.serves stamp (max level least)) : info.serves stamp level := by
  simp only [AstInfo.serves, Bool.and_eq_true] at h ⊢
  exact ⟨h.1, satisfies_of_max h.2⟩

private theorem Session.Stopped.spared {least : AstLevel}
    (h : s.Stopped content (max level least) token fault t) : s.Spared t content level token := by
  cases h with
  | parse hk hp => exact ⟨rfl, rfl, rfl, rfl, .inl rfl⟩
  | kept hk hm => exact ⟨rfl, rfl, rfl, rfl, .inl rfl⟩
  | @built ast _ _ _ hk hp hm =>
    have hserves := serves_of_max (nextAst_serves s.unit content (max level least) ast)
    exact ⟨rfl, rfl, rfl, rfl, .inr ⟨_, _, rfl, hserves, parsePhases_ok hp⟩⟩

private theorem getAst_raised (hc : s.content = .ok content)
    (hraised : token.isCancelled s.client) :
    (getAst level true token).run.run s =
      (match s.unit.astInfo?.filter (·.serves content.stamp level) with
        | some info => .ok (some info)
        | none => .error (.cancelled "parse"), s) := by
  rw [getAst_run hc, syncAst_run]
  cases s.unit.astInfo?.filter (·.serves content.stamp level) with
  | some info => rfl
  | none =>
    dsimp only
    rw [rebuildAst_run, parsePhases_run, if_pos hraised]
    rfl

private theorem getModel_raised (hc : s.content = .ok content)
    (hraised : token.isCancelled s.client) :
    (getModel level true token).run.run s =
      (match s.unit.modelInfo?.filter (·.serves content.stamp level) with
        | some info => .ok (some info)
        | none => .error (.cancelled
          (if (s.unit.astInfo?.filter
            (·.serves content.stamp (max level s.unit.options.astLevel))).isSome
          then "structure" else "parse")), s) := by
  rw [getModel_run hc]
  cases s.unit.modelInfo?.filter (·.serves content.stamp level) with
  | some info => rfl
  | none =>
    dsimp only
    rw [syncAst_run]
    generalize max level s.unit.options.astLevel = least
    cases s.unit.astInfo?.filter (·.serves content.stamp least) with
    | some info =>
      dsimp only
      rw [rebuildModel_run, modelPhases_run, if_pos hraised]
      rfl
    | none =>
      dsimp only
      rw [rebuildAst_run, parsePhases_run, if_pos hraised]
      rfl

end Spared

/-! ## Another try -/

/-- A front end answers all that it is asked about a text at a level, as long as the states of its
client are well, and keeps them well. The token stays down. -/
structure FrontEnd.Answers (f : FrontEnd σ) (p : Analysis) (unit : String)
    (content : SourceContent) (level : AstLevel) (token : CancellationToken σ)
    (well : σ → Prop) : Prop where
  live : ∀ state, well state → token.isCancelled state = false
  parse : ∀ state, well state →
    ∃ ast next, (f.parse content level token).run state = (.ok ast, next) ∧ well next
  buildOutline : ∀ built ast state, p.tree content built = .ok ast → well state →
    ∃ outline next, (f.buildOutline unit content ast).run state = (.ok outline, next) ∧ well next
  nameAccesses : ∀ ast state, well state → well ((f.nameAccesses content ast).run state).2

/-- What a unit has computed from a syntax tree besides. -/
structure SourceUnit.Parts (u : SourceUnit σ) (p : Analysis) (content : SourceContent) (ast : Ast)
    (parts : Outline × List NameAccess) : Prop where
  outline : p.outline u.id content ast = .ok parts.1
  names : parts.2 = if u.options.buildNames then p.names content ast else []

/-- The syntax tree that a unit comes up with, where `ast` is what the text gives. -/
def SourceUnit.syncedAst (u : SourceUnit σ) (content : SourceContent) (level : AstLevel)
    (ast : Ast) : AstInfo :=
  (u.astInfo?.filter (·.serves content.stamp level)).getD (u.nextAst content level ast)

def SourceUnit.synced (u : SourceUnit σ) (content : SourceContent) (level : AstLevel) (ast : Ast) :
    SourceUnit σ :=
  match u.astInfo?.filter (·.serves content.stamp level) with
  | some _ => u
  | none => u.keepAst (u.nextAst content level ast)

section Retries

variable {p : Analysis} {u : SourceUnit σ} {content : SourceContent} {level : AstLevel}
  {token : CancellationToken σ} {well : σ → Prop} {state : σ} {ast : Ast}

theorem exists_tree (hp : u.frontEnd.Computes p)
    (ha : u.frontEnd.Answers p u.id content level token well) (hw : well state) :
    ∃ ast, p.tree content level = .ok ast := by
  obtain ⟨ast, next, hr, -⟩ := ha.parse state hw
  exact ⟨ast, hp.parse content level token state ast (congrArg Prod.fst hr)⟩

theorem exists_parts {built : AstLevel} (hp : u.frontEnd.Computes p)
    (ha : u.frontEnd.Answers p u.id content level token well) (hw : well state)
    (hast : p.tree content built = .ok ast) : ∃ parts, u.Parts p content ast parts := by
  obtain ⟨outline, next, hr, -⟩ := ha.buildOutline built ast state hast hw
  have houtline := hp.buildOutline u.id content ast state outline (congrArg Prod.fst hr)
  exact ⟨(outline, if u.options.buildNames then p.names content ast else []), houtline, rfl⟩

private theorem parsePhases_answers (hp : u.frontEnd.Computes p)
    (ha : u.frontEnd.Answers p u.id content level token well) (hw : well state)
    (htree : p.tree content level = .ok ast) :
    ∃ next, (u.parsePhases content level token).run.run state = (.ok ast, next) ∧ well next := by
  obtain ⟨found, next, hr, hnext⟩ := ha.parse state hw
  have hfound := hp.parse content level token state found (congrArg Prod.fst hr)
  rw [htree] at hfound
  cases hfound
  refine ⟨next, ?_, hnext⟩
  rw [parsePhases_run, ha.live state hw]
  exact hr

private theorem modelPhases_answers {built : AstLevel} {parts : Outline × List NameAccess}
    (hp : u.frontEnd.Computes p) (ha : u.frontEnd.Answers p u.id content level token well)
    (hw : well state) (hast : p.tree content built = .ok ast)
    (hparts : u.Parts p content ast parts) :
    ∃ next, (u.modelPhases content ast token).run.run state = (.ok parts, next) := by
  obtain ⟨outline, next, hr, hnext⟩ := ha.buildOutline built ast state hast hw
  have houtline := hp.buildOutline u.id content ast state outline (congrArg Prod.fst hr)
  have hnames := (accessPhase_eq hp content ast next).trans hparts.names.symm
  have hlast : well ((u.accessPhase content ast).run next).2 := by
    unfold accessPhase
    split
    · exact ha.nameAccesses ast next hnext
    · exact hnext
  rw [hparts.outline] at houtline
  cases houtline
  rw [modelPhases_run, ha.live state hw, hr]
  simp only [Bool.false_eq_true, if_false, ha.live next hnext]
  rcases hr : (u.accessPhase content ast).run next with ⟨accesses, last⟩
  rw [hr] at hnames hlast
  have hlive := ha.live last hlast
  dsimp only at hnames ⊢
  rw [hlive, hnames]
  exact ⟨last, rfl⟩

private theorem syncAst_answers (hp : u.frontEnd.Computes p)
    (ha : u.frontEnd.Answers p u.id content level token well) (hw : well state)
    (htree : p.tree content level = .ok ast) :
    ∃ next, (syncAst content level token).run.run ⟨u, state⟩ =
      (.ok (u.syncedAst content level ast), ⟨u.synced content level ast, next⟩) ∧ well next := by
  rw [syncAst_run]
  unfold syncedAst synced
  cases u.astInfo?.filter (·.serves content.stamp level) with
  | some info => exact ⟨state, rfl, hw⟩
  | none =>
    obtain ⟨next, hr, hnext⟩ := parsePhases_answers hp ha hw htree
    refine ⟨next, ?_, hnext⟩
    dsimp only
    rw [rebuildAst_run, hr]
    rfl

private theorem getAst_answers (hp : u.frontEnd.Computes p)
    (ha : u.frontEnd.Answers p u.id content level token well) (hw : well state)
    (htree : p.tree content level = .ok ast) (hc : u.currentContent state = .ok content) :
    ∃ next, (getAst level true token).run.run ⟨u, state⟩ =
      (.ok (some (u.syncedAst content level ast)), ⟨u.synced content level ast, next⟩) := by
  obtain ⟨next, hr, -⟩ := syncAst_answers hp ha hw htree
  rw [getAst_run hc, hr]
  exact ⟨next, rfl⟩

/-- The syntax tree is what the text gives, also if the unit has kept it. -/
theorem tree_syncedAst (hcur : u.Current p content) (htree : p.tree content level = .ok ast) :
    ∃ built, p.tree content built = .ok (u.syncedAst content level ast).ast := by
  unfold syncedAst
  cases hk : u.astInfo?.filter (·.serves content.stamp level) with
  | none => exact ⟨level, htree⟩
  | some info =>
    obtain ⟨hi, hserves⟩ := Option.filter_eq_some_iff.1 hk
    simp only [AstInfo.serves, Bool.and_eq_true, beq_iff_eq] at hserves
    exact ⟨info.level, (hcur.ast info hi hserves.1).ast⟩

private theorem modelPhases_synced (u : SourceUnit σ) (content : SourceContent) (level : AstLevel)
    (ast : Ast) : (u.synced content level ast).modelPhases = u.modelPhases := by
  unfold synced
  split <;> rfl

theorem getModel_answers {least built : AstLevel} {parts : Outline × List NameAccess}
    (hleast : least = max level u.options.astLevel) (hp : u.frontEnd.Computes p)
    (ha : u.frontEnd.Answers p u.id content least token well) (hw : well state)
    (htree : p.tree content least = .ok ast)
    (hbuilt : p.tree content built = .ok (u.syncedAst content least ast).ast)
    (hparts : u.Parts p content (u.syncedAst content least ast).ast parts)
    (hc : u.currentContent state = .ok content)
    (hm : u.modelInfo?.filter (·.serves content.stamp level) = none) :
    ∃ next, (getModel level true token).run.run ⟨u, state⟩ =
      (.ok (some ((u.synced content least ast).nextModel (u.syncedAst content least ast) parts)),
        ⟨(u.synced content least ast).keepModel
          ((u.synced content least ast).nextModel (u.syncedAst content least ast) parts),
            next⟩) := by
  obtain ⟨mid, hr, hmid⟩ := syncAst_answers hp ha hw htree
  obtain ⟨next, hr'⟩ := modelPhases_answers hp ha hmid hbuilt hparts
  rw [getModel_run hc]
  dsimp only
  rw [hm, ← hleast, hr]
  dsimp only
  rw [rebuildModel_run]
  dsimp only
  rw [modelPhases_synced, hr']
  exact ⟨next, rfl⟩

end Retries

section Retry

variable {p : Analysis} {s t : Session σ} {content : SourceContent} {level : AstLevel}
  {token : CancellationToken σ} {fault : Fault} {ast : Ast}

private theorem Session.Stopped.bare (h : s.Stopped content level token fault t) :
    t.unit.bare = s.unit.bare := by
  cases h <;> rfl

/-- The syntax tree that is left behind is the one that another try would build. -/
theorem Session.Stopped.synced (h : s.Stopped content level token fault t)
    (hp : s.unit.frontEnd.Computes p) (htree : p.tree content level = .ok ast) :
    t.unit.syncedAst content level ast = s.unit.syncedAst content level ast ∧
      t.unit.synced content level ast = s.unit.synced content level ast := by
  cases h with
  | parse hk hr => exact ⟨rfl, rfl⟩
  | kept hk hr => exact ⟨rfl, rfl⟩
  | @built found _ mid _ hk hr hr' =>
    have hfound := hp.parse content level token s.client found
    rw [parsePhases_ok hr, htree] at hfound
    cases hfound rfl
    have hserves : (s.unit.keepAst (s.unit.nextAst content level ast)).astInfo?.filter
        (·.serves content.stamp level) = some (s.unit.nextAst content level ast) :=
      Option.filter_eq_some_iff.2 ⟨rfl, nextAst_serves s.unit content level ast⟩
    unfold syncedAst SourceUnit.synced
    rw [hk, hserves]
    exact ⟨rfl, rfl⟩

end Retry

/-! ## Every request -/

/-- A request changes nothing. It gets what is kept if that serves it, otherwise it is cancelled. -/
def Session.Settles {α : Type} (s : Session σ) (kept? : Option α) (serves : α → Bool)
    (run : Except Fault (Option α) × Session σ) : Prop :=
  run.2 = s ∧ ((∃ info, kept? = some info ∧ serves info ∧ run.1 = .ok (some info)) ∨
    ∃ phase, run.1 = .error (.cancelled phase))

/-- How the requests of a session fail. -/
structure Session.FailsSafely (s : Session σ) (content : SourceContent) : Prop where
  getAst : ∀ level token fault t, (getAst level true token).run.run s = (.error fault, t) →
    s.Spared t content level token ∧ ∃ reported,
      (s.unit.parsePhases content level token).run.run s.client = (.error reported, t.client) ∧
        fault = if reported.isCancelled then reported else .syncFailed s.unit.id reported.message
  getModel : ∀ level token fault t, (getModel level true token).run.run s = (.error fault, t) →
    s.Spared t content level token ∧ ∃ reported,
      s.Stopped content (max level s.unit.options.astLevel) token reported t ∧
        fault = if reported.isCancelled then reported else .syncFailed s.unit.id reported.message
  raisedAst : ∀ level token, token.isCancelled s.client →
    s.Settles s.unit.astInfo? (·.serves content.stamp level)
      ((SourceUnit.getAst level true token).run.run s)
  raisedModel : ∀ level token, token.isCancelled s.client →
    s.Settles s.unit.modelInfo? (·.serves content.stamp level)
      ((SourceUnit.getModel level true token).run.run s)

/-- A request that has failed does not show in another try, for which the front end answers while
the text is the same. -/
structure Session.Retries (s : Session σ) (p : Analysis) (content : SourceContent) : Prop where
  getAst : ∀ level token fault t, (getAst level true token).run.run s = (.error fault, t) →
    ∀ live well d e, s.unit.frontEnd.Answers p s.unit.id content level live well →
      well d → well e → t.unit.currentContent d = .ok content →
      s.unit.currentContent e = .ok content →
        ∃ info u d' e',
          (SourceUnit.getAst level true live).run.run ⟨t.unit, d⟩ = (.ok (some info), ⟨u, d'⟩) ∧
            (SourceUnit.getAst level true live).run.run ⟨s.unit, e⟩ = (.ok (some info), ⟨u, e'⟩)
  getModel : ∀ level token fault t, (getModel level true token).run.run s = (.error fault, t) →
    ∀ live well d e, s.unit.frontEnd.Answers p s.unit.id content
        (max level s.unit.options.astLevel) live well →
      well d → well e → t.unit.currentContent d = .ok content →
      s.unit.currentContent e = .ok content →
        ∃ info u d' e',
          (SourceUnit.getModel level true live).run.run ⟨t.unit, d⟩ = (.ok (some info), ⟨u, d'⟩) ∧
            (SourceUnit.getModel level true live).run.run ⟨s.unit, e⟩ = (.ok (some info), ⟨u, e'⟩)

section Requests

variable {p : Analysis} {past : List (PastStep σ)} {start s t : Session σ} {n : Nat}
  {content : SourceContent}

private theorem Session.FailsSafely.of_content (hc : s.content = .ok content) :
    s.FailsSafely content where
  getAst level token fault t h := by
    obtain ⟨reported, hf, hunit, -, hr⟩ := getAst_stopped hc h
    refine ⟨?_, reported, hr, hf⟩
    constructor <;> rw [hunit]
    exact .inl rfl
  getModel level token fault t h := by
    obtain ⟨-, reported, hf, hstopped⟩ := getModel_stopped hc h
    exact ⟨hstopped.spared, reported, hstopped, hf⟩
  raisedAst level token hraised := by
    rw [getAst_raised hc hraised]
    refine ⟨rfl, ?_⟩
    cases hk : s.unit.astInfo?.filter (·.serves content.stamp level) with
    | none => exact .inr ⟨_, rfl⟩
    | some info =>
      obtain ⟨hi, hserves⟩ := Option.filter_eq_some_iff.1 hk
      exact .inl ⟨info, hi, hserves, rfl⟩
  raisedModel level token hraised := by
    rw [getModel_raised hc hraised]
    refine ⟨rfl, ?_⟩
    cases hk : s.unit.modelInfo?.filter (·.serves content.stamp level) with
    | none => exact .inr ⟨_, rfl⟩
    | some info =>
      obtain ⟨hi, hserves⟩ := Option.filter_eq_some_iff.1 hk
      exact .inl ⟨info, hi, hserves, rfl⟩

private theorem Session.Retries.of_current (hp : s.unit.frontEnd.Computes p)
    (hc : s.content = .ok content) (hcur : s.unit.Current p content) : s.Retries p content where
  getAst level token fault t h live well d e ha hd he hcd hce := by
    obtain ⟨reported, -, hunit, -, -⟩ := getAst_stopped hc h
    obtain ⟨ast, htree⟩ := exists_tree hp ha he
    rw [hunit] at hcd ⊢
    obtain ⟨d', hrd⟩ := getAst_answers hp ha hd htree hcd
    obtain ⟨e', hre⟩ := getAst_answers hp ha he htree hce
    exact ⟨_, _, d', e', hrd, hre⟩
  getModel level token fault t h live well d e ha hd he hcd hce := by
    obtain ⟨hm, reported, -, hstopped⟩ := getModel_stopped hc h
    have hmodel := hstopped.spared.model
    generalize hleast : max level s.unit.options.astLevel = least at ha hstopped
    obtain ⟨ast, htree⟩ := exists_tree hp ha he
    obtain ⟨built, hbuilt⟩ := tree_syncedAst hcur htree
    obtain ⟨parts, hparts⟩ := exists_parts hp ha he hbuilt
    obtain ⟨e', hre⟩ := getModel_answers hleast.symm hp ha he htree hbuilt hparts hce hm
    obtain ⟨hsynced, hunit⟩ := hstopped.synced hp htree
    have hid : t.unit.id = s.unit.id := (congrArg SourceUnit.id hstopped.bare :)
    have hfront : t.unit.frontEnd = s.unit.frontEnd :=
      (congrArg SourceUnit.frontEnd hstopped.bare :)
    have hoptions : t.unit.options = s.unit.options :=
      (congrArg SourceUnit.options hstopped.bare :)
    rw [← hfront] at hp
    rw [← hfront, ← hid] at ha
    rw [← hoptions] at hleast
    rw [← hsynced] at hbuilt hre
    have hparts' : t.unit.Parts p content (t.unit.syncedAst content least ast).ast parts := by
      rw [hsynced]
      exact ⟨hid ▸ hparts.outline, hoptions ▸ hparts.names⟩
    have hm' : t.unit.modelInfo?.filter (·.serves content.stamp level) = none := by
      rw [hmodel]
      exact hm
    obtain ⟨d', hrd⟩ := getModel_answers hleast.symm hp ha hd htree hbuilt hparts' hcd hm'
    rw [hunit] at hrd
    exact ⟨_, _, d', e', hrd, hre⟩

private theorem Session.Linked.of_bare (hs : s.Linked) (hbare : t.unit.bare = s.unit.bare)
    (he : s.Edited n t.client) (hidle : s.unit.connections = 0 → t.unit = s.unit) : t.Linked := by
  have hconnections : t.unit.connections = s.unit.connections :=
    (congrArg SourceUnit.connections hbare :)
  refine ⟨fun h0 => ?_, fun h0 => ?_⟩
  · rw [hconnections] at h0
    obtain ⟨before, hb⟩ := hs.exists_content h0
    obtain ⟨after, ha, -⟩ := content_edited hb he
    have hcontent : t.unit.currentContent t.client = s.unit.currentContent t.client :=
      (congrArg (currentContent · t.client) hbare :)
    exact ⟨after, hcontent.trans ha⟩
  · rw [hconnections] at h0
    rw [hidle h0]
    exact hs.idle h0

/-- A unit stays connected only with a text, whatever its front end does. -/
theorem linked_step (hs : s.Linked) (h : Step s n t) : t.Linked := by
  have hview : s.unit.frontEnd.Leaves s.unit.id fun _ => () :=
    ⟨fun _ _ _ _ => rfl, fun _ _ _ => rfl, fun _ _ _ => rfl⟩
  cases h with
  | connect => exact (effect_connect (p := default) hs).linked
  | disconnect => exact (effect_disconnect (p := default) hs).linked
  | setContent text => exact (effect_setContent (p := default) hs text).linked
  | getAst level sync token he =>
    refine hs.of_bare (requested_getAst hview level sync token).bare he fun h0 => ?_
    rw [getAst_idle h0]
  | getModel level sync token he =>
    refine hs.of_bare (requested_getModel hview level sync token).bare he fun h0 => ?_
    rw [getModel_idle h0]
  | act client he => exact hs.of_bare rfl he fun _ => rfl

theorem Run.linked (h : Run start past s) : s.Linked := by
  induction h with
  | fresh hs => exact ⟨fun h0 => absurd hs.connections h0, fun _ => ⟨hs.astInfo, hs.modelInfo⟩⟩
  | step _ hstep ih => exact linked_step ih hstep

/-- A request of a connected unit that fails, in whatever phase and wherever a run has brought the
unit, spares what the unit keeps, up to a syntax tree of the present text that has been built on the
way. Where the front end is pure, another try gives what it gives to a unit that has not failed. -/
theorem Run.failsSafely (h : Run start past s) (hs : s.unit.connections ≠ 0) :
    ∃ content, s.content = .ok content ∧ s.FailsSafely content ∧
      ∀ p, start.unit.frontEnd.Computes p → s.Retries p content := by
  obtain ⟨content, hc⟩ := h.linked.exists_content hs
  refine ⟨content, hc, .of_content hc, fun p hp => ?_⟩
  have hepoch := h.epoch hp
  exact .of_current hepoch.computes hc (hepoch.current hc)

end Requests

/-- Its outlines fail until its client is ready. -/
def slowFrontEnd : FrontEnd Bool where
  modelType := "slow"
  parse _ _ _ := pure (.ok default)
  buildOutline _ _ _ ready := (if ready then .ok default else .error (.parse "not yet"), ready)

def slowAnalysis : Analysis where
  tree _ _ := .ok default
  outline _ _ _ := .ok default
  names _ _ := []

private theorem slowFrontEnd_computes : slowFrontEnd.Computes slowAnalysis where
  parse _ _ _ _ _ h := h
  buildOutline _ _ _ ready _ h := by
    cases ready with
    | false => cases h
    | true => exact h
  nameAccesses _ _ _ := rfl

def slowUnit : SourceUnit Bool :=
  { id := "a", frontEnd := slowFrontEnd, backing := .detached ⟨1, ""⟩ }

def slowOpened : SourceUnit Bool := { slowUnit with connections := 1 }

/-- The unit behind a request that has failed half-way. -/
def slowHalf : SourceUnit Bool := slowOpened.keepAst (slowOpened.nextAst ⟨1, ""⟩ .full default)

private theorem slowFrontEnd_answers (content : SourceContent) (level : AstLevel) :
    slowFrontEnd.Answers slowAnalysis "a" content level ⟨fun _ => false⟩ (· = true) where
  live _ _ := rfl
  parse state hw := ⟨default, state, rfl, hw⟩
  buildOutline _ _ state _ hw := ⟨default, state, by rw [hw]; rfl, hw⟩
  nameAccesses _ _ hw := hw

/-- A model fails behind its syntax tree, which the unit keeps. Once the client is ready, another
try gets the model of a unit that has not failed before. -/
theorem failsSafely_slow : ∃ past content fault,
    Run ⟨slowUnit, false⟩ past ⟨slowOpened, false⟩ ∧ slowOpened.connections ≠ 0 ∧
      Session.FailsSafely ⟨slowOpened, false⟩ content ∧
        (getModel .full true ⟨fun _ => false⟩).run.run ⟨slowOpened, false⟩ =
            (.error fault, ⟨slowHalf, false⟩) ∧
          ∃ model u d e,
            (getModel .full true ⟨fun _ => false⟩).run.run ⟨slowHalf, true⟩ =
                (.ok (some model), ⟨u, d⟩) ∧
              (getModel .full true ⟨fun _ => false⟩).run.run ⟨slowOpened, true⟩ =
                (.ok (some model), ⟨u, e⟩) := by
  have hrun : Run ⟨slowUnit, false⟩ _ ⟨slowOpened, false⟩ :=
    .step (.fresh ⟨rfl, rfl, rfl⟩) (.connect ⟨slowUnit, false⟩)
  have hfails : (getModel .full true ⟨fun _ => false⟩).run.run ⟨slowOpened, false⟩ =
      (.error (.syncFailed "a" "Parse error: not yet"), ⟨slowHalf, false⟩) := rfl
  obtain ⟨content, hc, hsafe, hretries⟩ := hrun.failsSafely Nat.one_ne_zero
  have hretry := hretries slowAnalysis slowFrontEnd_computes
  cases hc
  refine ⟨_, _, _, hrun, Nat.one_ne_zero, hsafe, hfails, ?_⟩
  exact hretry.getModel .full _ _ _ hfails _ _ true true (slowFrontEnd_answers _ _) rfl rfl rfl rfl

end SourceModel
