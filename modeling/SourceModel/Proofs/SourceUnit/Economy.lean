import SourceModel.Proofs.SourceUnit.Failures

/-!
# Economy of rebuilds

Requests share one syntax tree and one model, and a request for a model wants its tree at least at
the level that is set for models. The calls of a front end are followed by a ledger, a part of the
client's state in which the front end notes each of them. In whatever order requests and edits come,
a revision is parsed in full at most once, and before that at most once for the outline; what is
kept of a revision is never replaced by something of a lower level; and a request that is served by
what is kept for it does not call the front end.
-/

namespace SourceModel

variable {σ : Type}

inductive FrontEndCall where
  | parse (stamp : Nat) (level : AstLevel) (done : Bool)
  | outline
  | names
deriving DecidableEq, Repr

/-- A front end notes its calls in a ledger. -/
structure FrontEnd.Notes (f : FrontEnd σ) (ledger : σ → List FrontEndCall) : Prop where
  parse : ∀ content level token state,
    ledger ((f.parse content level token).run state).2 = ledger state ++
      [.parse content.stamp level ((f.parse content level token).run state).1.isOk]
  buildOutline : ∀ unit content ast state,
    ledger ((f.buildOutline unit content ast).run state).2 = ledger state ++ [.outline]
  nameAccesses : ∀ content ast state,
    ledger ((f.nameAccesses content ast).run state).2 = ledger state ++ [.names]

def FrontEnd.noting (f : FrontEnd σ) : FrontEnd (σ × List FrontEndCall) where
  modelType := f.modelType
  parse content level token := fun (state, calls) =>
    let (ast, next) := (f.parse content level ⟨fun now => token.isCancelled (now, calls)⟩).run state
    (ast, next, calls ++ [.parse content.stamp level ast.isOk])
  buildOutline unit content ast := fun (state, calls) =>
    let (outline, next) := (f.buildOutline unit content ast).run state
    (outline, next, calls ++ [.outline])
  nameAccesses content ast := fun (state, calls) =>
    let (accesses, next) := (f.nameAccesses content ast).run state
    (accesses, next, calls ++ [.names])

private theorem FrontEnd.notes_noting (f : FrontEnd σ) : f.noting.Notes Prod.snd where
  parse _ _ _ _ := rfl
  buildOutline _ _ _ _ := rfl
  nameAccesses _ _ _ := rfl

/-- The level of a call that has parsed the revision with a stamp. -/
def FrontEndCall.levelAt? (stamp : Nat) : FrontEndCall → Option AstLevel
  | .parse found level true => if found = stamp then some level else none
  | _ => none

/-- The levels at which a revision has been parsed, in the order of the calls. -/
def levelsAt (stamp : Nat) (calls : List FrontEndCall) : List AstLevel :=
  calls.filterMap (FrontEndCall.levelAt? stamp)

def PastStep.calls (ledger : σ → List FrontEndCall) (c : PastStep σ) : List FrontEndCall :=
  (ledger c.after.client).drop (ledger c.before.client).length

def callsOf (ledger : σ → List FrontEndCall) (past : List (PastStep σ)) : List FrontEndCall :=
  past.reverse.flatMap (PastStep.calls ledger)

open SourceUnit in
def PastStep.IsRequest (c : PastStep σ) : Prop :=
  ∃ level sync token, c.after = ((getAst level sync token).run.run c.before).2 ∨
    c.after = ((getModel level sync token).run.run c.before).2

/-! ## What is kept -/

namespace AstInfo

/-- A tree is of a later revision, or of the same one and of no lower level. -/
def Follows (later earlier : AstInfo) : Prop :=
  earlier.stamp < later.stamp ∨
    earlier.stamp = later.stamp ∧ later.level.satisfies earlier.level = true

def Succeeds (later earlier : Option AstInfo) : Prop :=
  ∀ old, earlier = some old → ∃ new, later = some new ∧ new.Follows old

/-- A tree takes the place of one that does not serve a request for the revision `stamp`. -/
def Replaces (new : AstInfo) (kept : Option AstInfo) (stamp : Nat) : Prop :=
  ∃ level, new.serves stamp level = true ∧ ∀ old, kept = some old → old.serves stamp level = false

section Order

variable {a b c : AstInfo} {x y z : Option AstInfo} {stamp : Nat}

private theorem serves_iff {level : AstLevel} :
    a.serves stamp level = true ↔ a.stamp = stamp ∧ a.level.satisfies level = true := by
  rw [serves, Bool.and_eq_true, beq_iff_eq]

private theorem satisfies_trans {l m n : AstLevel} (h : l.satisfies m = true)
    (h' : m.satisfies n = true) : l.satisfies n = true := by
  revert h h'
  cases l <;> cases m <;> cases n <;> decide

private theorem satisfies_of_not {l m n : AstLevel} (h : l.satisfies m = true)
    (h' : n.satisfies m = false) : l.satisfies n = true := by
  revert h h'
  cases l <;> cases m <;> cases n <;> decide

private theorem Follows.refl (a : AstInfo) : a.Follows a := .inr ⟨rfl, SourceUnit.satisfies_self _⟩

private theorem Follows.trans (h : c.Follows b) (h' : b.Follows a) : c.Follows a := by
  rcases h with h | ⟨h, hc⟩ <;> rcases h' with h' | ⟨h', hb⟩
  · exact .inl (Nat.lt_trans h' h)
  · exact .inl (h' ▸ h)
  · exact .inl (h ▸ h')
  · exact .inr ⟨h'.trans h, satisfies_trans hc hb⟩

private theorem Succeeds.refl (x : Option AstInfo) :
    Succeeds x x := fun old h => ⟨old, h, .refl old⟩

private theorem Succeeds.trans (h : Succeeds z y) (h' : Succeeds y x) : Succeeds z x := by
  intro old hx
  obtain ⟨mid, hy, hmid⟩ := h' old hx
  obtain ⟨new, hz, hnew⟩ := h mid hy
  exact ⟨new, hz, hnew.trans hmid⟩

private theorem Replaces.succeeds (h : b.Replaces x stamp)
    (hx : ∀ old, x = some old → old.stamp ≤ stamp) : Succeeds (some b) x := by
  intro old hold
  obtain ⟨level, hnew, hkept⟩ := h
  obtain ⟨hstamp, hlevel⟩ := serves_iff.1 hnew
  refine ⟨b, rfl, ?_⟩
  rcases Nat.lt_or_eq_of_le (hx old hold) with hlt | heq
  · exact .inl (hstamp ▸ hlt)
  · refine .inr ⟨heq.trans hstamp.symm, satisfies_of_not hlevel ?_⟩
    have hnot := hkept old hold
    rwa [serves, heq, beq_self_eq_true, Bool.true_and] at hnot

end Order

end AstInfo

/-! ## Calls of one request -/

section Requests

variable {ledger : σ → List FrontEndCall} {s t v : Session σ} {content : SourceContent}
  {calls calls' : List FrontEndCall} {stamp : Nat}

private theorem levelsAt_append (stamp : Nat) (calls calls' : List FrontEndCall) :
    levelsAt stamp (calls ++ calls') = levelsAt stamp calls ++ levelsAt stamp calls' :=
  List.filterMap_append

def ParsesNothing (calls : List FrontEndCall) : Prop := ∀ stamp, levelsAt stamp calls = []

def ParsesOnce (found : Nat) (level : AstLevel) (calls : List FrontEndCall) : Prop :=
  ∀ stamp, levelsAt stamp calls = if stamp = found then [level] else []

private theorem ParsesNothing.append (h : ParsesNothing calls) (h' : ParsesNothing calls') :
    ParsesNothing (calls ++ calls') := by
  intro stamp
  rw [levelsAt_append, h, h', List.append_nil]

private theorem ParsesOnce.append {level : AstLevel} (h : ParsesOnce stamp level calls)
    (h' : ParsesNothing calls') : ParsesOnce stamp level (calls ++ calls') := by
  intro other
  rw [levelsAt_append, h, h', List.append_nil]

/-- What a step does to the ledger and to what is kept, where the text has a stamp before: it parses
nothing and keeps the syntax tree, or it parses the text because the tree that is kept does not
serve; and it keeps the model or replaces it by one that serves where the old one does not. -/
structure Session.Turns (ledger : σ → List FrontEndCall) (stamp : Nat)
    (calls : List FrontEndCall) (s t : Session σ) : Prop where
  ledger : ledger t.client = ledger s.client ++ calls
  ast : (t.unit.astInfo? = s.unit.astInfo? ∧ ParsesNothing calls) ∨
    ∃ new, t.unit.astInfo? = some new ∧ new.stamp = stamp ∧ ParsesOnce stamp new.level calls ∧
      ∀ old, s.unit.astInfo? = some old → old.serves stamp new.level = false
  model : t.unit.modelInfo? = s.unit.modelInfo? ∨
    ∃ new, t.unit.modelInfo? = some new ∧
      new.astInfo.Replaces (s.unit.modelInfo?.map ModelInfo.astInfo) stamp

private theorem Session.Turns.refl (ledger : σ → List FrontEndCall) (stamp : Nat) (s : Session σ) :
    s.Turns ledger stamp [] s :=
  ⟨(List.append_nil _).symm, .inl ⟨rfl, fun _ => rfl⟩, .inl rfl⟩

private theorem Session.Turns.of_kept (hledger : ledger t.client = ledger s.client)
    (hast : t.unit.astInfo? = s.unit.astInfo?) (hmodel : t.unit.modelInfo? = s.unit.modelInfo?) :
    s.Turns ledger stamp [] t :=
  ⟨by rw [hledger, List.append_nil], .inl ⟨hast, fun _ => rfl⟩, .inl hmodel⟩

def PhaseM.ParseFree {α : Type} (ledger : σ → List FrontEndCall) (phases : PhaseM σ α) : Prop :=
  ∀ state, ∃ calls, ledger (phases.run.run state).2 = ledger state ++ calls ∧ ParsesNothing calls

private theorem PhaseM.ParseFree.bind {α β : Type} {m : PhaseM σ α} {f : α → PhaseM σ β}
    (hm : m.ParseFree ledger) (hf : ∀ a, (f a).ParseFree ledger) : (m >>= f).ParseFree ledger := by
  intro state
  obtain ⟨calls, hcalls, hnothing⟩ := hm state
  rw [SourceUnit.run_bind]
  rcases hr : m.run.run state with ⟨fault | a, next⟩
  all_goals rw [hr] at hcalls
  · exact ⟨calls, hcalls, hnothing⟩
  · obtain ⟨more, hmore, hnothing'⟩ := hf a next
    exact ⟨calls ++ more, by rw [hmore, hcalls, List.append_assoc], hnothing.append hnothing'⟩

private theorem CancellationToken.parseFree_phase (token : CancellationToken σ) (name : String) :
    (token.phase name).ParseFree ledger :=
  fun _ => ⟨[], (List.append_nil _).symm, fun _ => rfl⟩

namespace SourceUnit

private theorem parseFree_modelPhases {u : SourceUnit σ} (hf : u.frontEnd.Notes ledger)
    (content : SourceContent) (ast : Ast) (token : CancellationToken σ) :
    (u.modelPhases content ast token).ParseFree ledger := by
  have haccess (state : σ) : ∃ calls,
      ledger ((u.accessPhase content ast).run state).2 = ledger state ++ calls ∧
        ParsesNothing calls := by
    unfold accessPhase
    split
    · exact ⟨[.names], hf.nameAccesses content ast state, fun _ => rfl⟩
    · exact ⟨[], (List.append_nil _).symm, fun _ => rfl⟩
  refine (token.parseFree_phase "structure").bind fun _ => ?_
  refine PhaseM.ParseFree.bind (fun state => ?_) fun outline => ?_
  · exact ⟨[.outline], hf.buildOutline u.id content ast state, fun _ => rfl⟩
  refine (token.parseFree_phase "name access").bind fun _ => ?_
  refine PhaseM.ParseFree.bind haccess fun accesses => ?_
  exact (token.parseFree_phase "problems").bind fun _ _ =>
    ⟨[], (List.append_nil _).symm, fun _ => rfl⟩

private theorem ledger_parsePhases {u : SourceUnit σ} (hf : u.frontEnd.Notes ledger)
    (content : SourceContent) (level : AstLevel) (token : CancellationToken σ) (state : σ) :
    ∃ calls, ledger ((u.parsePhases content level token).run.run state).2 = ledger state ++ calls ∧
      match ((u.parsePhases content level token).run.run state).1 with
      | .ok _ => ParsesOnce content.stamp level calls
      | .error _ => ParsesNothing calls := by
  rw [parsePhases_run]
  split
  · exact ⟨[], (List.append_nil _).symm, fun _ => rfl⟩
  · refine ⟨_, hf.parse content level token state, ?_⟩
    rcases (u.frontEnd.parse content level token).run state with ⟨fault | ast, next⟩
    · exact fun _ => rfl
    · intro stamp
      by_cases hstamp : content.stamp = stamp
      · simp [levelsAt, FrontEndCall.levelAt?, Except.isOk, Except.toBool, hstamp]
      · simp [levelsAt, FrontEndCall.levelAt?, Except.isOk, Except.toBool, hstamp, Ne.symm hstamp]

private theorem turns_syncAst (hf : s.unit.frontEnd.Notes ledger) (content : SourceContent)
    (level : AstLevel) (token : CancellationToken σ) :
    ∃ calls, s.Turns ledger content.stamp calls ((syncAst content level token).run.run s).2 ∧
      ((syncAst content level token).run.run s).2.unit.modelInfo? = s.unit.modelInfo? ∧
      ((syncAst content level token).run.run s).2.unit.frontEnd = s.unit.frontEnd ∧
      ∀ info, ((syncAst content level token).run.run s).1 = .ok info →
        info.serves content.stamp level = true := by
  rw [syncAst_run]
  cases hk : s.unit.astInfo?.filter (·.serves content.stamp level) with
  | some kept =>
    refine ⟨[], .refl ledger _ s, rfl, rfl, fun info hinfo => ?_⟩
    cases hinfo
    exact (Option.filter_eq_some_iff.1 hk).2
  | none =>
    obtain ⟨calls, hcalls, hparses⟩ := ledger_parsePhases hf content level token s.client
    have hserved : ∀ old, s.unit.astInfo? = some old → old.serves content.stamp level = false := by
      intro old hold
      rw [hold, Option.filter_some] at hk
      split at hk
      · cases hk
      · exact Bool.eq_false_iff.2 ‹_›
    dsimp only
    rw [rebuildAst_run]
    rcases hr : (s.unit.parsePhases content level token).run.run s.client with
      ⟨fault | ast, client⟩
    all_goals rw [hr] at hcalls hparses
    · refine ⟨calls, ⟨hcalls, .inl ⟨rfl, hparses⟩, .inl rfl⟩, rfl, rfl, fun info hinfo => ?_⟩
      cases hinfo
    · refine ⟨calls, ⟨hcalls, .inr ⟨_, rfl, rfl, hparses, hserved⟩, .inl rfl⟩, rfl, rfl, ?_⟩
      intro info hinfo
      cases hinfo
      exact nextAst_serves s.unit content level ast

private theorem turns_rebuildModel (hf : s.unit.frontEnd.Notes ledger) (content : SourceContent)
    (info : AstInfo) (token : CancellationToken σ)
    (ht : t = ((rebuildModel content info token).run.run s).2) :
    ∃ calls, ledger t.client = ledger s.client ++ calls ∧ ParsesNothing calls ∧
      t.unit.astInfo? = s.unit.astInfo? ∧
      (t.unit.modelInfo? = s.unit.modelInfo? ∨
        ∃ new, t.unit.modelInfo? = some new ∧ new.astInfo = info) := by
  obtain ⟨calls, hcalls, hnothing⟩ := parseFree_modelPhases hf content info.ast token s.client
  rw [rebuildModel_run] at ht
  rcases hr : (s.unit.modelPhases content info.ast token).run.run s.client with
    ⟨fault | parts, client⟩
  all_goals
    rw [hr] at hcalls ht
    subst ht
  · exact ⟨calls, hcalls, hnothing, rfl, .inl rfl⟩
  · exact ⟨calls, hcalls, hnothing, rfl, .inr ⟨_, rfl, rfl⟩⟩

private theorem turns_getAst (hf : s.unit.frontEnd.Notes ledger) (hc : s.content = .ok content)
    (level : AstLevel) (sync : Bool) (token : CancellationToken σ) :
    ∃ calls, s.Turns ledger content.stamp calls ((getAst level sync token).run.run s).2 := by
  cases sync with
  | false =>
    rw [getAst_unsynced]
    exact ⟨[], .refl ..⟩
  | true =>
    rw [getAst_run hc]
    obtain ⟨calls, hturns, -⟩ := turns_syncAst hf content level token
    exact ⟨calls, hturns⟩

private theorem turns_getModel (hf : s.unit.frontEnd.Notes ledger) (hc : s.content = .ok content)
    (level : AstLevel) (sync : Bool) (token : CancellationToken σ) :
    ∃ calls, s.Turns ledger content.stamp calls ((getModel level sync token).run.run s).2 := by
  cases sync with
  | false =>
    rw [getModel_unsynced]
    exact ⟨[], .refl ..⟩
  | true =>
    rw [getModel_run hc]
    cases hm : s.unit.modelInfo?.filter (·.serves content.stamp level) with
    | some kept => exact ⟨[], .refl ..⟩
    | none =>
      have hserved : ∀ old, s.unit.modelInfo?.map ModelInfo.astInfo = some old →
          old.serves content.stamp level = false := by
        intro old hold
        obtain ⟨info, hinfo, rfl⟩ := Option.map_eq_some_iff.1 hold
        rw [hinfo, Option.filter_some] at hm
        split at hm
        · cases hm
        · exact Bool.eq_false_iff.2 ‹_›
      obtain ⟨calls, hturns, hmodel, hfront, hserves⟩ :=
        turns_syncAst hf content (max level s.unit.options.astLevel) token
      dsimp only
      rcases hr : (syncAst content (max level s.unit.options.astLevel) token).run.run s with
        ⟨fault | info, mid⟩
      all_goals
        rw [hr] at hturns hmodel hfront hserves
        dsimp only at hturns hmodel hfront hserves ⊢
      · exact ⟨calls, hturns⟩
      · obtain ⟨more, hmore, hnothing, hast, hnew⟩ :=
          turns_rebuildModel (hfront ▸ hf) content info token rfl
        refine ⟨calls ++ more, ⟨by rw [hmore, hturns.ledger, List.append_assoc], ?_, ?_⟩⟩
        · rw [hast]
          rcases hturns.ast with ⟨hkept, hbefore⟩ | ⟨new, hnew, hstamp, honce, hold⟩
          · exact .inl ⟨hkept, hbefore.append hnothing⟩
          · exact .inr ⟨new, hnew, hstamp, honce.append hnothing, hold⟩
        · rcases hnew with hkept | ⟨new, hnew, rfl⟩
          · exact .inl (hkept.trans hmodel)
          · exact .inr ⟨new, hnew, level, serves_of_max (hserves _ rfl), hserved⟩

end SourceUnit

end Requests

/-! ## Steps -/

section Steps

variable {ledger : σ → List FrontEndCall} {s t : Session σ} {content : SourceContent} {n : Nat}

/-- What every step does, whatever the front end does: the stamp counts the edits, and a unit
without connections does not begin to keep anything. -/
structure Session.Moves (s : Session σ) (n : Nat) (t : Session σ) : Prop where
  frontEnd : t.unit.frontEnd = s.unit.frontEnd
  content : t.unit.connections ≠ 0 → ∀ before, s.content = .ok before →
    ∃ after, t.content = .ok after ∧ after.stamp = before.stamp + n
  idle : s.unit.connections = 0 → t.unit.astInfo? = none ∧ t.unit.modelInfo? = none

private theorem Effect.moves {p : Analysis} (h : Effect p s n t) (hs : s.Linked) : s.Moves n t where
  frontEnd := h.same.frontEnd
  content ht before hb := by
    obtain ⟨after, hafter, hstamp, -⟩ := h.content ht before hb
    exact ⟨after, hafter, hstamp⟩
  idle h0 := h.idle hs (.inl h0)

private theorem Session.Moves.of_bare (hs : s.Linked) (hbare : t.unit.bare = s.unit.bare)
    (he : s.Edited n t.client) (hidle : s.unit.connections = 0 → t.unit = s.unit) :
    s.Moves n t where
  frontEnd := (congrArg SourceUnit.frontEnd hbare :)
  content _ before hb := by
    obtain ⟨after, hafter, hstamp, -⟩ := content_edited hb he
    have hcontent : t.unit.currentContent t.client = s.unit.currentContent t.client :=
      (congrArg (SourceUnit.currentContent · t.client) hbare :)
    exact ⟨after, hcontent.trans hafter, hstamp⟩
  idle h0 := by
    rw [hidle h0]
    exact hs.idle h0

private theorem moves_step (hs : s.Linked) (h : Step s n t) : s.Moves n t := by
  have hview : s.unit.frontEnd.Leaves s.unit.id fun _ => () :=
    ⟨fun _ _ _ _ => rfl, fun _ _ _ => rfl, fun _ _ _ => rfl⟩
  cases h with
  | connect => exact (effect_connect (p := default) hs).moves hs
  | disconnect => exact (effect_disconnect (p := default) hs).moves hs
  | setContent text => exact (effect_setContent (p := default) hs text).moves hs
  | getAst level sync token he =>
    refine .of_bare hs (SourceUnit.requested_getAst hview level sync token).bare he fun h0 => ?_
    rw [SourceUnit.getAst_idle h0]
  | getModel level sync token he =>
    refine .of_bare hs (SourceUnit.requested_getModel hview level sync token).bare he fun h0 => ?_
    rw [SourceUnit.getModel_idle h0]
  | act client he => exact .of_bare hs rfl he fun _ => rfl

private theorem turns_step (hf : s.unit.frontEnd.Notes ledger) (hc : s.content = .ok content)
    (ht : t.unit.connections ≠ 0) (h : Step s n t)
    (honly : PastStep.IsRequest ⟨s, t, n⟩ ∨ ledger t.client = ledger s.client) :
    ∃ calls, s.Turns ledger content.stamp calls t := by
  rcases honly with ⟨level, sync, token, hast | hmodel⟩ | hledger
  · have hast : t = _ := hast
    exact hast ▸ SourceUnit.turns_getAst hf hc level sync token
  · have hmodel : t = _ := hmodel
    exact hmodel ▸ SourceUnit.turns_getModel hf hc level sync token
  · cases h with
    | connect =>
      have hconnects := SourceUnit.connects s
      generalize SourceUnit.connect.run.run s = r at hconnects hledger
      cases hconnects <;> exact ⟨[], .of_kept hledger rfl rfl⟩
    | disconnect =>
      have hdisconnects := SourceUnit.disconnects s
      generalize SourceUnit.disconnect.run.run s = r at hdisconnects hledger ht
      cases hdisconnects with
      | unmatched | counted => exact ⟨[], .of_kept hledger rfl rfl⟩
      | detached | released => exact absurd rfl ht
    | setContent text =>
      rcases SourceUnit.setContent_cases s text with ⟨fault, hr⟩ | ⟨found, -, -, hr⟩
      all_goals
        rw [hr] at hledger ⊢
        exact ⟨[], .of_kept hledger rfl rfl⟩
    | getAst level sync token => exact SourceUnit.turns_getAst hf hc level sync token
    | getModel level sync token => exact SourceUnit.turns_getModel hf hc level sync token
    | act client => exact ⟨[], .of_kept hledger rfl rfl⟩

end Steps

/-! ## Runs -/

section Runs

variable {ledger : σ → List FrontEndCall} {start s t : Session σ} {past : List (PastStep σ)}
  {calls calls' : List FrontEndCall} {stamp n : Nat} {u : SourceUnit σ}

/-- What has been parsed in an epoch, where the text has a stamp now. Of the present revision, what
was parsed last is what is kept. -/
structure Spent (calls : List FrontEndCall) (stamp : Nat) (u : SourceUnit σ) : Prop where
  sublist : ∀ other, (levelsAt other calls).Sublist [.minimal, .full]
  later : ∀ other, stamp < other → levelsAt other calls = []
  last : (levelsAt stamp calls).getLast? =
    (u.astInfo?.filter (·.stamp == stamp)).map AstInfo.level
  ast_le : ∀ info, u.astInfo? = some info → info.stamp ≤ stamp
  model_le : ∀ info, u.modelInfo?.map ModelInfo.astInfo = some info → info.stamp ≤ stamp

private theorem spent_nil (hast : u.astInfo? = none) (hmodel : u.modelInfo? = none) :
    Spent [] stamp u where
  sublist _ := List.nil_sublist _
  later _ _ := rfl
  last := by
    rw [hast]
    rfl
  ast_le info h := by
    rw [hast] at h
    cases h
  model_le info h := by
    rw [hmodel] at h
    cases h

private theorem sublist_snoc {levels : List AstLevel} {level : AstLevel}
    (h : levels.Sublist [.minimal, .full])
    (hlast : ∀ old, levels.getLast? = some old → old.satisfies level = false) :
    (levels ++ [level]).Sublist [.minimal, .full] := by
  rcases levels with _ | ⟨a, _ | ⟨b, rest⟩⟩
  · cases level <;> decide
  · have hnot := hlast a rfl
    revert hnot
    cases a <;> cases level <;> decide
  · have hlength := h.length_le
    have hrest : rest = [] := List.length_eq_zero_iff.1 (by simpa using hlength)
    subst hrest
    cases h.eq_of_length rfl
    have hnot := hlast .full rfl
    cases level <;> cases hnot

private theorem Spent.turn (h : Spent calls stamp s.unit) (ht : s.Turns ledger stamp calls' t) :
    Spent (calls ++ calls') stamp t.unit := by
  have hmodel : ∀ info, t.unit.modelInfo?.map ModelInfo.astInfo = some info →
      info.stamp ≤ stamp := by
    intro info hinfo
    rcases ht.model with hkept | ⟨new, hnew, level, hserves, -⟩
    · exact h.model_le info (hkept ▸ hinfo)
    · rw [hnew] at hinfo
      cases hinfo
      exact Nat.le_of_eq (AstInfo.serves_iff.1 hserves).1
  rcases ht.ast with ⟨hkept, hnothing⟩ | ⟨new, hnew, hstamp, honce, hold⟩
  · have hlevels : ∀ other, levelsAt other (calls ++ calls') = levelsAt other calls := by
      intro other
      rw [levelsAt_append, hnothing, List.append_nil]
    exact
      { sublist := fun other => hlevels other ▸ h.sublist other
        later := fun other hlt => (hlevels other).trans (h.later other hlt)
        last := by rw [hlevels, hkept, h.last]
        ast_le := hkept ▸ h.ast_le
        model_le := hmodel }
  · -- What was parsed last is what is kept, and that does not serve the level of the new tree.
    have hraised : ∀ old, (levelsAt stamp calls).getLast? = some old →
        old.satisfies new.level = false := by
      intro old hlast
      rw [h.last] at hlast
      obtain ⟨info, hinfo, rfl⟩ := Option.map_eq_some_iff.1 hlast
      obtain ⟨hkept, heq⟩ := Option.filter_eq_some_iff.1 hinfo
      have hnot := hold info hkept
      rwa [AstInfo.serves, heq, Bool.true_and] at hnot
    refine ⟨fun other => ?_, fun other hlt => ?_, ?_, fun info hinfo => ?_, hmodel⟩
    · rw [levelsAt_append, honce]
      split
      · rename_i heq
        subst heq
        exact sublist_snoc (h.sublist other) hraised
      · rw [List.append_nil]
        exact h.sublist other
    · rw [levelsAt_append, honce, h.later other hlt, if_neg (Nat.ne_of_gt hlt)]
      rfl
    · rw [levelsAt_append, honce, if_pos rfl, List.getLast?_concat, hnew, Option.filter_some,
        if_pos (by rw [hstamp, beq_self_eq_true])]
      rfl
    · rw [hnew] at hinfo
      cases hinfo
      exact Nat.le_of_eq hstamp

private theorem Spent.edited (h : Spent calls stamp u) (n : Nat) : Spent calls (stamp + n) u := by
  by_cases hn : n = 0
  · rw [hn]
    exact h
  · have hlt : stamp < stamp + n := by omega
    have hnone : u.astInfo?.filter (·.stamp == stamp + n) = none := by
      rw [Option.filter_eq_none_iff]
      intro info hinfo
      have hle := h.ast_le info hinfo
      simp only [beq_iff_eq]
      omega
    exact
      { sublist := h.sublist
        later := fun other hother => h.later other (by omega)
        last := by rw [h.later _ hlt, hnone]; rfl
        ast_le := fun info hinfo => Nat.le_trans (h.ast_le info hinfo) (Nat.le_add_right ..)
        model_le := fun info hinfo => Nat.le_trans (h.model_le info hinfo) (Nat.le_add_right ..) }

private theorem Session.Turns.succeeds (ht : s.Turns ledger stamp calls t)
    (h : Spent calls' stamp s.unit) :
    AstInfo.Succeeds t.unit.astInfo? s.unit.astInfo? ∧
      AstInfo.Succeeds (t.unit.modelInfo?.map ModelInfo.astInfo)
        (s.unit.modelInfo?.map ModelInfo.astInfo) := by
  constructor
  · rcases ht.ast with ⟨hkept, -⟩ | ⟨new, hnew, hstamp, -, hold⟩
    · rw [hkept]
      exact .refl _
    · rw [hnew]
      exact AstInfo.Replaces.succeeds
        ⟨new.level, AstInfo.serves_iff.2 ⟨hstamp, SourceUnit.satisfies_self _⟩, hold⟩ h.ast_le
  · rcases ht.model with hkept | ⟨new, hnew, hreplaces⟩
    · rw [hkept]
      exact .refl _
    · rw [hnew]
      exact hreplaces.succeeds h.model_le

structure Economic (ledger : σ → List FrontEndCall) (past : List (PastStep σ)) (s : Session σ) :
    Prop where
  linked : s.Linked
  notes : s.unit.frontEnd.Notes ledger
  spent : ∀ now, s.content = .ok now → Spent (callsOf ledger past) now.stamp s.unit
  sublist : ∀ stamp, (levelsAt stamp (callsOf ledger past)).Sublist [.minimal, .full]
  gained : ∀ first ∈ past.getLast?,
    ledger s.client = ledger first.before.client ++ callsOf ledger past
  asts : (s :: past.map PastStep.before).Pairwise fun later earlier =>
    AstInfo.Succeeds later.unit.astInfo? earlier.unit.astInfo?
  models : (s :: past.map PastStep.before).Pairwise fun later earlier =>
    AstInfo.Succeeds (later.unit.modelInfo?.map ModelInfo.astInfo)
      (earlier.unit.modelInfo?.map ModelInfo.astInfo)

/-- Whether only the requests of an epoch have called the front end. -/
def OnlyRequests (ledger : σ → List FrontEndCall) (past : List (PastStep σ)) : Prop :=
  ∀ c ∈ past, c.IsRequest ∨ ledger c.after.client = ledger c.before.client

private theorem callsOf_extend (c : PastStep σ) (past : List (PastStep σ)) (n : Nat) :
    callsOf ledger (c :: past.map (PastStep.later n)) =
      callsOf ledger past ++ c.calls ledger := by
  rw [callsOf, List.reverse_cons, List.flatMap_append, ← List.map_reverse, List.flatMap_map,
    List.flatMap_singleton]
  rfl

private theorem economic_nil (hs : s.Linked) (hf : s.unit.frontEnd.Notes ledger)
    (hast : s.unit.astInfo? = none) (hmodel : s.unit.modelInfo? = none) :
    Economic ledger [] s where
  linked := hs
  notes := hf
  spent _ _ := spent_nil hast hmodel
  sublist _ := List.nil_sublist _
  gained _ h := nomatch h
  asts := List.pairwise_singleton ..
  models := List.pairwise_singleton ..

private theorem Economic.extend (he : Economic ledger past s) (hmoves : s.Moves n t) (hl : t.Linked)
    (hturns : ∀ now, s.content = .ok now → ∃ calls, s.Turns ledger now.stamp calls t)
    (hs : s.unit.connections ≠ 0) (ht : t.unit.connections ≠ 0) :
    Economic ledger (⟨s, t, n⟩ :: past.map (PastStep.later n)) t := by
  obtain ⟨now, hnow⟩ := he.linked.exists_content hs
  obtain ⟨after, hafter, hstamp⟩ := hmoves.content ht now hnow
  obtain ⟨calls, hturns⟩ := hturns now hnow
  have hspent := he.spent now hnow
  have hadded : PastStep.calls ledger ⟨s, t, n⟩ = calls := by
    rw [PastStep.calls, hturns.ledger, List.drop_left]
  have hcalls : callsOf ledger (⟨s, t, n⟩ :: past.map (PastStep.later n)) =
      callsOf ledger past ++ calls := hadded ▸ callsOf_extend ⟨s, t, n⟩ past n
  have hnext := hcalls ▸ hspent.turn hturns
  obtain ⟨hast, hmodel⟩ := hturns.succeeds hspent
  have hbefore : (⟨s, t, n⟩ :: past.map (PastStep.later n)).map PastStep.before =
      s :: past.map PastStep.before := by
    rw [List.map_cons, List.map_map]
    rfl
  refine
    { linked := hl
      notes := hmoves.frontEnd ▸ he.notes
      spent := fun now' hnow' => ?_
      sublist := hnext.sublist
      gained := fun first hfirst => ?_
      asts := ?_
      models := ?_ }
  · rw [hafter] at hnow'
    cases hnow'
    rw [hstamp]
    exact hnext.edited n
  · rw [hcalls, hturns.ledger]
    cases hlast : past.getLast? with
    | none =>
      rw [List.getLast?_eq_none_iff] at hlast
      subst hlast
      cases hfirst
      rfl
    | some oldest =>
      rw [List.getLast?_cons, List.getLast?_map, hlast] at hfirst
      cases hfirst
      rw [he.gained oldest hlast, List.append_assoc]
      rfl
  · rw [hbefore]
    refine List.pairwise_cons.2 ⟨fun earlier hearlier => ?_, he.asts⟩
    rcases List.mem_cons.1 hearlier with rfl | hearlier
    · exact hast
    · exact hast.trans ((List.pairwise_cons.1 he.asts).1 earlier hearlier)
  · rw [hbefore]
    refine List.pairwise_cons.2 ⟨fun earlier hearlier => ?_, he.models⟩
    rcases List.mem_cons.1 hearlier with rfl | hearlier
    · exact hmodel
    · exact hmodel.trans ((List.pairwise_cons.1 he.models).1 earlier hearlier)

private theorem Run.frontEnd (h : Run start past s) : s.unit.frontEnd = start.unit.frontEnd := by
  induction h with
  | fresh => rfl
  | step hrun hstep ih => exact (moves_step hrun.linked hstep).frontEnd.trans ih

/-- Every epoch is economic, whatever happened in the epochs before. -/
theorem Run.economic (hf : start.unit.frontEnd.Notes ledger) (h : Run start past s)
    (honly : OnlyRequests ledger past) : Economic ledger past s := by
  induction h with
  | fresh hs =>
    exact economic_nil ⟨fun h0 => absurd hs.connections h0, fun _ => ⟨hs.astInfo, hs.modelInfo⟩⟩
      hf hs.astInfo hs.modelInfo
  | @step past s t n hrun hstep ih =>
    have hmoves := moves_step hrun.linked hstep
    have hlinked := linked_step hrun.linked hstep
    have hnotes : s.unit.frontEnd.Notes ledger := hrun.frontEnd ▸ hf
    unfold epochAfter at honly ⊢
    split
    · -- The epoch ends here, or has not begun: nothing is kept of what was parsed in it.
      rename_i hidle
      obtain ⟨hast, hmodel⟩ : t.unit.astInfo? = none ∧ t.unit.modelInfo? = none :=
        hidle.elim hmoves.idle hlinked.idle
      exact economic_nil hlinked (hmoves.frontEnd ▸ hnotes) hast hmodel
    · rename_i hboth
      rw [if_neg hboth] at honly
      obtain ⟨hs, ht⟩ := not_or.1 hboth
      have hpast : OnlyRequests ledger past := fun c hc =>
        honly (c.later n) (List.mem_cons_of_mem _ (List.mem_map_of_mem hc))
      exact (ih hpast).extend hmoves hlinked
        (fun now hnow => turns_step hnotes hnow ht hstep (honly _ List.mem_cons_self)) hs ht

/-- What the requests of an epoch have cost so far, and what they cost next. A revision has been
parsed at most twice, a second time only in full where the first time was for the outline; all calls
of the front end in the epoch are told. Of two syntax trees that were kept at different times for
one revision, the later one has no lower level, and so for models. A request that is served by what
is kept for it gives just that and changes nothing. -/
structure Session.Thrifty (ledger : σ → List FrontEndCall) (past : List (PastStep σ))
    (s : Session σ) : Prop where
  parses : ∀ stamp, (levelsAt stamp (callsOf ledger past)).Sublist [.minimal, .full]
  told : ∀ first ∈ past.getLast?,
    ledger s.client = ledger first.before.client ++ callsOf ledger past
  asts : (s :: past.map PastStep.before).Pairwise fun later earlier => ∀ old new,
    earlier.unit.astInfo? = some old → later.unit.astInfo? = some new → old.stamp = new.stamp →
      new.level.satisfies old.level = true
  models : (s :: past.map PastStep.before).Pairwise fun later earlier => ∀ old new,
    earlier.unit.modelInfo? = some old → later.unit.modelInfo? = some new → old.stamp = new.stamp →
      new.astInfo.level.satisfies old.astInfo.level = true
  getAst : ∀ content level token info, s.content = .ok content →
    s.unit.astInfo? = some info → info.serves content.stamp level = true →
      (SourceUnit.getAst level true token).run.run s = (.ok (some info), s)
  getModel : ∀ content level token info, s.content = .ok content →
    s.unit.modelInfo? = some info → info.serves content.stamp level = true →
      (SourceUnit.getModel level true token).run.run s = (.ok (some info), s)

private theorem AstInfo.Succeeds.satisfies {later earlier : Option AstInfo} {old new : AstInfo}
    (h : AstInfo.Succeeds later earlier) (hold : earlier = some old) (hnew : later = some new)
    (hstamp : old.stamp = new.stamp) : new.level.satisfies old.level = true := by
  obtain ⟨found, hfound, hfollows⟩ := h old hold
  rw [hnew] at hfound
  cases hfound
  rcases hfollows with hlt | ⟨-, hlevel⟩
  · omega
  · exact hlevel

/-- Whatever a front end computes, the requests of an epoch are thrifty with it. -/
theorem Run.thrifty (hf : start.unit.frontEnd.Notes ledger) (h : Run start past s)
    (honly : OnlyRequests ledger past) : s.Thrifty ledger past := by
  have he := h.economic hf honly
  refine
    { parses := he.sublist
      told := he.gained
      asts := he.asts.imp fun hsucceeds old new => hsucceeds.satisfies
      models := he.models.imp fun hsucceeds old new hold hnew hstamp => ?_
      getAst := fun content level token info hc hkept hserves => ?_
      getModel := fun content level token info hc hkept hserves => ?_ }
  · exact hsucceeds.satisfies (by rw [hold]; rfl) (by rw [hnew]; rfl) hstamp
  · rw [SourceUnit.getAst_run hc, SourceUnit.syncAst_run, hkept, Option.filter_some, if_pos hserves]
    rfl
  · rw [SourceUnit.getModel_run hc, hkept, Option.filter_some, if_pos hserves]

end Runs

/-! ## A run -/

def notedUnit : SourceUnit (Bool × List FrontEndCall) :=
  { id := "a", frontEnd := slowFrontEnd.noting, backing := .detached ⟨1, ""⟩,
    options := { astLevel := .minimal } }

namespace Noted

def opened : Session (Bool × List FrontEndCall) :=
  (SourceUnit.connect.run.run ⟨notedUnit, true, []⟩).2

def modelled : Session (Bool × List FrontEndCall) :=
  ((SourceUnit.getModel .minimal true ⟨fun _ => false⟩).run.run opened).2

def parsed : Session (Bool × List FrontEndCall) :=
  ((SourceUnit.getAst .full true ⟨fun _ => false⟩).run.run modelled).2

def past : List (PastStep (Bool × List FrontEndCall)) :=
  [⟨modelled, parsed, 0⟩, ⟨opened, modelled, 0⟩]

private theorem onlyRequests_past : OnlyRequests Prod.snd past :=
  List.forall_mem_cons.2 ⟨.inl ⟨.full, true, ⟨fun _ => false⟩, .inl rfl⟩,
    List.forall_mem_singleton.2 (.inl ⟨.minimal, true, ⟨fun _ => false⟩, .inr rfl⟩)⟩

end Noted

/-- The text is parsed for the outline when a model is wanted, then in full for a syntax tree; from
then on every request is served. -/
theorem thrifty_noted :
    Run ⟨notedUnit, true, []⟩ Noted.past Noted.parsed ∧
      Noted.parsed.Thrifty Prod.snd Noted.past ∧
      callsOf Prod.snd Noted.past =
        [.parse 1 .minimal true, .outline, .names, .parse 1 .full true] ∧
      ∃ info, (SourceUnit.getAst .minimal true ⟨fun _ => false⟩).run.run Noted.parsed =
        (.ok (some info), Noted.parsed) ∧ info.level = .full := by
  have hopened : Run ⟨notedUnit, true, []⟩ [] Noted.opened :=
    .step (.fresh ⟨rfl, rfl, rfl⟩) (.connect _)
  have hmodelled : Run ⟨notedUnit, true, []⟩ [⟨Noted.opened, Noted.modelled, 0⟩] Noted.modelled :=
    hopened.step (.getModel Noted.opened .minimal true ⟨fun _ => false⟩ rfl)
  have hrun : Run ⟨notedUnit, true, []⟩ Noted.past Noted.parsed :=
    hmodelled.step (.getAst Noted.modelled .full true ⟨fun _ => false⟩ rfl)
  have hthrifty := hrun.thrifty slowFrontEnd.notes_noting Noted.onlyRequests_past
  exact ⟨hrun, hthrifty, rfl, _, hthrifty.getAst ⟨1, ""⟩ .minimal _ _ rfl rfl rfl, rfl⟩

end SourceModel
