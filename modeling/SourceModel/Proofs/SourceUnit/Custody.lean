import SourceModel.Calc.FrontEnd
import SourceModel.Proofs.SourceUnit.Requests

/-!
# Custody of documents

A unit has a document and keeps results just as long as there are connections. The calls of a
document provider are followed by a ledger, a part of the client's state in which the provider notes
each of them: documents are handed out with the first connection and taken back with the last one,
in turn, however connections are opened and closed and whichever acquisitions fail.
-/

namespace SourceModel

variable {σ : Type}

/-- A call of a document provider. -/
inductive Custody where
  | acquired
  | refused
  | released
deriving DecidableEq, Repr

def Custody.ofResult {α : Type} : Except Fault α → Custody
  | .ok _ => acquired
  | .error _ => refused

/-- Documents are handed out and taken back in turn. The flag tells whether one is out at the end;
only then none is asked for. -/
inductive Custody.InTurn : Bool → List Custody → Prop where
  | none : InTurn false []
  | acquired {calls : List Custody} : InTurn false calls → InTurn true (calls ++ [.acquired])
  | refused {calls : List Custody} : InTurn false calls → InTurn false (calls ++ [.refused])
  | released {calls : List Custody} : InTurn true calls → InTurn false (calls ++ [.released])

/-- The provider of a unit notes its calls in a ledger, and the front end leaves the ledger
alone. -/
structure SourceUnit.Noted (u : SourceUnit σ) (ledger : σ → List Custody) : Prop where
  acquire : ∀ provider, u.backing = .document provider → ∀ state,
    ledger ((provider.acquire u.id).run state).2 =
      ledger state ++ [Custody.ofResult ((provider.acquire u.id).run state).1]
  release : ∀ provider, u.backing = .document provider → ∀ state,
    ledger ((provider.release u.id).run state).2 = ledger state ++ [.released]
  front : u.frontEnd.Leaves u.id ledger

structure Session.Unused (s : Session σ) (ledger : σ → List Custody) : Prop where
  connections : s.unit.connections = 0
  document : s.unit.document? = none
  astInfo : s.unit.astInfo? = none
  modelInfo : s.unit.modelInfo? = none
  ledger : ledger s.client = []

/-- One for a call that has succeeded. -/
def successes {α : Type} (result : Except Fault α) : Nat := result.toOption.elim 0 fun _ => 1

open SourceUnit in
/-- A unit without connections has nothing, and gives nothing but faults or nothing. -/
structure Session.Idle (s : Session σ) : Prop where
  document? : s.unit.document? = none
  astInfo? : s.unit.astInfo? = none
  modelInfo? : s.unit.modelInfo? = none
  getAst : ∀ level sync token, (getAst level sync token).run.run s = (.ok none, s)
  getModel : ∀ level sync token, (getModel level sync token).run.run s = (.ok none, s)
  content : content.run.run s = (.error (.notConnected s.unit.id), s)
  document : document.run.run s = (.error (.notConnected s.unit.id), s)
  stamp : stamp.run.run s = (.error (.notConnected s.unit.id), s)
  setContent : ∀ text, (setContent text).run.run s = (.error (.notConnected s.unit.id), s)
  disconnect : disconnect.run.run s =
    (.error (.contract s!"disconnect of '{s.unit.id}' without matching connect"), s)

open SourceUnit in
/-- A client uses a unit. On the way it opens and closes connections, each of the two successfully
as often as told, by calls of their own or by guards around other calls, which may end in a fault.
Calls that only look at the unit are left out. -/
inductive Uses (ledger : σ → List Custody) : Session σ → Nat → Nat → Session σ → Prop where
  | refl (s : Session σ) : Uses ledger s 0 0 s
  | connect {start s : Session σ} {opened closed : Nat} :
      Uses ledger start opened closed s →
      Uses ledger start (opened + successes (connect.run.run s).1) closed (connect.run.run s).2
  | disconnect {start s : Session σ} {opened closed : Nat} :
      Uses ledger start opened closed s →
      Uses ledger start opened (closed + successes (disconnect.run.run s).1)
        (disconnect.run.run s).2
  | guarded {start s : Session σ} {opened closed opened' closed' : Nat} {α : Type}
      (calls : UnitM σ α) :
      Uses ledger start opened closed s → (connect.run.run s).1 = .ok () →
      Uses ledger (connect.run.run s).2 opened' closed'
        (calls.run.run (connect.run.run s).2).2 →
      Uses ledger start (opened + 1 + opened') (closed + closed' +
          successes (disconnect.run.run (calls.run.run (connect.run.run s).2).2).1)
        ((withConnection calls).run.run s).2
  | unguarded {start s : Session σ} {opened closed : Nat} {α : Type} {fault : Fault}
      (calls : UnitM σ α) :
      Uses ledger start opened closed s → (connect.run.run s).1 = .error fault →
      Uses ledger start opened closed ((withConnection calls).run.run s).2
  | getAst {start s : Session σ} {opened closed : Nat} (level : AstLevel) (sync : Bool)
      (token : CancellationToken σ) :
      Uses ledger start opened closed s →
      Uses ledger start opened closed ((getAst level sync token).run.run s).2
  | getModel {start s : Session σ} {opened closed : Nat} (level : AstLevel) (sync : Bool)
      (token : CancellationToken σ) :
      Uses ledger start opened closed s →
      Uses ledger start opened closed ((getModel level sync token).run.run s).2
  | setContent {start s : Session σ} {opened closed : Nat} (text : String) :
      Uses ledger start opened closed s →
      Uses ledger start opened closed ((setContent text).run.run s).2
  | act {start s : Session σ} {opened closed : Nat} (client : σ) :
      Uses ledger start opened closed s → ledger client = ledger s.client →
      Uses ledger start opened closed { s with client := client }

/-! ## Single calls -/

namespace SourceUnit

section Calls

variable {α : Type}

private theorem run_tryCatch (s : Session σ) (calls : UnitM σ α) (handle : Fault → UnitM σ α) :
    (tryCatch calls handle).run.run s =
      match calls.run.run s with
      | (.ok a, t) => (.ok a, t)
      | (.error fault, t) => (handle fault).run.run t := by
  change (ExceptT.tryCatch calls handle).run.run s = _
  unfold ExceptT.tryCatch
  rw [ExceptT.run_mk, StateT.run_bind]
  change (calls.run.run s >>= _ : Id _) = _
  rcases calls.run.run s with ⟨fault | a, t⟩ <;> rfl

/-- A guard closes the connection that it has opened, also if the calls fail. -/
theorem withConnection_run (s : Session σ) (calls : UnitM σ α) :
    (withConnection calls).run.run s =
      match connect.run.run s with
      | (.error fault, t) => (.error fault, t)
      | (.ok _, t) =>
        ((calls.run.run t).1, (disconnect.run.run (calls.run.run t).2).2) := by
  unfold withConnection
  rw [run_bind]
  rcases connect.run.run s with ⟨fault | _, t⟩
  · rfl
  · dsimp only
    rw [run_bind, run_tryCatch, ← bind_pure_comp, run_bind]
    -- The fault of a failed call is given back only behind the disconnect.
    rcases calls.run.run t with ⟨fault | a, v⟩ <;>
      simp only [run_pure, run_bind, run_tryCatch] <;>
      rcases disconnect.run.run v with ⟨_ | _, w⟩ <;>
      rfl

end Calls

section Noted

variable {ledger : σ → List Custody}

private theorem Noted.congr {u w : SourceUnit σ} (h : u.Noted ledger) (hid : w.id = u.id)
    (hfront : w.frontEnd = u.frontEnd) (hbacking : w.backing = u.backing) : w.Noted ledger := by
  obtain ⟨acquire, release, front⟩ := h
  rw [← hid] at acquire release front
  rw [← hbacking] at acquire release
  rw [← hfront] at front
  exact ⟨acquire, release, front⟩

private theorem Noted.of_bare {u w : SourceUnit σ} (h : u.Noted ledger) (hw : w.bare = u.bare) :
    w.Noted ledger :=
  h.congr (congrArg SourceUnit.id hw :) (congrArg SourceUnit.frontEnd hw :)
    (congrArg SourceUnit.backing hw :)

end Noted

end SourceUnit

/-! ## Whole runs -/

structure Session.Kept (s : Session σ) (ledger : σ → List Custody) : Prop where
  noted : s.unit.Noted ledger
  idle : s.unit.connections = 0 →
    s.unit.document? = none ∧ s.unit.astInfo? = none ∧ s.unit.modelInfo? = none
  detached : s.unit.isDetached → s.unit.document? = none
  held : s.unit.connections ≠ 0 → s.unit.isDetached = false → s.unit.document?.isSome
  inTurn : s.unit.isDetached = false →
    Custody.InTurn (s.unit.connections != 0) (ledger s.client)

section Kept

variable {ledger : σ → List Custody} {s t start : Session σ}

open SourceUnit

private theorem Session.Unused.kept (h : s.Unused ledger) (hn : s.unit.Noted ledger) :
    s.Kept ledger where
  noted := hn
  idle _ := ⟨h.document, h.astInfo, h.modelInfo⟩
  detached _ := h.document
  held hs := absurd h.connections hs
  inTurn _ := by
    rw [h.connections, h.ledger]
    exact .none

private theorem isDetached_eq_false {u : SourceUnit σ} {provider : DocumentProvider σ}
    (h : u.backing = .document provider) : u.isDetached = false := by
  rw [isDetached, h]

private theorem ledger_connect (hn : s.unit.Noted ledger) (hb : s.unit.isDetached = false) :
    ledger (connect.run.run s).2.client = ledger s.client ++
      if s.unit.connections = 0 then [.ofResult (connect.run.run s).1] else [] := by
  have h := connects s
  generalize connect.run.run s = r at h ⊢
  cases h with
  | counted h0 => rw [if_neg h0, List.append_nil]
  | detached h0 hd =>
    rw [isDetached, hd] at hb
    cases hb
  | acquired h0 hp hr | refused h0 hp hr =>
    have hacquire := hn.acquire _ hp s.client
    rw [hr] at hacquire
    rw [if_pos h0]
    exact hacquire

private theorem ledger_disconnect (hn : s.unit.Noted ledger) (hb : s.unit.isDetached = false) :
    ledger (disconnect.run.run s).2.client = ledger s.client ++
      if s.unit.connections = 1 then [.released] else [] := by
  have h := disconnects s
  generalize disconnect.run.run s = r at h ⊢
  cases h with
  | unmatched h0 => rw [if_neg (by omega), List.append_nil]
  | counted h1 => rw [if_neg (by omega), List.append_nil]
  | detached h1 hd =>
    rw [isDetached, hd] at hb
    cases hb
  | released h1 hp =>
    rw [if_pos h1]
    exact hn.release _ hp s.client

private theorem ledger_setContent (s : Session σ) (text : String) :
    ledger ((setContent text).run.run s).2.client = ledger s.client := by
  rcases setContent_cases s text with ⟨fault, hr⟩ | ⟨content, _, _, hr⟩ <;> rw [hr]

private theorem disconnect_ok (hs : s.unit.connections ≠ 0) :
    (disconnect.run.run s).1 = .ok () := by
  have h := disconnects s
  generalize disconnect.run.run s = r at h ⊢
  cases h with
  | unmatched h0 => exact absurd h0 hs
  | counted _ | detached _ _ | released _ _ => rfl

private theorem backing_connect (s : Session σ) :
    (connect.run.run s).2.unit.backing = s.unit.backing := by
  have h := connects s
  generalize connect.run.run s = r at h ⊢
  cases h <;> rfl

private theorem backing_disconnect (s : Session σ) :
    (disconnect.run.run s).2.unit.backing = s.unit.backing := by
  have h := disconnects s
  generalize disconnect.run.run s = r at h ⊢
  cases h <;> rfl

private theorem connect_refused {fault : Fault} (hf : (connect.run.run s).1 = .error fault) :
    s.unit.connections = 0 ∧ (connect.run.run s).2.unit = s.unit ∧
      ∃ provider cause, s.unit.backing = .document provider ∧
        ((provider.acquire s.unit.id).run s.client).1 = .error cause ∧
          fault = .syncFailed s.unit.id cause.message := by
  have h := connects s
  generalize connect.run.run s = r at h hf ⊢
  cases h with
  | counted _ | detached _ _ | acquired _ _ _ => cases hf
  | refused h0 hp hr =>
    cases hf
    exact ⟨h0, rfl, _, _, hp, congrArg Prod.fst hr, rfl⟩

private theorem connections_connect (s : Session σ) :
    (connect.run.run s).2.unit.connections =
      s.unit.connections + successes (connect.run.run s).1 := by
  have h := connects s
  generalize connect.run.run s = r at h ⊢
  cases h with
  | counted h0 | refused h0 hp hr => rfl
  | detached h0 hd | acquired h0 hp hr => rw [h0]; rfl

private theorem connections_disconnect (s : Session σ) :
    (disconnect.run.run s).2.unit.connections + successes (disconnect.run.run s).1 =
      s.unit.connections := by
  have h := disconnects s
  generalize disconnect.run.run s = r at h ⊢
  cases h with
  | unmatched h0 => rfl
  | counted h1 => exact Nat.sub_add_cancel (Nat.le_of_lt h1)
  | detached h1 hd | released h1 hp => exact h1.symm

private theorem Session.Kept.connect (h : s.Kept ledger) : (connect.run.run s).2.Kept ledger := by
  have hledger := @ledger_connect _ ledger s h.noted
  have hc := connects s
  generalize SourceUnit.connect.run.run s = r at hc hledger ⊢
  cases hc with
  | counted h0 =>
    exact
      { noted := h.noted.congr rfl rfl rfl
        idle := fun h' => absurd h' (Nat.succ_ne_zero _)
        detached := h.detached
        held := fun _ => h.held h0
        inTurn := fun hb => by
          have hturn := h.inTurn hb
          rwa [bne_iff_ne.2 h0] at hturn }
  | detached h0 hd =>
    exact
      { noted := h.noted.congr rfl rfl rfl
        idle := fun h' => absurd h' Nat.one_ne_zero
        detached := h.detached
        held := fun _ hb => by
          rw [isDetached, show s.unit.backing = _ from hd] at hb
          cases hb
        inTurn := fun hb => by
          rw [isDetached, show s.unit.backing = _ from hd] at hb
          cases hb }
  | acquired h0 hp hr =>
    have hb := isDetached_eq_false hp
    have hturn := h.inTurn hb
    specialize hledger hb
    rw [h0] at hturn
    rw [if_pos h0] at hledger
    exact
      { noted := h.noted.congr rfl rfl rfl
        idle := fun h' => absurd h' Nat.one_ne_zero
        detached := fun hd => by
          rw [show s.unit.isDetached = true from hd] at hb
          cases hb
        held := fun _ _ => rfl
        inTurn := fun _ => by
          rw [hledger]
          exact .acquired hturn }
  | refused h0 hp hr =>
    have hb := isDetached_eq_false hp
    have hturn := h.inTurn hb
    specialize hledger hb
    rw [h0] at hturn
    rw [if_pos h0] at hledger
    exact
      { noted := h.noted
        idle := h.idle
        detached := h.detached
        held := h.held
        inTurn := fun _ => by
          rw [hledger, h0]
          exact .refused hturn }

private theorem Session.Kept.disconnect (h : s.Kept ledger) :
    (disconnect.run.run s).2.Kept ledger := by
  have hledger := @ledger_disconnect _ ledger s h.noted
  have hd := disconnects s
  generalize SourceUnit.disconnect.run.run s = r at hd hledger ⊢
  cases hd with
  | unmatched h0 => exact h
  | counted h1 =>
    exact
      { noted := h.noted.congr rfl rfl rfl
        idle := fun h' => by
          have h' : s.unit.connections - 1 = 0 := h'
          omega
        detached := h.detached
        held := fun _ => h.held (by omega)
        inTurn := fun hb => by
          have hne : s.unit.connections ≠ 0 := by omega
          have hne' : s.unit.connections - 1 ≠ 0 := by omega
          have hturn := h.inTurn hb
          rw [bne_iff_ne.2 hne] at hturn
          rw [bne_iff_ne.2 hne']
          exact hturn }
  | detached h1 hd =>
    exact
      { noted := h.noted.congr rfl rfl rfl
        idle := fun _ => ⟨rfl, rfl, rfl⟩
        detached := fun _ => rfl
        held := fun h' => absurd rfl h'
        inTurn := fun hb => by
          rw [isDetached, show s.unit.backing = _ from hd] at hb
          cases hb }
  | released h1 hp =>
    have hb := isDetached_eq_false hp
    have hturn := h.inTurn hb
    specialize hledger hb
    rw [h1] at hturn
    rw [if_pos h1] at hledger
    exact
      { noted := h.noted.congr rfl rfl rfl
        idle := fun _ => ⟨rfl, rfl, rfl⟩
        detached := fun _ => rfl
        held := fun h' => absurd rfl h'
        inTurn := fun _ => by
          rw [hledger]
          exact .released hturn }

private theorem Session.Kept.of_requested (h : s.Kept ledger) (ht : s.Requested ledger t)
    (hidle : s.unit.connections = 0 → t = s) : t.Kept ledger := by
  have hdocument : t.unit.document? = s.unit.document? :=
    (congrArg SourceUnit.document? ht.bare :)
  have hdetached : t.unit.isDetached = s.unit.isDetached :=
    (congrArg SourceUnit.isDetached ht.bare :)
  exact
    { noted := h.noted.of_bare ht.bare
      idle := fun h0 => by
        rw [ht.connections] at h0
        rw [hidle h0]
        exact h.idle h0
      detached := by
        rw [hdetached, hdocument]
        exact h.detached
      held := by
        rw [ht.connections, hdetached, hdocument]
        exact h.held
      inTurn := by
        rw [ht.connections, hdetached, ht.view]
        exact h.inTurn }

private theorem Session.Kept.setContent (h : s.Kept ledger) (text : String) :
    ((setContent text).run.run s).2.Kept ledger := by
  rcases setContent_cases s text with ⟨fault, hr⟩ | ⟨content, h0, hb, hr⟩
  · rw [hr]
    exact h
  · have hd : s.unit.isDetached = true := by rw [isDetached, hb]
    rw [hr]
    exact
      { noted :=
          { acquire := fun _ hp => by cases hp
            release := fun _ hp => by cases hp
            front := h.noted.front }
        idle := fun h' => absurd h' h0
        detached := fun _ => h.detached hd
        held := fun _ hb => by cases hb
        inTurn := fun hb => by cases hb }

/-- However a client uses a unit, connections are counted, and every call keeps its part up. -/
theorem Uses.kept {opened closed : Nat} (h : Uses ledger start opened closed s)
    (hs : start.Kept ledger) :
    s.Kept ledger ∧ s.unit.connections + closed = start.unit.connections + opened ∧
      ∀ provider, start.unit.backing = .document provider →
        s.unit.backing = .document provider := by
  induction h with
  | refl => exact ⟨hs, rfl, fun _ hb => hb⟩
  | @connect start s _ _ _ ih =>
    obtain ⟨hk, hcount, hbacking⟩ := ih hs
    have hconnect := connections_connect s
    rw [backing_connect]
    exact ⟨hk.connect, by omega, hbacking⟩
  | @disconnect start s _ _ _ ih =>
    obtain ⟨hk, hcount, hbacking⟩ := ih hs
    have hdisconnect := connections_disconnect s
    rw [backing_disconnect]
    exact ⟨hk.disconnect, by omega, hbacking⟩
  | @guarded start s _ _ _ _ _ calls _ hopen _ ih ihcalls =>
    obtain ⟨hk, hcount, hbacking⟩ := ih hs
    obtain ⟨hk', hcount', hbacking'⟩ := ihcalls hk.connect
    have hconnect := connections_connect s
    rw [backing_connect] at hbacking'
    rw [hopen] at hconnect
    have hone : successes (Except.ok () : Except Fault Unit) = 1 := rfl
    rw [withConnection_run]
    generalize SourceUnit.connect.run.run s = r at hopen hconnect hk' hcount' hbacking' ⊢
    obtain ⟨result, t⟩ := r
    cases hopen
    have hdisconnect := connections_disconnect (calls.run.run t).2
    dsimp only at hcount' hbacking' hconnect ⊢
    rw [backing_disconnect]
    exact ⟨hk'.disconnect, by omega, fun provider hb => hbacking' provider (hbacking provider hb)⟩
  | @unguarded start s _ _ _ _ calls _ hrefused ih =>
    obtain ⟨hk, hcount, hbacking⟩ := ih hs
    have hconnect := hk.connect
    obtain ⟨-, hunit, -⟩ := connect_refused hrefused
    rw [withConnection_run]
    generalize SourceUnit.connect.run.run s = r at hrefused hconnect hunit ⊢
    obtain ⟨result, t⟩ := r
    cases hrefused
    dsimp only at hunit ⊢
    rw [hunit]
    exact ⟨hconnect, hcount, hbacking⟩
  | @getAst start s _ _ level sync token _ ih =>
    obtain ⟨hk, hcount, hbacking⟩ := ih hs
    have ht := requested_getAst hk.noted.front level sync token
    rw [ht.connections, ht.backing]
    exact ⟨hk.of_requested ht fun h0 => by rw [getAst_idle h0], hcount, hbacking⟩
  | @getModel start s _ _ level sync token _ ih =>
    obtain ⟨hk, hcount, hbacking⟩ := ih hs
    have ht := requested_getModel hk.noted.front level sync token
    rw [ht.connections, ht.backing]
    exact ⟨hk.of_requested ht fun h0 => by rw [getModel_idle h0], hcount, hbacking⟩
  | @setContent start s _ _ text _ ih =>
    obtain ⟨hk, hcount, hbacking⟩ := ih hs
    refine ⟨hk.setContent text, ?_⟩
    rcases setContent_cases s text with ⟨fault, hr⟩ | ⟨content, _, hb, hr⟩
    · rw [hr]
      exact ⟨hcount, hbacking⟩
    · rw [hr]
      refine ⟨hcount, fun provider hp => ?_⟩
      rw [hbacking provider hp] at hb
      cases hb
  | @act start s _ _ client _ hclient ih =>
    obtain ⟨hk, hcount, hbacking⟩ := ih hs
    exact ⟨⟨hk.noted, hk.idle, hk.detached, hk.held, fun hb => hclient ▸ hk.inTurn hb⟩, hcount,
      hbacking⟩

end Kept

/-! ## Accounts -/

open SourceUnit in
/-- The accounts of a unit that has opened and closed connections, and what its next call does to
them. -/
structure Session.Accounted (s : Session σ) (start : SourceUnit σ) (ledger : σ → List Custody)
    (opened closed : Nat) : Prop where
  backing : ∀ provider, start.backing = .document provider → s.unit.backing = .document provider
  closed_le : closed ≤ opened
  connections : s.unit.connections = opened - closed
  inTurn : s.unit.isDetached = false →
    Custody.InTurn (s.unit.connections != 0) (ledger s.client)
  acquires : s.unit.isDetached = false →
    ledger (connect.run.run s).2.client = ledger s.client ++
      if s.unit.connections = 0 then [.ofResult (connect.run.run s).1] else []
  releases : s.unit.isDetached = false →
    ledger (disconnect.run.run s).2.client = ledger s.client ++
      if s.unit.connections = 1 then [.released] else []
  /-- Other calls leave the provider alone. -/
  requests : ∀ level sync token text,
    ledger ((getAst level sync token).run.run s).2.client = ledger s.client ∧
      ledger ((getModel level sync token).run.run s).2.client = ledger s.client ∧
        ledger ((setContent text).run.run s).2.client = ledger s.client
  refused : ∀ fault, (connect.run.run s).1 = .error fault →
    s.unit.connections = 0 ∧ (connect.run.run s).2.unit = s.unit ∧
      ∃ provider cause, s.unit.backing = .document provider ∧
        ((provider.acquire s.unit.id).run s.client).1 = .error cause ∧
          fault = .syncFailed s.unit.id cause.message
  closes : s.unit.connections ≠ 0 → (disconnect.run.run s).1 = .ok ()
  held : s.unit.connections ≠ 0 → (s.unit.isDetached = false → s.unit.document?.isSome) ∧
    ∃ text, content.run.run s = (.ok text, s)
  idle : s.unit.connections = 0 → s.Idle

section Accounts

variable {ledger : σ → List Custody} {s start : Session σ}

open SourceUnit

private theorem idle_of_kept (hk : s.Kept ledger) (h : s.unit.connections = 0) : s.Idle where
  document? := (hk.idle h).1
  astInfo? := (hk.idle h).2.1
  modelInfo? := (hk.idle h).2.2
  getAst := getAst_idle h
  getModel := getModel_idle h
  content := by
    rw [run_content, currentContent, if_pos h]
  document := by
    unfold SourceUnit.document
    rw [run_bind, run_self]
    simp only [if_pos h, run_bind, run_throw]
  stamp := by
    unfold SourceUnit.stamp
    rw [run_bind, run_content, currentContent, if_pos h]
  setContent text := by
    unfold SourceUnit.setContent
    rw [run_bind, run_self]
    simp only [if_pos h, run_bind, run_throw]
  disconnect := by
    unfold SourceUnit.disconnect
    rw [run_bind, run_self]
    simp only [if_pos h, run_bind, run_throw]

private theorem exists_content_of_kept (hk : s.Kept ledger) (h : s.unit.connections ≠ 0) :
    ∃ text, SourceUnit.content.run.run s = (.ok text, s) := by
  rw [run_content, currentContent, if_neg h]
  cases hb : s.unit.backing with
  | detached text => exact ⟨text, rfl⟩
  | document provider =>
    obtain ⟨document, hd⟩ := Option.isSome_iff_exists.1 (hk.held h (isDetached_eq_false hb))
    rw [hd]
    exact ⟨document.content s.client, rfl⟩

/-- However a unit is used, by nested guards that are left with an error among others, its
connections are those made and not yet closed, and its provider has been asked for the document at
the first of them and been given it back at the last one, in turn. A connect or disconnect that
fails changes nothing, and without connections the unit keeps nothing and answers nothing. -/
theorem Uses.accounted {opened closed : Nat} (hs : start.Unused ledger)
    (hn : start.unit.Noted ledger) (h : Uses ledger start opened closed s) :
    s.Accounted start.unit ledger opened closed := by
  obtain ⟨hk, hcount, hbacking⟩ := h.kept (hs.kept hn)
  rw [hs.connections] at hcount
  exact
    { backing := hbacking
      closed_le := by omega
      connections := by omega
      inTurn := hk.inTurn
      acquires := ledger_connect hk.noted
      releases := ledger_disconnect hk.noted
      requests := fun level sync token text =>
        ⟨(requested_getAst hk.noted.front level sync token).view,
          (requested_getModel hk.noted.front level sync token).view, ledger_setContent s text⟩
      refused := fun fault => connect_refused
      closes := fun h0 => disconnect_ok h0
      held := fun h0 => ⟨hk.held h0, exists_content_of_kept hk h0⟩
      idle := idle_of_kept hk }

end Accounts

namespace Calc

/-- Its client is the ledger itself. It refuses the first time. -/
def reluctant : DocumentProvider (List Custody) where
  acquire _ := fun calls =>
    if calls = [] then (.error (.io "a.calc" "locked"), [.refused])
    else (.ok ⟨fun _ => { text := "a = 1;" }⟩, calls ++ [.acquired])
  release _ := fun calls => ((), calls ++ [.released])

def reluctantUnit : SourceUnit (List Custody) :=
  { id := "a.calc", frontEnd, backing := .document reluctant }

private theorem reluctantUnit_noted : reluctantUnit.Noted id where
  acquire provider hp state := by
    cases hp
    change (reluctant.acquire _ state).2 = state ++ [.ofResult (reluctant.acquire _ state).1]
    unfold reluctant
    by_cases h : state = []
    · simp only [if_pos h]
      rw [h]
      rfl
    · simp only [if_neg h]
      rfl
  release provider hp state := by
    cases hp
    rfl
  front := ⟨fun _ _ _ _ => rfl, fun _ _ _ => rfl, fun _ _ _ => rfl⟩

def leave : UnitM (List Custody) Unit := do
  SourceUnit.connect
  throw (.parse "bail out")

theorem accounted_reluctant : ∃ s : Session (List Custody),
    Session.Unused ⟨reluctantUnit, []⟩ id ∧ reluctantUnit.Noted id ∧
      Uses id ⟨reluctantUnit, []⟩ 2 2 s ∧ s.Accounted reluctantUnit id 2 2 ∧
        s.client = [.refused, .acquired, .released] := by
  have hs : Session.Unused ⟨reluctantUnit, []⟩ id := ⟨rfl, rfl, rfl, rfl, rfl⟩
  have hstart : Uses id ⟨reluctantUnit, []⟩ 0 0 ⟨reluctantUnit, []⟩ := .refl _
  have hrefused := hstart.unguarded leave rfl
  have hguarded := hrefused.guarded leave rfl (.connect (.refl _))
  have huses := hguarded.disconnect
  exact ⟨_, hs, reluctantUnit_noted, huses, huses.accounted hs reluctantUnit_noted, rfl⟩

end Calc

end SourceModel
