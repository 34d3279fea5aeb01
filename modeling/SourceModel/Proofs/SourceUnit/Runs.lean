import SourceModel.Proofs.Document.Revisions
import SourceModel.Proofs.SourceUnit.Calls

/-!
# Runs of a unit

A run is any sequence of calls and of what clients do in between. The document of a unit changes
only by edits, also while a call is under way. An epoch reaches from the first connection to the
last; a run tells the steps of the epoch so far, each with the number of edits accepted since.
-/

namespace SourceModel

variable {σ : Type}

def Session.content (s : Session σ) : Except Fault SourceContent :=
  s.unit.currentContent s.client

/-- The client has come to another state, and with it the shared document, if there is one, has
changed by `n` accepted edits. -/
def Session.Edited (s : Session σ) (n : Nat) (client : σ) : Prop :=
  match s.unit.backing, s.unit.document? with
  | .document _, some document => (document.read s.client).Evolves n (document.read client)
  | _, _ => n = 0

structure Session.Fresh (s : Session σ) : Prop where
  connections : s.unit.connections = 0
  astInfo : s.unit.astInfo? = none
  modelInfo : s.unit.modelInfo? = none

open SourceUnit in
/-- A call leads from one session to another, or a client acts. In between `n` edits of the unit's
text have been accepted. -/
inductive Step : Session σ → Nat → Session σ → Prop where
  | connect (s : Session σ) : Step s 0 (connect.run.run s).2
  | disconnect (s : Session σ) : Step s 0 (disconnect.run.run s).2
  | setContent (s : Session σ) (text : String) :
      Step s (((setContent text).run.run s).1.toOption.elim 0 fun _ => 1)
        ((setContent text).run.run s).2
  | getAst (s : Session σ) (level : AstLevel) (sync : Bool) (token : CancellationToken σ)
      {n : Nat} :
      s.Edited n ((getAst level sync token).run.run s).2.client →
      Step s n ((getAst level sync token).run.run s).2
  | getModel (s : Session σ) (level : AstLevel) (sync : Bool) (token : CancellationToken σ)
      {n : Nat} :
      s.Edited n ((getModel level sync token).run.run s).2.client →
      Step s n ((getModel level sync token).run.run s).2
  | act (s : Session σ) (client : σ) {n : Nat} :
      s.Edited n client → Step s n { s with client := client }

/-- A step that has been made, and how many edits have been accepted since it began. -/
structure PastStep (σ : Type) where
  before : Session σ
  after : Session σ
  edits : Nat

def PastStep.later (n : Nat) (c : PastStep σ) : PastStep σ := { c with edits := c.edits + n }

/-- The steps of an epoch once one more has been made. An epoch begins with the first connection and
ends with the last one. -/
def epochAfter (past : List (PastStep σ)) (s : Session σ) (n : Nat) (t : Session σ) :
    List (PastStep σ) :=
  if s.unit.connections = 0 ∨ t.unit.connections = 0 then []
  else ⟨s, t, n⟩ :: past.map (PastStep.later n)

/-- A run leads from a fresh session to another one; `past` are the steps of the epoch so far. -/
inductive Run (start : Session σ) : List (PastStep σ) → Session σ → Prop where
  | fresh : start.Fresh → Run start [] start
  | step {past : List (PastStep σ)} {s t : Session σ} {n : Nat} :
      Run start past s → Step s n t → Run start (epochAfter past s n t) t

/-! ## Effects of a step -/

structure SourceUnit.Same (u v : SourceUnit σ) : Prop where
  id : v.id = u.id
  frontEnd : v.frontEnd = u.frontEnd
  options : v.options = u.options

/-- The unit of a session is connected only with a text, and keeps nothing without a connection. -/
structure Session.Linked (s : Session σ) : Prop where
  exists_content : s.unit.connections ≠ 0 → ∃ content, s.content = .ok content
  idle : s.unit.connections = 0 → s.unit.astInfo? = none ∧ s.unit.modelInfo? = none

/-- What a step does: it tells the accepted edits apart by the stamp, and whatever is kept behind it
was kept before or has been built from the text that was there before. -/
structure Effect (p : Analysis) (s : Session σ) (n : Nat) (t : Session σ) : Prop where
  same : s.unit.Same t.unit
  linked : t.Linked
  content : t.unit.connections ≠ 0 → ∀ before, s.content = .ok before →
    ∃ after, t.content = .ok after ∧ after.stamp = before.stamp + n ∧ (n = 0 → after = before)
  ast : ∀ info, t.unit.astInfo? = some info → s.unit.astInfo? = some info ∨
    ∃ content, s.content = .ok content ∧ info.IsOf p content ∧ info.serial = s.unit.astCount
  model : ∀ info, t.unit.modelInfo? = some info → s.unit.modelInfo? = some info ∨
    ∃ content, s.content = .ok content ∧ info.IsOf p s.unit content ∧
      info.serial = s.unit.modelCount

section Effects

variable {p : Analysis} {s t : Session σ} {n : Nat}

private theorem SourceUnit.Same.refl (u : SourceUnit σ) : u.Same u := ⟨rfl, rfl, rfl⟩

private theorem SourceUnit.Same.trans {u v w : SourceUnit σ} (h : u.Same v) (h' : v.Same w) :
    u.Same w :=
  ⟨h'.id.trans h.id, h'.frontEnd.trans h.frontEnd, h'.options.trans h.options⟩

/-- The stamp counts the edits of the document, and without any the text is as it was. -/
theorem content_edited {client : σ} {before : SourceContent} (hc : s.content = .ok before)
    (he : s.Edited n client) :
    ∃ after, s.unit.currentContent client = .ok after ∧ after.stamp = before.stamp + n ∧
      (n = 0 → after = before) := by
  have hconnected := SourceUnit.connections_ne_zero hc
  unfold Session.content SourceUnit.currentContent at hc
  unfold Session.Edited at he
  unfold SourceUnit.currentContent
  rw [if_neg hconnected] at hc ⊢
  cases hb : s.unit.backing with
  | detached content =>
    simp only [hb] at hc he ⊢
    cases hc
    exact ⟨before, rfl, by omega, fun _ => rfl⟩
  | document provider =>
    cases hd : s.unit.document? with
    | none =>
      simp only [hb, hd] at hc
      cases hc
    | some document =>
      simp only [hb, hd] at hc he ⊢
      cases hc
      refine ⟨_, rfl, he.stamp_eq, fun hn => ?_⟩
      have hstamp := he.stamp_eq
      rw [hn, Nat.add_zero] at hstamp
      rw [SharedDocument.content, SharedDocument.content, hstamp, he.text_eq hn]

structure Renewed (p : Analysis) (content : SourceContent) (u v : SourceUnit σ) : Prop where
  same : u.Same v
  connections : v.connections = u.connections
  currentContent : ∀ state, v.currentContent state = u.currentContent state
  ast : ∀ info, v.astInfo? = some info → u.astInfo? = some info ∨
    info.IsOf p content ∧ info.serial = u.astCount
  model : ∀ info, v.modelInfo? = some info → u.modelInfo? = some info ∨
    info.IsOf p u content ∧ info.serial = u.modelCount

private theorem SourceUnit.Renews.renewed {content : SourceContent} {u v : SourceUnit σ}
    (h : u.Renews p content v) : Renewed p content u v := by
  induction h with
  | refl => exact ⟨.refl u, rfl, fun _ => rfl, fun _ h => .inl h, fun _ h => .inl h⟩
  | ast hserial his =>
    refine ⟨⟨rfl, rfl, rfl⟩, rfl, fun _ => rfl, fun info h => ?_, fun _ h => .inl h⟩
    cases h
    exact .inr ⟨his, hserial⟩
  | model _ hserial his ih =>
    refine ⟨⟨ih.same.id, ih.same.frontEnd, ih.same.options⟩, ih.connections, ih.currentContent,
      ih.ast, fun info h => ?_⟩
    cases h
    exact .inr ⟨his, hserial⟩

private theorem effect_request {t : Session σ} (hs : s.Linked) (he : s.Edited n t.client)
    (hr : t.unit = s.unit ∨ ∃ content, s.content = .ok content ∧ s.unit.Renews p content t.unit) :
    Effect p s n t := by
  obtain ⟨unit, client⟩ := t
  rcases hr with rfl | ⟨content, hc, hr⟩
  · exact
      { same := .refl s.unit
        linked := ⟨fun h => by
          obtain ⟨before, hb⟩ := hs.exists_content h
          obtain ⟨after, ha, -⟩ := content_edited hb he
          exact ⟨after, ha⟩, hs.idle⟩
        content := fun _ before hb => content_edited (s := s) hb he
        ast := fun info h => .inl h
        model := fun info h => .inl h }
  · have hv := hr.renewed
    obtain ⟨after, ha, hstamp, heq⟩ := content_edited hc he
    have hafter : Session.content ⟨unit, client⟩ = .ok after := (hv.currentContent client).trans ha
    have hconnected : unit.connections ≠ 0 := by
      rw [hv.connections]
      exact SourceUnit.connections_ne_zero hc
    exact
      { same := hv.same
        linked := ⟨fun _ => ⟨after, hafter⟩, fun h => absurd h hconnected⟩
        content := fun _ before hb => by
          rw [hc] at hb
          cases hb
          exact ⟨after, hafter, hstamp, heq⟩
        ast := fun info h => (hv.ast info h).imp_right fun h' => ⟨content, hc, h'⟩
        model := fun info h => (hv.model info h).imp_right fun h' => ⟨content, hc, h'⟩ }

private theorem renews_getAst (hp : s.unit.frontEnd.Computes p)
    (hcur : ∀ content, s.content = .ok content → s.unit.Current p content) (level : AstLevel)
    (sync : Bool) (token : CancellationToken σ) :
    ((SourceUnit.getAst level sync token).run.run s).2.unit = s.unit ∨
      ∃ content, s.content = .ok content ∧
        s.unit.Renews p content ((SourceUnit.getAst level sync token).run.run s).2.unit := by
  cases sync with
  | false =>
    rw [SourceUnit.getAst_unsynced]
    exact .inl rfl
  | true =>
    cases hc : s.content with
    | ok content =>
      exact .inr ⟨content, rfl, (SourceUnit.getAst_synced hp hc (hcur content hc) level token).1⟩
    | error fault =>
      rw [SourceUnit.getAst_error hc]
      exact .inl rfl

private theorem renews_getModel (hp : s.unit.frontEnd.Computes p)
    (hcur : ∀ content, s.content = .ok content → s.unit.Current p content) (level : AstLevel)
    (sync : Bool) (token : CancellationToken σ) :
    ((SourceUnit.getModel level sync token).run.run s).2.unit = s.unit ∨
      ∃ content, s.content = .ok content ∧
        s.unit.Renews p content ((SourceUnit.getModel level sync token).run.run s).2.unit := by
  cases sync with
  | false =>
    rw [SourceUnit.getModel_unsynced]
    exact .inl rfl
  | true =>
    cases hc : s.content with
    | ok content =>
      exact .inr ⟨content, rfl, (SourceUnit.getModel_synced hp hc (hcur content hc) level token).1⟩
    | error fault =>
      rw [SourceUnit.getModel_error hc]
      exact .inl rfl

private theorem currentContent_connections {u : SourceUnit σ} {k : Nat} (hu : u.connections ≠ 0)
    (hk : k ≠ 0) (state : σ) :
    SourceUnit.currentContent { u with connections := k } state = u.currentContent state := by
  unfold SourceUnit.currentContent
  rw [if_neg hu, if_neg hk]

private theorem effect_connections {k : Nat} (hs : s.Linked) (hu : s.unit.connections ≠ 0)
    (hk : k ≠ 0) : Effect p s 0 { s with unit := { s.unit with connections := k } } := by
  have hcontent : Session.content { s with unit := { s.unit with connections := k } } = s.content :=
    currentContent_connections hu hk s.client
  exact
    { same := ⟨rfl, rfl, rfl⟩
      linked := ⟨fun _ => hcontent ▸ hs.exists_content hu, fun h => absurd h hk⟩
      content := fun _ before hb => ⟨before, hcontent.trans hb, rfl, fun _ => rfl⟩
      ast := fun _ h => .inl h
      model := fun _ h => .inl h }

private theorem effect_first {document? : Option (SharedDocument σ)} {client : σ}
    (h : s.unit.connections = 0) (hc : ∃ content, SourceUnit.currentContent
      { s.unit with document?, connections := 1 } client = .ok content) :
    Effect p s 0 ⟨{ s.unit with document?, connections := 1 }, client⟩ where
  same := ⟨rfl, rfl, rfl⟩
  linked := ⟨fun _ => hc, fun h' => by cases h'⟩
  content _ _ hb := absurd h (SourceUnit.connections_ne_zero hb)
  ast _ h := .inl h
  model _ h := .inl h

theorem effect_connect (hs : s.Linked) : Effect p s 0 (SourceUnit.connect.run.run s).2 := by
  have h := SourceUnit.connects s
  generalize SourceUnit.connect.run.run s = r at h ⊢
  cases h with
  | counted h0 => exact effect_connections hs h0 (Nat.succ_ne_zero _)
  | @detached content h0 hb =>
    refine effect_first h0 ⟨content, ?_⟩
    simp only [SourceUnit.currentContent, hb]
    rfl
  | @acquired _ document client h0 hb hr =>
    refine effect_first h0 ⟨document.content client, ?_⟩
    simp only [SourceUnit.currentContent, hb]
    rfl
  | refused h0 hb hr =>
    exact
      { same := .refl s.unit
        linked := ⟨fun h' => absurd h0 h', fun _ => hs.idle h0⟩
        content := fun h' => absurd h0 h'
        ast := fun _ h => .inl h
        model := fun _ h => .inl h }

private theorem effect_last {client : σ} : Effect p s 0 ⟨{ s.unit with
    connections := 0
    document? := none
    astInfo? := none
    modelInfo? := none }, client⟩ where
  same := ⟨rfl, rfl, rfl⟩
  linked := ⟨fun h => absurd rfl h, fun _ => ⟨rfl, rfl⟩⟩
  content h := absurd rfl h
  ast _ h := by cases h
  model _ h := by cases h

theorem effect_disconnect (hs : s.Linked) : Effect p s 0 (SourceUnit.disconnect.run.run s).2 := by
  have h := SourceUnit.disconnects s
  generalize SourceUnit.disconnect.run.run s = r at h ⊢
  cases h with
  | unmatched h0 =>
    exact
      { same := .refl s.unit
        linked := hs
        content := fun _ before hb => ⟨before, hb, rfl, fun _ => rfl⟩
        ast := fun _ h => .inl h
        model := fun _ h => .inl h }
  | counted h1 => exact effect_connections hs (by omega) (by omega)
  | detached | released => exact effect_last

theorem effect_setContent (hs : s.Linked) (text : String) :
    Effect p s (((SourceUnit.setContent text).run.run s).1.toOption.elim 0 fun _ => 1)
      ((SourceUnit.setContent text).run.run s).2 := by
  rcases SourceUnit.setContent_cases s text with ⟨fault, hr⟩ | ⟨content, h, hb, hr⟩
  · rw [hr]
    exact
      { same := .refl s.unit
        linked := hs
        content := fun _ before hb => ⟨before, hb, rfl, fun _ => rfl⟩
        ast := fun _ h => .inl h
        model := fun _ h => .inl h }
  · have hbefore : s.content = .ok content := by
      unfold Session.content SourceUnit.currentContent
      rw [if_neg h, hb]
    have hafter : SourceUnit.currentContent
        { s.unit with backing := .detached ⟨content.stamp + 1, text⟩ } s.client =
          .ok ⟨content.stamp + 1, text⟩ := by
      unfold SourceUnit.currentContent
      rw [if_neg h]
    rw [hr]
    exact
      { same := ⟨rfl, rfl, rfl⟩
        linked := ⟨fun _ => ⟨_, hafter⟩, fun h' => absurd h' h⟩
        content := fun _ before hb => by
          rw [hbefore] at hb
          cases hb
          exact ⟨_, hafter, rfl, fun h => by cases h⟩
        ast := fun _ h => .inl h
        model := fun _ h => .inl h }

/-- Every step tells the accepted edits apart and keeps nothing but what it has built. -/
theorem effect_step (hp : s.unit.frontEnd.Computes p) (hs : s.Linked)
    (hcur : ∀ content, s.content = .ok content → s.unit.Current p content) (h : Step s n t) :
    Effect p s n t := by
  cases h with
  | connect => exact effect_connect hs
  | disconnect => exact effect_disconnect hs
  | setContent text => exact effect_setContent hs text
  | getAst level sync token he =>
    exact effect_request hs he (renews_getAst hp hcur level sync token)
  | getModel level sync token he =>
    exact effect_request hs he (renews_getModel hp hcur level sync token)
  | act client he => exact effect_request hs he (.inl rfl)

end Effects

/-! ## Epochs -/

/-- A syntax tree was built by a step, from the text that was there before. -/
structure AstInfo.BuiltBy (info : AstInfo) (p : Analysis) (c : PastStep σ) : Prop where
  isOf : ∃ content, c.before.content = .ok content ∧ info.IsOf p content
  serial : info.serial = c.before.unit.astCount
  kept : c.after.unit.astInfo? = some info

structure ModelInfo.BuiltBy (info : ModelInfo) (p : Analysis) (c : PastStep σ) : Prop where
  isOf : ∃ content, c.before.content = .ok content ∧ info.IsOf p c.before.unit content
  serial : info.serial = c.before.unit.modelCount
  kept : c.after.unit.modelInfo? = some info

/-- What a unit keeps in an epoch was built by a step of it. The text has the stamp that it had
before a step only if no edit has been accepted since, and it is the same text then. -/
structure Epoch (p : Analysis) (past : List (PastStep σ)) (s : Session σ) : Prop where
  linked : s.Linked
  computes : s.unit.frontEnd.Computes p
  same : ∀ c ∈ past, c.before.unit.Same s.unit
  content : ∀ c ∈ past, ∃ before now, c.before.content = .ok before ∧ s.content = .ok now ∧
    now.stamp = before.stamp + c.edits ∧ (c.edits = 0 → now = before)
  ast : ∀ info, s.unit.astInfo? = some info → ∃ c ∈ past, info.BuiltBy p c
  model : ∀ info, s.unit.modelInfo? = some info → ∃ c ∈ past, info.BuiltBy p c

section Epochs

variable {p : Analysis} {past : List (PastStep σ)} {start s t : Session σ} {n : Nat}

private theorem ModelInfo.IsOf.of_same {info : ModelInfo} {u v : SourceUnit σ}
    {content : SourceContent} (h : info.IsOf p u content) (huv : u.Same v) :
    info.IsOf p v content where
  astInfo := h.astInfo
  outline := by
    rw [huv.id]
    exact h.outline
  names := by
    rw [huv.options]
    exact h.names
  problems := h.problems

theorem Epoch.content_eq {c : PastStep σ} {before now : SourceContent} (h : Epoch p past s)
    (hc : c ∈ past) (hb : c.before.content = .ok before) (hn : s.content = .ok now) :
    (now.stamp = before.stamp ↔ c.edits = 0) ∧ (now.stamp = before.stamp → now = before) := by
  obtain ⟨before', now', hb', hn', hstamp, heq⟩ := h.content c hc
  rw [hb] at hb'
  rw [hn] at hn'
  cases hb'
  cases hn'
  have hiff : now.stamp = before.stamp ↔ c.edits = 0 := by omega
  exact ⟨hiff, fun hs => heq (hiff.1 hs)⟩

theorem Epoch.current (h : Epoch p past s) {now : SourceContent} (hn : s.content = .ok now) :
    s.unit.Current p now where
  ast info hk hs := by
    obtain ⟨c, hc, hbuilt⟩ := h.ast info hk
    obtain ⟨before, hb, his⟩ := hbuilt.isOf
    rw [(h.content_eq hc hb hn).2 (hs.symm.trans his.stamp)]
    exact his
  model info hk hs := by
    obtain ⟨c, hc, hbuilt⟩ := h.model info hk
    obtain ⟨before, hb, his⟩ := hbuilt.isOf
    rw [(h.content_eq hc hb hn).2 (hs.symm.trans his.astInfo.stamp)]
    exact his.of_same (h.same c hc)

private theorem Epoch.of_fresh (hp : s.unit.frontEnd.Computes p) (hs : s.Fresh) : Epoch p [] s where
  linked := ⟨fun h => absurd hs.connections h, fun _ => ⟨hs.astInfo, hs.modelInfo⟩⟩
  computes := hp
  same := fun _ h => by cases h
  content := fun _ h => by cases h
  ast := fun info h => by
    rw [hs.astInfo] at h
    cases h
  model := fun info h => by
    rw [hs.modelInfo] at h
    cases h

theorem Effect.idle (h : Effect p s n t) (hs : s.Linked)
    (hidle : s.unit.connections = 0 ∨ t.unit.connections = 0) :
    t.unit.astInfo? = none ∧ t.unit.modelInfo? = none := by
  rcases hidle with hidle | hidle
  · obtain ⟨hast, hmodel⟩ := hs.idle hidle
    refine ⟨Option.eq_none_iff_forall_ne_some.2 fun info hi => ?_,
      Option.eq_none_iff_forall_ne_some.2 fun info hi => ?_⟩
    · rcases h.ast info hi with hi | ⟨content, hc, -⟩
      · rw [hast] at hi
        cases hi
      · exact SourceUnit.connections_ne_zero hc hidle
    · rcases h.model info hi with hi | ⟨content, hc, -⟩
      · rw [hmodel] at hi
        cases hi
      · exact SourceUnit.connections_ne_zero hc hidle
  · exact h.linked.idle hidle

private theorem Effect.epoch_nil (h : Effect p s n t) (hs : s.Linked)
    (hp : s.unit.frontEnd.Computes p)
    (hidle : s.unit.connections = 0 ∨ t.unit.connections = 0) : Epoch p [] t where
  linked := h.linked
  computes := h.same.frontEnd ▸ hp
  same := fun _ hc => by cases hc
  content := fun _ hc => by cases hc
  ast := fun info hi => by
    rw [(h.idle hs hidle).1] at hi
    cases hi
  model := fun info hi => by
    rw [(h.idle hs hidle).2] at hi
    cases hi

private theorem Epoch.extend (he : Epoch p past s) (h : Effect p s n t)
    (hs : s.unit.connections ≠ 0) (ht : t.unit.connections ≠ 0) :
    Epoch p (⟨s, t, n⟩ :: past.map (PastStep.later n)) t := by
  obtain ⟨before, hb⟩ := he.linked.exists_content hs
  obtain ⟨after, ha, hstamp, heq⟩ := h.content ht before hb
  refine
    { linked := h.linked
      computes := h.same.frontEnd ▸ he.computes
      same := fun c hc => ?_
      content := fun c hc => ?_
      ast := fun info hi => ?_
      model := fun info hi => ?_ }
  · rcases List.mem_cons.1 hc with rfl | hc
    · exact h.same
    · obtain ⟨d, hd, rfl⟩ := List.mem_map.1 hc
      exact (he.same d hd).trans h.same
  · rcases List.mem_cons.1 hc with rfl | hc
    · exact ⟨before, after, hb, ha, hstamp, heq⟩
    · obtain ⟨d, hd, rfl⟩ := List.mem_map.1 hc
      obtain ⟨first, now, hf, hn, hstamp', heq'⟩ := he.content d hd
      rw [hb] at hn
      cases hn
      have hsum : (d.later n).edits = d.edits + n := rfl
      refine ⟨first, after, hf, ha, by omega, fun h0 => ?_⟩
      rw [heq (by omega), heq' (by omega)]
  · rcases h.ast info hi with hk | ⟨content, hc, his, hserial⟩
    · obtain ⟨c, hc, hbuilt⟩ := he.ast info hk
      exact ⟨c.later n, List.mem_cons_of_mem _ (List.mem_map_of_mem hc),
        hbuilt.isOf, hbuilt.serial, hbuilt.kept⟩
    · exact ⟨⟨s, t, n⟩, List.mem_cons_self, ⟨content, hc, his⟩, hserial, hi⟩
  · rcases h.model info hi with hk | ⟨content, hc, his, hserial⟩
    · obtain ⟨c, hc, hbuilt⟩ := he.model info hk
      exact ⟨c.later n, List.mem_cons_of_mem _ (List.mem_map_of_mem hc),
        hbuilt.isOf, hbuilt.serial, hbuilt.kept⟩
    · exact ⟨⟨s, t, n⟩, List.mem_cons_self, ⟨content, hc, his⟩, hserial, hi⟩

/-- Every step keeps the epoch. -/
theorem Epoch.step (he : Epoch p past s) (hstep : Step s n t) :
    Epoch p (epochAfter past s n t) t := by
  have h := effect_step he.computes he.linked (fun _ hc => he.current hc) hstep
  by_cases hidle : s.unit.connections = 0 ∨ t.unit.connections = 0
  · rw [epochAfter, if_pos hidle]
    exact h.epoch_nil he.linked he.computes hidle
  · rw [epochAfter, if_neg hidle]
    rw [not_or] at hidle
    exact he.extend h hidle.1 hidle.2

/-- A run of a unit with a pure front end keeps the epoch. -/
theorem Run.epoch (hp : start.unit.frontEnd.Computes p) (h : Run start past s) :
    Epoch p past s := by
  induction h with
  | fresh hs => exact .of_fresh hp hs
  | step _ hstep ih => exact ih.step hstep

end Epochs

end SourceModel
