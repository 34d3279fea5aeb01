import SourceModel.Proofs.Document.DispatchLog
import SourceModel.Proofs.Document.SectionMatching

/-!
# Tracked dispatchers

The factory of a dispatcher can be made to number the handlers that it makes and to note what it is
asked for and what it releases. A dispatcher with such a factory does what it does without, and its
log tells which handlers it has.
-/

namespace SourceModel

variable {σ η : Type}

/-- The factory with its handlers numbered. It notes what it is asked for and what it releases. -/
def HandlerFactory.tracked (f : HandlerFactory σ η) :
    HandlerFactory (σ × List DispatchEvent) (Nat × η) where
  create type := do
    let (client, log) ← get
    match (f.create type).run client with
    | (some handler, client) =>
      set (client, DispatchEvent.made type :: log)
      return some (log.length, handler)
    | (none, client) =>
      set (client, DispatchEvent.declined type :: log)
      return none
  release := fun (n, handler) => do
    let (client, log) ← get
    let (handler, client) := (f.release handler).run client
    set (client, DispatchEvent.released n :: log)
    return (n, handler)

private theorem HandlerFactory.tracked_create_run (f : HandlerFactory σ η) (type : String) (s : σ)
    (log : List DispatchEvent) :
    (f.tracked.create type).run (s, log) =
      match (f.create type).run s with
      | (some handler, s) => (some (log.length, handler), s, .made type :: log)
      | (none, s) => (none, s, .declined type :: log) := by
  change StateT.run (m := Id) (match (f.create type).run s with
    | (some handler, client) => _
    | (none, client) => _) (s, log) = _
  rcases (f.create type).run s with ⟨_ | handler, client⟩ <;> rfl

/-- The client makes the same handlers without the log. -/
theorem HandlerFactory.create_run_eq (f : HandlerFactory σ η) (type : String) (s : σ)
    (log : List DispatchEvent) :
    (f.create type).run s =
      (((f.tracked.create type).run (s, log)).1.map Prod.snd,
        ((f.tracked.create type).run (s, log)).2.1) := by
  rw [tracked_create_run]
  rcases (f.create type).run s with ⟨_ | handler, client⟩ <;> rfl

theorem HandlerFactory.tracked_release_run (f : HandlerFactory σ η) (n : Nat) (handler : η) (s : σ)
    (log : List DispatchEvent) :
    (f.tracked.release (n, handler)).run (s, log) =
      ((n, ((f.release handler).run s).1), ((f.release handler).run s).2, .released n :: log) :=
  rfl

namespace SectionDispatcher

/-- What may be asked of a dispatcher. A handler that is handed out may change. -/
inductive Call (η : Type) where
  | handlerAt (document : TextDocument) (offset : Int) (change : η → η)
  | dispose

def handing (change : η → η) (handler : η) : η × η := (handler, change handler)

def call (d : SectionDispatcher σ η) : Call η → StateM σ (Option η × SectionDispatcher σ η)
  | .handlerAt document offset change => d.useHandlerAt document offset (handing change)
  | .dispose => return (none, ← d.dispose)

example (d : SectionDispatcher σ η) (document : TextDocument) (offset : Int) :
    d.call (.handlerAt document offset id) = d.handlerAt document offset := rfl

def after (d : SectionDispatcher σ η) : List (Call η) → StateM σ (SectionDispatcher σ η)
  | [] => return d
  | c :: calls => do (← d.call c).2.after calls

def activeHandler? (d : SectionDispatcher σ η) : Option (String × η) :=
  d.active?.bind fun type => (d.handler? type).map fun handler => (type, handler)

private theorem activeHandler?_eq_some {d : SectionDispatcher σ η} {type : String} {handler : η}
    (h : d.activeHandler? = some (type, handler)) : d.handler? type = some handler := by
  obtain ⟨active, -, hhandler⟩ := Option.bind_eq_some_iff.1 h
  obtain ⟨_, hmade, hpair⟩ := Option.map_eq_some_iff.1 hhandler
  cases hpair
  exact hmade

section Runs

variable (d : SectionDispatcher σ η) (type : String) (s : σ)

private theorem deactivate_run :
    d.deactivate.run s =
      match d.activeHandler? with
      | none => ({ d with active? := none }, s)
      | some (type, handler) =>
        let released := (d.factory.release handler).run s
        ({ d with active? := none }.putHandler type (some released.1), released.2) := by
  obtain ⟨sections, factory, handlers, active?⟩ := d
  unfold deactivate activeHandler?
  cases active? with
  | none => rfl
  | some type =>
    simp only [Option.bind_some]
    cases handler? _ type <;> rfl

private theorem activate_run :
    (d.activate type).run s =
      if d.active? = some type then (d, s)
      else ({ (d.deactivate.run s).1 with active? := some type }, (d.deactivate.run s).2) := by
  unfold activate
  split <;> rfl

private theorem ensureHandler_run :
    (d.ensureHandler type).run s =
      if d.isCached type then (d, s)
      else
        let created := (d.factory.create type).run s
        (d.putHandler type created.1, created.2) := by
  unfold ensureHandler
  split <;> rfl

end Runs

/-! ## What is the same without the log -/

def plain (f : HandlerFactory σ η)
    (d : SectionDispatcher (σ × List DispatchEvent) (Nat × η)) : SectionDispatcher σ η where
  sections := d.sections
  factory := f
  handlers := d.handlers.map fun entry => (entry.1, entry.2.map Prod.snd)
  active? := d.active?

section Plain

variable {f : HandlerFactory σ η} {d : SectionDispatcher (σ × List DispatchEvent) (Nat × η)}
  (type : String) (s : σ) (log : List DispatchEvent)

private theorem lookup_plain :
    (d.plain f).handlers.lookup type = (d.handlers.lookup type).map (Option.map Prod.snd) := by
  unfold plain
  simp only
  induction d.handlers with
  | nil => rfl
  | cons entry entries ih =>
    obtain ⟨key, handler⟩ := entry
    rw [List.map_cons, lookup_entry, lookup_entry, ih]
    split <;> rfl

private theorem handler?_plain : (d.plain f).handler? type = (d.handler? type).map Prod.snd := by
  rw [handler?, handler?, lookup_plain]
  rcases d.handlers.lookup type with _ | _ | handler <;> rfl

private theorem isCached_plain : (d.plain f).isCached type = d.isCached type := by
  rw [isCached, isCached, lookup_plain, Option.isSome_map]

private theorem activeHandler?_plain :
    (d.plain f).activeHandler? = d.activeHandler?.map (Prod.map id Prod.snd) := by
  change (d.active?.bind fun type => ((d.plain f).handler? type).map _) = _
  unfold activeHandler?
  cases d.active? with
  | none => rfl
  | some type =>
    simp only [Option.bind_some, handler?_plain]
    cases d.handler? type <;> rfl

private theorem putHandler_plain (handler : Option (Nat × η)) :
    (d.putHandler type handler).plain f = (d.plain f).putHandler type (handler.map Prod.snd) := by
  simp only [putHandler, plain, List.map_cons, List.filter_map]
  rfl

variable (hf : d.factory = f.tracked)
include hf

private theorem deactivate_plain :
    (d.plain f).deactivate.run s =
      ((d.deactivate.run (s, log)).1.plain f, (d.deactivate.run (s, log)).2.1) := by
  rw [deactivate_run, deactivate_run, activeHandler?_plain]
  cases d.activeHandler? with
  | none => rfl
  | some active =>
    simp only [Option.map_some, hf, putHandler_plain]
    rfl

private theorem activate_plain :
    ((d.plain f).activate type).run s =
      (((d.activate type).run (s, log)).1.plain f, ((d.activate type).run (s, log)).2.1) := by
  rw [activate_run, activate_run, deactivate_plain s log hf]
  change (if d.active? = some type then _ else _) = _
  split <;> rfl

private theorem ensureHandler_plain :
    ((d.plain f).ensureHandler type).run s =
      (((d.ensureHandler type).run (s, log)).1.plain f,
        ((d.ensureHandler type).run (s, log)).2.1) := by
  rw [ensureHandler_run, ensureHandler_run, isCached_plain]
  split
  · rfl
  · simp only [hf, putHandler_plain]
    change ((d.plain f).putHandler type ((f.create type).run s).1, ((f.create type).run s).2) = _
    rw [f.create_run_eq type s log]

end Plain

/-! ## What the log tells -/

/-- A dispatcher with a tracked factory whose log tells what its handlers are. -/
structure Logs (sections : ContentSections) (f : HandlerFactory σ η)
    (d : SectionDispatcher (σ × List DispatchEvent) (Nat × η)) (log : List DispatchEvent) :
    Prop where
  sections_eq : d.sections = sections
  factory_eq : d.factory = f.tracked
  noted_eq : ∀ type,
    DispatchEvent.noted type log = (d.handlers.lookup type).map (Option.map Prod.fst)

section Logs

open DispatchEvent

variable {sections : ContentSections} {f : HandlerFactory σ η}
  {d : SectionDispatcher (σ × List DispatchEvent) (Nat × η)} {type : String} {s : σ}
  {log : List DispatchEvent} (h : Logs sections f d log)
include h

private theorem Logs.join_noted (type : String) :
    (noted type log).join = (d.handler? type).map Prod.fst := by
  rw [h.noted_eq, handler?]
  rcases d.handlers.lookup type with _ | _ | handler <;> rfl

theorem Logs.activeNumber?_eq :
    activeNumber? d.active? log = d.activeHandler?.map fun active => active.2.1 := by
  unfold activeNumber? activeHandler?
  cases d.active? with
  | none => rfl
  | some type =>
    simp only [Option.bind_some, h.join_noted]
    cases d.handler? type <;> rfl

private theorem Logs.putHandler {n : Nat} {old : η} (hold : d.handler? type = some (n, old))
    (new : η) : Logs sections f (d.putHandler type (some (n, new))) log := by
  refine ⟨h.sections_eq, h.factory_eq, fun key => ?_⟩
  rw [lookup_putHandler, h.noted_eq]
  split
  · rename_i hkey
    rw [hkey, Option.join_eq_some_iff.1 hold]
    rfl
  · rfl

theorem Logs.deactivate :
    Logs sections f (d.deactivate.run (s, log)).1 (d.deactivate.run (s, log)).2.2 ∧
      (d.deactivate.run (s, log)).1.active? = none ∧
      (d.deactivate.run (s, log)).2.2 = releases d.active? log ++ log := by
  have hinactive : Logs sections f { d with active? := none } log :=
    ⟨h.sections_eq, h.factory_eq, h.noted_eq⟩
  rw [deactivate_run, releases, h.activeNumber?_eq]
  cases hactive : d.activeHandler? with
  | none => exact ⟨hinactive, rfl, rfl⟩
  | some active =>
    obtain ⟨type, n, handler⟩ := active
    have hhandler : d.handler? type = some (n, handler) := activeHandler?_eq_some hactive
    simp only [h.factory_eq, HandlerFactory.tracked_release_run]
    have hput : Logs sections f ({ d with active? := none }.putHandler type
        (some (n, ((f.release handler).run s).1))) log := hinactive.putHandler hhandler _
    exact ⟨⟨hput.sections_eq, rfl, hput.noted_eq⟩, rfl, rfl⟩

theorem Logs.activate (type : String) :
    Logs sections f ((d.activate type).run (s, log)).1 ((d.activate type).run (s, log)).2.2 ∧
      ((d.activate type).run (s, log)).1.active? = some type ∧
      ((d.activate type).run (s, log)).2.2 =
        (if d.active? = some type then [] else releases d.active? log) ++ log := by
  rw [activate_run]
  by_cases hactive : d.active? = some type
  · rw [if_pos hactive, if_pos hactive]
    exact ⟨h, hactive, rfl⟩
  · rw [if_neg hactive, if_neg hactive]
    obtain ⟨hlogs, -, hlog⟩ := h.deactivate (s := s)
    exact ⟨⟨hlogs.sections_eq, hlogs.factory_eq, hlogs.noted_eq⟩, rfl, hlog⟩

theorem Logs.ensureHandler (type : String) :
    Logs sections f ((d.ensureHandler type).run (s, log)).1
        ((d.ensureHandler type).run (s, log)).2.2 ∧
      ((d.ensureHandler type).run (s, log)).1.active? = d.active? ∧
      (((d.ensureHandler type).run (s, log)).2.2 = log ∧ noted type log ≠ none ∨
        noted type log = none ∧ ∃ e, ((d.ensureHandler type).run (s, log)).2.2 = e :: log ∧
          (e = made type ∨ e = declined type)) := by
  rw [ensureHandler_run]
  by_cases hcached : d.isCached type = true
  · rw [if_pos hcached]
    refine ⟨h, rfl, .inl ⟨rfl, fun hnone => ?_⟩⟩
    rw [h.noted_eq, Option.map_eq_none_iff] at hnone
    rw [isCached, hnone] at hcached
    cases hcached
  · rw [if_neg hcached]
    have hnone : noted type log = none := by
      rw [h.noted_eq, Option.map_eq_none_iff, ← Option.not_isSome_iff_eq_none]
      exact hcached
    simp only [h.factory_eq, HandlerFactory.tracked_create_run]
    rcases (f.create type).run s with ⟨_ | handler, client⟩
    · refine ⟨⟨h.sections_eq, h.factory_eq, fun key => ?_⟩, rfl, .inr ⟨hnone, _, rfl, .inr rfl⟩⟩
      rw [lookup_putHandler, noted, h.noted_eq]
      split <;> rfl
    · refine ⟨⟨h.sections_eq, h.factory_eq, fun key => ?_⟩, rfl, .inr ⟨hnone, _, rfl, .inl rfl⟩⟩
      rw [lookup_putHandler, noted, h.noted_eq]
      split <;> rfl

theorem Logs.letAct (type : String) (change : η → η) :
    let acted := d.letAct type (handing (Prod.map id change))
    Logs sections f acted.2 log ∧ acted.2.active? = d.active? ∧
      acted.1.map Prod.fst = (noted type log).join := by
  intro acted
  have hnumber := h.join_noted type
  cases hhandler : d.handler? type with
  | none =>
    have hacted : acted = (none, d) := by simp only [acted, SectionDispatcher.letAct, hhandler]
    rw [hhandler] at hnumber
    rw [hacted]
    exact ⟨h, rfl, hnumber.symm⟩
  | some made =>
    have hacted : acted = (some made, d.putHandler type (some (made.1, change made.2))) := by
      simp only [acted, SectionDispatcher.letAct, hhandler]
      rfl
    rw [hhandler] at hnumber
    rw [hacted]
    exact ⟨h.putHandler hhandler _, rfl, hnumber.symm⟩

end Logs

private theorem letAct_plain {f : HandlerFactory σ η}
    {d : SectionDispatcher (σ × List DispatchEvent) (Nat × η)} (type : String) (change : η → η) :
    (d.plain f).letAct type (handing change) =
      ((d.letAct type (handing (Prod.map id change))).1.map Prod.snd,
        (d.letAct type (handing (Prod.map id change))).2.plain f) := by
  unfold letAct
  rw [handler?_plain]
  cases d.handler? type with
  | none => rfl
  | some made =>
    simp only [Option.map_some, putHandler_plain]
    rfl

def Call.numbered : Call η → Call (Nat × η)
  | handlerAt document offset change => handlerAt document offset (Prod.map id change)
  | dispose => dispose

/-- Without the log a dispatcher gives the same handlers, and its client goes through the same
states. -/
theorem Logs.call_plain {sections : ContentSections} {f : HandlerFactory σ η}
    {d : SectionDispatcher (σ × List DispatchEvent) (Nat × η)} {log : List DispatchEvent}
    (h : Logs sections f d log) (c : Call η) (s : σ) :
    ((d.plain f).call c).run s =
      ((((d.call c.numbered).run (s, log)).1.1.map Prod.snd,
          ((d.call c.numbered).run (s, log)).1.2.plain f),
        ((d.call c.numbered).run (s, log)).2.1) := by
  have hdeactivate := deactivate_plain (d := d) s log h.factory_eq
  cases c with
  | dispose =>
    change ((none, ({ ((d.plain f).deactivate.run s).1 with handlers := [] } :
      SectionDispatcher σ η)), ((d.plain f).deactivate.run s).2) = _
    rw [hdeactivate]
    rfl
  | handlerAt document offset change =>
    have hrun := d.useHandlerAt_run document offset (handing (Prod.map id change)) (s, log)
    have hplain := (d.plain f).useHandlerAt_run document offset (handing change) s
    have htype : (d.plain f).sections.typeAt document offset = d.sections.typeAt document offset :=
      rfl
    rw [htype] at hplain
    simp only [call, Call.numbered]
    rw [hrun, hplain]
    split
    · rw [hdeactivate]
      rfl
    · generalize d.sections.typeAt document offset = type
      obtain ⟨hlogs, -, -⟩ := h.activate (s := s) type
      have hensure := ensureHandler_plain type ((d.activate type).run (s, log)).2.1
        ((d.activate type).run (s, log)).2.2 hlogs.factory_eq
      simp only [activate_plain type s log h.factory_eq, hensure, letAct_plain]

end SectionDispatcher

end SourceModel
