import SourceModel.Document.Pair
import SourceModel.Proofs.Entries

/-!
# Matches by section

A dispatcher that has been used keeps only handlers that its factory made and that were acted on or
released since. A bracket matcher changes nothing but its last match when it is asked, so what is
found at a caret depends on the document alone, whatever has been asked before.
-/

namespace SourceModel

variable {σ η α : Type} {P : String → Option η → Prop}

/-- `P` holds of what a factory makes of each type, and still does when it releases a handler. -/
structure HandlerFactory.Upholds (f : HandlerFactory σ η) (P : String → Option η → Prop) :
    Prop where
  create : ∀ type s, P type ((f.create type).run s).1
  release : ∀ type handler s, P type (some handler) → P type (some ((f.release handler).run s).1)

namespace SectionDispatcher

/-- A dispatcher for some sections of which `P` holds. -/
structure Upholds (sections : ContentSections) (P : String → Option η → Prop)
    (d : SectionDispatcher σ η) : Prop where
  sections_eq : d.sections = sections
  factory : d.factory.Upholds P
  handlers : ∀ type handler, d.handlers.lookup type = some handler → P type handler

variable {sections : ContentSections} {d : SectionDispatcher σ η} {type : String}

theorem lookup_putHandler (d : SectionDispatcher σ η) (type key : String) (handler : Option η) :
    (d.putHandler type handler).handlers.lookup key =
      if key = type then some handler else d.handlers.lookup key := lookup_replace

def letAct (d : SectionDispatcher σ η) (type : String) (act : η → α × η) :
    Option α × SectionDispatcher σ η :=
  match d.handler? type with
  | none => (none, d)
  | some handler => (some (act handler).1, d.putHandler type (some (act handler).2))

theorem useHandlerAt_run (d : SectionDispatcher σ η) (document : TextDocument) (offset : Int)
    (act : η → α × η) (s : σ) :
    (d.useHandlerAt document offset act).run s =
      if d.sections.typeAt document offset = ContentSections.errorType then
        ((none, (d.deactivate.run s).1), (d.deactivate.run s).2)
      else
        let type := d.sections.typeAt document offset
        let active := (d.activate type).run s
        let ensured := (active.1.ensureHandler type).run active.2
        (ensured.1.letAct type act, ensured.2) := by
  have hact : ∀ (e : SectionDispatcher σ η) (type : String) (s : σ),
      StateT.run (m := Id) (match e.handler? type with
        | none => pure (none, e)
        | some handler => pure (some (act handler).1, e.putHandler type (some (act handler).2)))
        s = (e.letAct type act, s) := by
    intro e type s
    unfold letAct
    cases e.handler? type <;> rfl
  unfold useHandlerAt
  generalize d.sections.typeAt document offset = type
  by_cases herror : type = ContentSections.errorType
  · simp only [herror, if_true]
    rfl
  · simp only [herror, if_false]
    exact hact _ _ _

section Upholds

variable (h : d.Upholds sections P) (s : σ)
include h

private theorem Upholds.putHandler {handler : Option η} (hp : P type handler) :
    (d.putHandler type handler).Upholds sections P := by
  refine ⟨h.sections_eq, h.factory, fun key other hother => ?_⟩
  rw [lookup_putHandler] at hother
  split at hother
  · rename_i hkey
    cases hother
    rwa [hkey]
  · exact h.handlers key other hother

private theorem Upholds.deactivate : (d.deactivate.run s).1.Upholds sections P := by
  have hinactive : Upholds sections P { d with active? := none } :=
    ⟨h.sections_eq, h.factory, h.handlers⟩
  unfold SectionDispatcher.deactivate
  split
  · exact h
  · rename_i type _
    cases hhandler : d.handler? type with
    | none => exact hinactive
    | some handler =>
      refine hinactive.putHandler (h.factory.release type handler s ?_)
      apply h.handlers
      exact Option.join_eq_some_iff.1 hhandler

private theorem Upholds.activate (type : String) :
    ((d.activate type).run s).1.Upholds sections P := by
  unfold SectionDispatcher.activate
  split
  · exact h
  · have hinactive := h.deactivate s
    exact ⟨hinactive.sections_eq, hinactive.factory, hinactive.handlers⟩

private theorem Upholds.ensureHandler (type : String) :
    ((d.ensureHandler type).run s).1.Upholds sections P ∧
      P type (((d.ensureHandler type).run s).1.handler? type) := by
  unfold SectionDispatcher.ensureHandler
  split
  · rename_i hcached
    obtain ⟨handler, hhandler⟩ := Option.isSome_iff_exists.1 hcached
    refine ⟨h, ?_⟩
    have hlookup : d.handler? type = handler := by simp [handler?, hhandler]
    exact hlookup ▸ h.handlers type handler hhandler
  · have hmade := h.factory.create type s
    refine ⟨h.putHandler hmade, ?_⟩
    have hlookup : (d.putHandler type ((d.factory.create type).run s).1).handler? type =
        ((d.factory.create type).run s).1 := by simp [handler?, lookup_putHandler]
    exact hlookup ▸ hmade

private theorem Upholds.dispose : (d.dispose.run s).1.Upholds sections P := by
  have hinactive := h.deactivate s
  exact ⟨hinactive.sections_eq, hinactive.factory, fun _ _ hlookup => nomatch hlookup⟩

private theorem Upholds.useHandlerAt (act : η → α × η)
    (hact : ∀ type handler, P type (some handler) → P type (some (act handler).2))
    (document : TextDocument) (offset : Int) :
    let after := ((d.useHandlerAt document offset act).run s).1
    let type := sections.typeAt document offset
    after.2.Upholds sections P ∧
      if type = ContentSections.errorType then after.1 = none
      else ∃ handler, P type handler ∧ after.1 = handler.map fun made => (act made).1 := by
  intro after type
  have htype : d.sections.typeAt document offset = type := by rw [h.sections_eq]
  have hafter := congrArg Prod.fst (d.useHandlerAt_run document offset act s)
  rw [htype] at hafter
  change after = _ at hafter
  rw [hafter]
  by_cases herror : type = ContentSections.errorType
  · simp only [if_pos herror]
    exact ⟨h.deactivate s, trivial⟩
  simp only [if_neg herror]
  obtain ⟨hensured, hmade⟩ := (h.activate s type).ensureHandler ((d.activate type).run s).2 type
  unfold letAct
  split
  · rename_i hhandler
    exact ⟨hensured, none, hhandler ▸ hmade, rfl⟩
  · rename_i handler hhandler
    rw [hhandler] at hmade
    exact ⟨hensured.putHandler (hact type handler hmade), some handler, hmade, rfl⟩

end Upholds

end SectionDispatcher

namespace SectionPairMatcher

variable {sections : ContentSections} {pairs : List (String × List CharPair)}
  {m : SectionPairMatcher} {d : TextDocument}

def fresh? (sections : ContentSections) (pairs : List (String × List CharPair)) (type : String) :
    Option CharPairMatcher :=
  (pairs.lookup type).map fun pairs => { pairs, sections, sectionType := type }

def matchIn (sections : ContentSections) (pairs : List (String × List CharPair))
    (d : TextDocument) (offset caret : Nat) : Option PairMatch :=
  if sections.typeAt d offset = ContentSections.errorType then none
  else (fresh? sections pairs (sections.typeAt d offset)).bind fun matcher =>
    matcher.matchAt d caret

/-- Whether a matcher is that of a type, its last match aside. -/
def IsFresh (sections : ContentSections) (pairs : List (String × List CharPair)) (type : String)
    (matcher : Option CharPairMatcher) : Prop :=
  matcher.map CharPairMatcher.release = fresh? sections pairs type

/-- A matcher by section that keeps a matcher for each type as it would be made anew. -/
def Serves (sections : ContentSections) (pairs : List (String × List CharPair))
    (m : SectionPairMatcher) : Prop :=
  m.dispatcher.Upholds sections (IsFresh sections pairs)

theorem serves_ofPairs : Serves sections pairs (ofPairs sections pairs) := by
  refine ⟨rfl, ⟨fun type s => ?_, fun type handler s h => h⟩, fun _ _ hlookup => nomatch hlookup⟩
  change ((pairs.lookup type).map _).map _ = (pairs.lookup type).map _
  rw [Option.map_map]
  rfl

private theorem Serves.dispose (h : Serves sections pairs m) : Serves sections pairs m.dispose :=
  SectionDispatcher.Upholds.dispose h ()

private theorem Serves.findIn (h : Serves sections pairs m) (offset caret : Nat) :
    Serves sections pairs (m.findIn d offset caret).2 ∧
      (m.findIn d offset caret).1 = matchIn sections pairs d offset caret := by
  obtain ⟨hkept, hfound⟩ := SectionDispatcher.Upholds.useHandlerAt h ()
    (fun matcher => matcher.find d caret) (fun _ _ hp => hp) d offset
  refine ⟨hkept, ?_⟩
  change Option.join ((m.dispatcher.useHandlerAt d offset fun matcher =>
    matcher.find d caret).run ()).1.1 = _
  unfold matchIn
  split at hfound
  · rename_i herror
    rw [hfound, if_pos herror]
    rfl
  · rename_i herror
    obtain ⟨matcher, hfresh, hmatch⟩ := hfound
    rw [hmatch, if_neg herror, ← hfresh]
    cases matcher <;> rfl

/-- What is found at a caret does not depend on what has been asked before. -/
theorem Serves.find (h : Serves sections pairs m) (caret : Nat) :
    Serves sections pairs (m.find d caret).2 ∧
      (m.find d caret).1 =
        (if caret = 0 then none else matchIn sections pairs d (caret - 1) caret).or
          (matchIn sections pairs d caret caret) := by
  unfold SectionPairMatcher.find
  by_cases hcaret : caret = 0
  · simp only [hcaret, if_true, Option.none_or]
    exact h.findIn 0 0
  · simp only [hcaret, if_false]
    obtain ⟨hbefore, hfound⟩ := h.findIn (d := d) (caret - 1) caret
    obtain ⟨hbehind, hfound'⟩ := hbefore.findIn (d := d) caret caret
    rw [← hfound]
    split
    · rename_i found heq
      exact ⟨hbefore, by rw [heq, Option.some_or]⟩
    · rename_i heq
      exact ⟨hbehind, by rw [heq, Option.none_or, hfound']⟩

inductive Call where
  | find (d : TextDocument) (caret : Nat)
  | dispose

def after (m : SectionPairMatcher) (calls : List Call) : SectionPairMatcher :=
  calls.foldl
    (fun m call =>
      match call with
      | .find d caret => (m.find d caret).2
      | .dispose => m.dispose)
    m

theorem Serves.after (h : Serves sections pairs m) (calls : List Call) :
    Serves sections pairs (m.after calls) := by
  induction calls generalizing m with
  | nil => exact h
  | cons call calls ih =>
    cases call with
    | find d caret => exact ih (h.find caret).1
    | dispose => exact ih h.dispose

end SectionPairMatcher

end SourceModel
