import Mathlib.Data.List.Basic
import SourceModel.Document.Sections

/-!
# Logs of handlers

A log tells what happens to the handlers of a dispatcher, with the newest event first. A log is
ordered if each event may follow those before it: a type is asked for only if the client has not
been asked since the last disposal, what is handed out has been made since then, and what is
released is in use. A dispatcher keeps its log so that a handler is in use, handed out and not
released since, just as long as its type is the active one.
-/

namespace SourceModel

/-- An event in the life of the handlers. The number of a handler is that of the events before it
was made. -/
inductive DispatchEvent where
  | made (type : String)
  | declined (type : String)
  | handed (n : Nat)
  | released (n : Nat)
  | disposed
deriving DecidableEq, Repr

namespace DispatchEvent

def asked? : DispatchEvent → Option String
  | made type | declined type => some type
  | handed _ | released _ | disposed => none

/-! ## Logs -/

/-- What the client has said about a type since the last disposal, by a log whose newest event comes
first: nothing, that it declines the type, or that it made the handler with a number. -/
def noted (type : String) : List DispatchEvent → Option (Option Nat)
  | [] => none
  | made other :: older => if type = other then some (some older.length) else noted type older
  | declined other :: older => if type = other then some none else noted type older
  | handed _ :: older => noted type older
  | released _ :: older => noted type older
  | disposed :: _ => none

/-- A handler has been handed out and not been released since. -/
def InUse (n : Nat) : List DispatchEvent → Prop
  | [] => False
  | handed m :: older => n = m ∨ InUse n older
  | released m :: older => n ≠ m ∧ InUse n older
  | made _ :: older => InUse n older
  | declined _ :: older => InUse n older
  | disposed :: older => InUse n older

/-- An event may follow others. -/
def Follows (older : List DispatchEvent) : DispatchEvent → Prop
  | made type => type ≠ ContentSections.errorType ∧ noted type older = none
  | declined type => type ≠ ContentSections.errorType ∧ noted type older = none
  | handed n => ∃ type, noted type older = some (some n)
  | released n => InUse n older
  | disposed => True

def Ordered : List DispatchEvent → Prop
  | [] => True
  | e :: older => Follows older e ∧ Ordered older

def activeNumber? (active? : Option String) (log : List DispatchEvent) : Option Nat :=
  active?.bind fun type => (noted type log).join

section Logs

variable {type : String} {n : Nat} {e : DispatchEvent}
  {log newer between older : List DispatchEvent}

theorem Ordered.follows (h : Ordered (newer ++ e :: older)) : Follows older e := by
  induction newer with
  | nil => exact h.1
  | cons _ newer ih => exact ih h.2

theorem noted_ne_none (he : e.asked? = some type) (h : disposed ∉ between) :
    noted type (between ++ e :: older) ≠ none := by
  induction between with
  | nil =>
    cases e <;> cases he
    all_goals simp [noted]
  | cons d between ih =>
    rw [List.mem_cons, not_or] at h
    cases d with
    | disposed => exact absurd rfl h.1
    | handed m => exact ih h.2
    | released m => exact ih h.2
    | made other | declined other =>
      rw [List.cons_append, noted]
      split
      · exact Option.some_ne_none _
      · exact ih h.2

theorem noted_eq_some {answer : Option Nat} (h : noted type log = some answer) :
    ∃ newer e older, log = newer ++ e :: older ∧ disposed ∉ newer ∧
      (e = made type ∧ answer = some older.length ∨ e = declined type ∧ answer = none) := by
  induction log with
  | nil => cases h
  | cons e older ih =>
    -- Unless this event tells it, it is told by an older one, and this is no disposal.
    have hlater (he : e ≠ disposed) (hnoted : noted type older = some answer) :
        ∃ newer d older', e :: older = newer ++ d :: older' ∧ disposed ∉ newer ∧
          (d = made type ∧ answer = some older'.length ∨ d = declined type ∧ answer = none) := by
      obtain ⟨newer, d, older', rfl, hnewer, hd⟩ := ih hnoted
      refine ⟨e :: newer, d, older', rfl, ?_, hd⟩
      rw [List.mem_cons, not_or]
      exact ⟨he.symm, hnewer⟩
    cases e with
    | made other =>
      rw [noted] at h
      split at h
      · rename_i heq
        cases h
        exact ⟨[], _, older, rfl, List.not_mem_nil, .inl ⟨heq ▸ rfl, rfl⟩⟩
      · exact hlater nofun h
    | declined other =>
      rw [noted] at h
      split at h
      · rename_i heq
        cases h
        exact ⟨[], _, older, rfl, List.not_mem_nil, .inr ⟨heq ▸ rfl, rfl⟩⟩
      · exact hlater nofun h
    | handed m => exact hlater nofun h
    | released m => exact hlater nofun h
    | disposed => cases h

theorem Ordered.noted_eq_none_iff (h : Ordered log) :
    noted type log = some none ↔
      ∃ newer older, log = newer ++ declined type :: older ∧ disposed ∉ newer := by
  constructor
  · intro hnoted
    obtain ⟨newer, e, older, rfl, hnewer, ⟨-, hnone⟩ | ⟨rfl, -⟩⟩ := noted_eq_some hnoted
    · cases hnone
    · exact ⟨newer, older, rfl, hnewer⟩
  · rintro ⟨newer, older, rfl, hnewer⟩
    induction newer with
    | nil => exact if_pos rfl
    | cons e newer ih =>
      rw [List.mem_cons, not_or] at hnewer
      have hnoted : noted type (newer ++ declined type :: older) = some none := ih hnewer.2 h.2
      cases e with
      | disposed => exact absurd rfl hnewer.1
      | handed m => exact hnoted
      | released m => exact hnoted
      | made other | declined other =>
        have hne : type ≠ other := by
          rintro rfl
          cases hnoted.symm.trans h.1.2
        rw [List.cons_append, noted, if_neg hne]
        exact hnoted

theorem inUse_of_handed (h : released n ∉ newer) : InUse n (newer ++ handed n :: older) := by
  induction newer with
  | nil => exact .inl rfl
  | cons e newer ih =>
    rw [List.mem_cons, not_or] at h
    cases e with
    | released m => exact ⟨fun hm => h.1 (hm ▸ rfl), ih h.2⟩
    | handed m => exact .inr (ih h.2)
    | made type => exact ih h.2
    | declined type => exact ih h.2
    | disposed => exact ih h.2

theorem handed_mem_of_inUse (h : InUse n (between ++ released n :: older)) :
    handed n ∈ between := by
  induction between with
  | nil => exact absurd rfl h.1
  | cons e between ih =>
    rw [List.mem_cons]
    cases e with
    | released m => exact .inr (ih h.2)
    | handed m =>
      rcases h with rfl | h
      · exact .inl rfl
      · exact .inr (ih h)
    | made type => exact .inr (ih h)
    | declined type => exact .inr (ih h)
    | disposed => exact .inr (ih h)

theorem exists_made (h : noted type (between ++ disposed :: older) = some (some n)) :
    ∃ later earlier, between = later ++ made type :: earlier ∧
      n = (earlier ++ disposed :: older).length := by
  obtain ⟨newer, e, older', hlog, hnewer, ⟨rfl, hn⟩ | ⟨-, hn⟩⟩ := noted_eq_some h
  · rcases List.append_eq_append_iff.1 hlog with ⟨middle, rfl, hcons⟩ | ⟨middle, rfl, hcons⟩
    · cases middle with
      | nil => cases hcons
      | cons d middle =>
        rw [List.cons_append, List.cons.injEq] at hcons
        refine absurd ?_ hnewer
        rw [hcons.1]
        exact List.mem_append_right _ List.mem_cons_self
    · cases middle with
      | nil => cases hcons
      | cons d middle =>
        rw [List.cons_append, List.cons.injEq] at hcons
        obtain ⟨rfl, rfl⟩ := hcons
        exact ⟨newer, middle, rfl, Option.some.inj hn⟩
  · cases hn

end Logs

/-! ## Logs of a dispatcher -/

/-- What holds of the log of a dispatcher: the client has been asked for the active type, and a
handler is in use just if it is that of the active type. -/
structure Keeps (active? : Option String) (log : List DispatchEvent) : Prop where
  ordered : Ordered log
  noted_active : ∀ type ∈ active?, noted type log ≠ none
  inUse_iff : ∀ n, InUse n log ↔ activeNumber? active? log = some n

def releases (active? : Option String) (log : List DispatchEvent) : List DispatchEvent :=
  (activeNumber? active? log).toList.map released

def hands (type : String) (log : List DispatchEvent) : List DispatchEvent :=
  (noted type log).join.toList.map handed

section Keeps

variable {active? : Option String} {type : String} {e : DispatchEvent} {log : List DispatchEvent}

theorem noted_hands {other : String} : noted other (hands type log ++ log) = noted other log := by
  unfold hands
  cases (noted type log).join <;> rfl

theorem keeps_nil : Keeps none [] where
  ordered := trivial
  noted_active _ h := nomatch h
  inUse_iff _ := ⟨nofun, nofun⟩

theorem Keeps.deactivate (h : Keeps active? log) : Keeps none (releases active? log ++ log) := by
  unfold releases
  cases hactive : activeNumber? active? log with
  | none =>
    refine ⟨h.ordered, nofun, fun n => ?_⟩
    rw [Option.toList_none, List.map_nil, List.nil_append, h.inUse_iff, hactive]
    rfl
  | some m =>
    refine ⟨⟨(h.inUse_iff m).2 hactive, h.ordered⟩, nofun, fun n => ⟨fun hn => ?_, nofun⟩⟩
    have huse : some m = some n := hactive.symm.trans ((h.inUse_iff n).1 hn.2)
    exact absurd (Option.some.inj huse).symm hn.1

theorem Keeps.asked (h : Keeps none log) (herror : type ≠ ContentSections.errorType)
    (hnoted : noted type log = none) (he : e = made type ∨ e = declined type) :
    Keeps none (e :: log) := by
  rcases he with rfl | rfl
  all_goals exact ⟨⟨⟨herror, hnoted⟩, h.ordered⟩, nofun, h.inUse_iff⟩

theorem Keeps.handed (h : Keeps active? log) (hactive : active? = some type ∨ active? = none)
    (hnoted : noted type log ≠ none) : Keeps (some type) (hands type log ++ log) := by
  have huse : ∀ n, InUse n log → (noted type log).join = some n := by
    intro n hn
    rw [h.inUse_iff] at hn
    rcases hactive with rfl | rfl
    · exact hn
    · cases hn
  unfold hands
  cases hnumber : (noted type log).join with
  | none =>
    refine ⟨h.ordered, fun _ ht => Option.some.inj ht ▸ hnoted, fun n => ⟨huse n, fun hn => ?_⟩⟩
    cases hnumber.symm.trans hn
  | some m =>
    have htype : noted type log = some (some m) := Option.join_eq_some_iff.1 hnumber
    refine ⟨⟨⟨type, htype⟩, h.ordered⟩, fun _ ht => Option.some.inj ht ▸ hnoted, fun n => ?_⟩
    change (n = m ∨ InUse n log) ↔ (noted type log).join = some n
    constructor
    · rintro (rfl | hn)
      · exact hnumber
      · exact huse n hn
    · intro hn
      exact .inl (Option.some.inj (hn.symm.trans hnumber))

theorem Keeps.disposed (h : Keeps none log) : Keeps none (disposed :: log) :=
  ⟨⟨trivial, h.ordered⟩, nofun, h.inUse_iff⟩

/-- A log goes on from an older one; on the way the handler with a given number, if any, is released
once, and no other one is. -/
def GoesOn (number? : Option Nat) (older log : List DispatchEvent) : Prop :=
  ∃ new, log = new ++ older ∧
    ∀ n, new.count (released n) = if number? = some n then 1 else 0

theorem GoesOn.cons {number? : Option Nat} {older : List DispatchEvent}
    (h : GoesOn number? older log) (he : ∀ n, e ≠ released n) :
    GoesOn number? older (e :: log) := by
  obtain ⟨new, rfl, hcount⟩ := h
  refine ⟨e :: new, rfl, fun n => ?_⟩
  rw [List.count_cons_of_ne (he n), hcount]

theorem GoesOn.refl : GoesOn none log log := ⟨[], rfl, fun _ => rfl⟩

theorem goesOn_releases : GoesOn (activeNumber? active? log) log (releases active? log ++ log) := by
  refine ⟨_, rfl, fun n => ?_⟩
  unfold releases
  cases activeNumber? active? log with
  | none => rfl
  | some m => simp [List.count_singleton]

theorem GoesOn.hands {number? : Option Nat} {older : List DispatchEvent}
    (h : GoesOn number? older log) : GoesOn number? older (hands type log ++ log) := by
  unfold DispatchEvent.hands
  cases (noted type log).join with
  | none => exact h
  | some m => exact h.cons nofun

end Keeps

end DispatchEvent

end SourceModel
