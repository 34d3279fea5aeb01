import Mathlib.Data.List.TakeWhile

/-!
# Actions that can fail, one after the other

An action that changes a state and can fail is run for the elements of a list. The run ends with
the first failure, whose state stays as it is. What has been reached by then is known from a log of
the elements, and if the action fails for just the elements with some property, from the list alone.
-/

namespace SourceModel

section FailFast

variable {α ε σ : Type} {f : α → ExceptT ε (StateM σ) Unit} {p : α → Bool} {a : α}
  {as called : List α} {outcome : Except ε Unit} {failure : ε} {s s₁ s₂ : σ}

theorem run_bind_of_ok {x y : ExceptT ε (StateM σ) Unit} (h : x.run s = (.ok (), s₁)) :
    (x >>= fun _ => y).run s = y.run s₁ := by
  rw [ExceptT.run_bind]
  simp only [bind, StateT.bind, h]

theorem run_bind_of_error {x y : ExceptT ε (StateM σ) Unit} (h : x.run s = (.error failure, s₁)) :
    (x >>= fun _ => y).run s = (.error failure, s₁) := by
  rw [ExceptT.run_bind]
  simp only [bind, StateT.bind, h]
  rfl

theorem run_forM_of_ok (h : (f a).run s = (.ok (), s₁)) :
    (forM (a :: as) f).run s = (forM as f).run s₁ := by
  rw [List.forM_cons, run_bind_of_ok h]

theorem run_forM_of_error (h : (f a).run s = (.error failure, s₁)) :
    (forM (a :: as) f).run s = (.error failure, s₁) := by
  rw [List.forM_cons, run_bind_of_error h]

theorem run_forM_of_split {before behind : List α} (has : as = before ++ a :: behind)
    (hbefore : (forM before f).run s = (.ok (), s₁)) (ha : (f a).run s₁ = (.error failure, s₂)) :
    (forM as f).run s = (.error failure, s₂) := by
  rw [has, List.forM_append, run_bind_of_ok hbefore, run_forM_of_error ha]

/-- What comes of an action for the elements of a list, with the elements for which it has been
run: it succeeds for all of them, or the first failure ends the run. -/
inductive FailFast (f : α → ExceptT ε (StateM σ) Unit) (as : List α) (s : σ) :
    List α → Except ε Unit → σ → Prop
  | passed {s₁ : σ} (hrun : (forM as f).run s = (.ok (), s₁)) : FailFast f as s as (.ok ()) s₁
  | failed {before behind : List α} {a : α} {failure : ε} {s₁ s₂ : σ}
    (has : as = before ++ a :: behind) (hrun : (forM before f).run s = (.ok (), s₁))
    (hfail : (f a).run s₁ = (.error failure, s₂)) :
    FailFast f as s (before ++ [a]) (.error failure) s₂

namespace FailFast

theorem called_prefix (h : FailFast f as s called outcome s₁) : called <+: as := by
  cases h with
  | passed => exact List.prefix_refl _
  | failed has =>
    rw [has]
    exact (List.prefix_append_right_inj _).2 (List.prefix_append [_] _)

theorem cons (hrun : (f a).run s = (.ok (), s₁)) (h : FailFast f as s₁ called outcome s₂) :
    FailFast f (a :: as) s (a :: called) outcome s₂ := by
  cases h with
  | passed hrest => exact passed (by rw [run_forM_of_ok hrun, hrest])
  | failed has hrest hfail =>
    exact failed (congrArg (a :: ·) has) (by rw [run_forM_of_ok hrun, hrest]) hfail

end FailFast

/-- The same action with a log of the elements for which it has been run. -/
def logged (f : α → ExceptT ε (StateM σ) Unit) (a : α) : ExceptT ε (StateM (List α × σ)) Unit :=
  ExceptT.mk fun (called, s) =>
    let (outcome, s) := (f a).run s
    (outcome, called ++ [a], s)

theorem run_logged (h : (f a).run s = (outcome, s₁)) :
    (logged f a).run (called, s) = (outcome, called ++ [a], s₁) := by
  have hrun : (logged f a).run (called, s) =
      (((f a).run s).1, called ++ [a], ((f a).run s).2) := rfl
  rw [hrun, h]

/-- There is an outcome for every list, and the log tells for which elements the action has been
run. -/
theorem exists_failFast (f : α → ExceptT ε (StateM σ) Unit) (as : List α) (s : σ) :
    ∃ called outcome s₁, FailFast f as s called outcome s₁ ∧
      (forM as f).run s = (outcome, s₁) ∧
      ∀ log, (forM as (logged f)).run (log, s) = (outcome, log ++ called, s₁) := by
  induction as generalizing s with
  | nil =>
    refine ⟨[], .ok (), s, .passed rfl, rfl, fun log => ?_⟩
    rw [List.append_nil]
    rfl
  | cons a as ih =>
    cases ha : (f a).run s with
    | mk outcome s₁ =>
      cases outcome with
      | ok _ =>
        obtain ⟨called, outcome, s₂, hcalls, hrun, hlogged⟩ := ih s₁
        refine ⟨a :: called, outcome, s₂, hcalls.cons ha, by rw [run_forM_of_ok ha, hrun],
          fun log => ?_⟩
        rw [run_forM_of_ok (run_logged ha), hlogged, List.append_assoc, List.singleton_append]
      | error failure =>
        have has : a :: as = [] ++ a :: as := rfl
        exact ⟨[a], .error failure, s₁, .failed has rfl ha, run_forM_of_error ha,
          fun log => run_forM_of_error (run_logged ha)⟩

/-- Whether an action fails for just the elements with a property, whatever the state. -/
def FailsOn (f : α → ExceptT ε (StateM σ) Unit) (p : α → Bool) : Prop :=
  ∀ a s, (∃ failure, ((f a).run s).1 = .error failure) ↔ p a = true

namespace FailsOn

theorem eq_true (h : FailsOn f p) (ha : (f a).run s = (.error failure, s₁)) : p a = true :=
  (h a s).1 ⟨failure, by rw [ha]⟩

theorem eq_false (h : FailsOn f p) (ha : (f a).run s = (.ok (), s₁)) : p a = false := by
  refine Bool.eq_false_iff.2 fun hp => ?_
  obtain ⟨failure, hfailure⟩ := (h a s).2 hp
  rw [ha] at hfailure
  cases hfailure

theorem all_eq_false (h : FailsOn f p) (has : (forM as f).run s = (.ok (), s₁)) :
    ∀ a ∈ as, p a = false := by
  induction as generalizing s with
  | nil => nofun
  | cons a as ih =>
    cases ha : (f a).run s with
    | mk outcome s₂ =>
      cases outcome with
      | ok _ =>
        rw [run_forM_of_ok ha] at has
        exact List.forall_mem_cons.2 ⟨h.eq_false ha, ih has⟩
      | error failure =>
        rw [run_forM_of_error ha] at has
        cases has

theorem called_eq (h : FailsOn f p) (hcalls : FailFast f as s called outcome s₁) :
    called = as.takeWhile (fun a => !p a) ++ (as.find? p).toList ∧
      (outcome = .ok () ↔ as.find? p = none) := by
  cases hcalls with
  | passed hrun =>
    have hnone := h.all_eq_false hrun
    have hfind : as.find? p = none := List.find?_eq_none.2 fun a ha => by simp [hnone a ha]
    have htake : as.takeWhile (fun a => !p a) = as :=
      List.takeWhile_eq_self_iff.2 fun a ha => by simp [hnone a ha]
    simp [hfind, htake]
  | @failed before behind a failure s₂ s₃ has hrun hfail =>
    have hnone := h.all_eq_false hrun
    have ha := h.eq_true hfail
    have hfind : as.find? p = some a :=
      List.find?_eq_some_iff_append.2 ⟨ha, before, behind, has, fun b hb => by simp [hnone b hb]⟩
    have htake : as.takeWhile (fun a => !p a) = before := by
      rw [has, List.takeWhile_append_of_pos fun b hb => by simp [hnone b hb]]
      simp [ha]
    simp [hfind, htake]

end FailsOn

end FailFast

end SourceModel
