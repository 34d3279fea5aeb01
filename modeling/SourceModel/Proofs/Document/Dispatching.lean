import SourceModel.Proofs.Document.Tracking

/-!
# Dispatching over time

Whatever is asked of a dispatcher, and whatever its client does, the client is asked for each type
once between two disposals and never for the type of an error. A handler is released each time its
type stops being the active one and at no other time, and after a disposal no handler is handed out
that was made before it.
-/

namespace SourceModel

variable {σ η : Type}

open SectionDispatcher (Call Logs handing)

def SectionDispatcher.Call.notes (answer : Option (Nat × η)) : Call η → List DispatchEvent
  | handlerAt _ _ _ => answer.toList.map fun handed => .handed handed.1
  | dispose => [.disposed]

/-- A dispatcher with a tracked factory, the state of its client, and the log so far. -/
structure DispatchTrace (σ η : Type) where
  dispatcher : SectionDispatcher (σ × List DispatchEvent) (Nat × η)
  client : σ
  log : List DispatchEvent := []

namespace DispatchTrace

open DispatchEvent

def start (sections : ContentSections) (f : HandlerFactory σ η) (client : σ) :
    DispatchTrace σ η where
  dispatcher := { sections, factory := f.tracked }
  client := client

def call (t : DispatchTrace σ η) (c : Call η) : Option (Nat × η) × DispatchTrace σ η :=
  let answered := (t.dispatcher.call c.numbered).run (t.client, t.log)
  (answered.1.1,
    { dispatcher := answered.1.2
      client := answered.2.1
      log := c.notes answered.1.1 ++ answered.2.2 })

private theorem call_handlerAt (t : DispatchTrace σ η) (document : TextDocument) (offset : Int)
    (change : η → η) :
    (t.dispatcher.call (Call.handlerAt document offset change).numbered).run (t.client, t.log) =
      if t.dispatcher.sections.typeAt document offset = ContentSections.errorType then
        ((none, (t.dispatcher.deactivate.run (t.client, t.log)).1),
          (t.dispatcher.deactivate.run (t.client, t.log)).2)
      else
        let type := t.dispatcher.sections.typeAt document offset
        let active := (t.dispatcher.activate type).run (t.client, t.log)
        let ensured := (active.1.ensureHandler type).run active.2
        (ensured.1.letAct type (handing (Prod.map id change)), ensured.2) :=
  t.dispatcher.useHandlerAt_run document offset (handing (Prod.map id change)) (t.client, t.log)

def after (t : DispatchTrace σ η) (calls : List (Call η)) : DispatchTrace σ η :=
  calls.foldl (fun t c => (t.call c).2) t

def activeNumber? (t : DispatchTrace σ η) : Option Nat :=
  t.dispatcher.activeHandler?.map fun active => active.2.1

def DeclinedSince (type : String) (log : List DispatchEvent) : Prop :=
  ∃ newer older, log = newer ++ declined type :: older ∧ disposed ∉ newer

/-- Since the last disposal the client has made the handler with a number for a type. -/
def MadeSince (type : String) (n : Nat) (log : List DispatchEvent) : Prop :=
  ∃ newer older, log = newer ++ made type :: older ∧ n = older.length ∧ disposed ∉ newer

/-- How a dispatcher goes about its handlers, by its log and by what comes next. -/
structure Dispatches (sections : ContentSections) (t : DispatchTrace σ η) : Prop where
  /-- Between two requests for a type there is a disposal. -/
  asked_once : ∀ newer e between e' older type, t.log = newer ++ e :: (between ++ e' :: older) →
    e.asked? = some type → e'.asked? = some type → disposed ∈ between
  asked_ne_errorType : ∀ e ∈ t.log, e.asked? ≠ some ContentSections.errorType
  /-- A handler other than the active one has been released since it was handed out. -/
  released_since : ∀ newer n older, t.log = newer ++ handed n :: older →
    t.activeNumber? ≠ some n → released n ∈ newer
  /-- Between two releases a handler is handed out. -/
  handed_between : ∀ newer n between older,
    t.log = newer ++ released n :: (between ++ released n :: older) → handed n ∈ between
  /-- A handler that is handed out behind a disposal has been made behind it. -/
  made_since : ∀ newer n between older,
    t.log = newer ++ handed n :: (between ++ disposed :: older) →
      ∃ type later earlier, between = later ++ made type :: earlier ∧
        n = (earlier ++ disposed :: older).length
  /-- A call gives no handler just if the type is that of an error or has been declined. -/
  answer_eq_none_iff : ∀ document offset change,
    (t.call (.handlerAt document offset change)).1 = none ↔
      sections.typeAt document offset = ContentSections.errorType ∨
        DeclinedSince (sections.typeAt document offset)
          (t.call (.handlerAt document offset change)).2.log
  madeSince_of_answer : ∀ document offset change n handler,
    (t.call (.handlerAt document offset change)).1 = some (n, handler) →
      MadeSince (sections.typeAt document offset) n
        (t.call (.handlerAt document offset change)).2.log
  active_handlerAt : ∀ document offset change,
    (t.call (.handlerAt document offset change)).2.dispatcher.active? =
      if sections.typeAt document offset = ContentSections.errorType then none
      else some (sections.typeAt document offset)
  active_dispose : (t.call .dispose).2.dispatcher.active? = none
  /-- A call releases the handler of the active type, once, just if the type stops being active. -/
  releases : ∀ c, GoesOn
    (if (t.call c).2.dispatcher.active? = t.dispatcher.active? then none else t.activeNumber?)
    t.log (t.call c).2.log

structure Traced (sections : ContentSections) (f : HandlerFactory σ η) (t : DispatchTrace σ η) :
    Prop where
  logs : Logs sections f t.dispatcher t.log
  keeps : Keeps t.dispatcher.active? t.log

section Traced

variable {sections : ContentSections} {f : HandlerFactory σ η} {t : DispatchTrace σ η}

private theorem traced_start (client : σ) : Traced sections f (start sections f client) where
  logs := ⟨rfl, rfl, fun _ => rfl⟩
  keeps := keeps_nil

private theorem Traced.activeNumber?_eq (h : Traced sections f t) :
    DispatchEvent.activeNumber? t.dispatcher.active? t.log = t.activeNumber? :=
  h.logs.activeNumber?_eq

private theorem Traced.deactivated (h : Traced sections f t) :
    let inactive := t.dispatcher.deactivate.run (t.client, t.log)
    Logs sections f inactive.1 inactive.2.2 ∧ inactive.1.active? = none ∧
      Keeps none inactive.2.2 ∧ GoesOn t.activeNumber? t.log inactive.2.2 := by
  obtain ⟨hlogs, hactive, hlog⟩ := h.logs.deactivate (s := t.client)
  have hkeeps := h.keeps.deactivate
  have hgoes : GoesOn (DispatchEvent.activeNumber? t.dispatcher.active? t.log) t.log
      (DispatchEvent.releases t.dispatcher.active? t.log ++ t.log) := goesOn_releases
  rw [h.activeNumber?_eq] at hgoes
  rw [← hlog] at hkeeps hgoes
  exact ⟨hlogs, hactive, hkeeps, hgoes⟩

private theorem Traced.dispose (h : Traced sections f t) :
    Traced sections f (t.call .dispose).2 ∧ (t.call .dispose).2.dispatcher.active? = none ∧
      GoesOn t.activeNumber? t.log (t.call .dispose).2.log := by
  obtain ⟨hlogs, hactive, hkeeps, hgoes⟩ := h.deactivated
  refine ⟨⟨⟨hlogs.sections_eq, hlogs.factory_eq, fun _ => rfl⟩, ?_⟩, hactive, hgoes.cons nofun⟩
  change Keeps (t.dispatcher.deactivate.run (t.client, t.log)).1.active? _
  rw [hactive]
  exact hkeeps.disposed

/-- Behind the request for a handler the client has been asked for its type, and nothing has been
released but the handler of another type. -/
theorem Traced.ensured (h : Traced sections f t) {type : String}
    (hne : type ≠ ContentSections.errorType) :
    let active := (t.dispatcher.activate type).run (t.client, t.log)
    let ensured := (active.1.ensureHandler type).run active.2
    Logs sections f ensured.1 ensured.2.2 ∧ ensured.1.active? = some type ∧
      noted type ensured.2.2 ≠ none ∧
      (∃ active?, (active? = some type ∨ active? = none) ∧ Keeps active? ensured.2.2) ∧
      GoesOn (if t.dispatcher.active? = some type then none else t.activeNumber?) t.log
        ensured.2.2 := by
  intro active ensured
  obtain ⟨hlogs, hactive, hlog⟩ := h.logs.activate (s := t.client) type
  obtain ⟨hlogs', hactive', hasked⟩ := hlogs.ensureHandler (s := active.2.1) type
  refine ⟨hlogs', hactive'.trans hactive, ?_⟩
  change active.2.2 = _ at hlog
  by_cases hsame : t.dispatcher.active? = some type
  · rw [if_pos hsame, List.nil_append] at hlog
    rw [if_pos hsame]
    have hkeeps := h.keeps
    rw [hsame] at hkeeps
    have hnoted := hkeeps.noted_active type rfl
    rcases hasked with ⟨hensured, -⟩ | ⟨hnone, -⟩
    · change ensured.2.2 = active.2.2 at hensured
      rw [hensured, hlog]
      exact ⟨hnoted, ⟨_, .inl rfl, hkeeps⟩, GoesOn.refl⟩
    · change noted type active.2.2 = none at hnone
      rw [hlog] at hnone
      exact absurd hnone hnoted
  · obtain ⟨-, -, hkeeps, hgoes⟩ := h.deactivated
    rw [if_neg hsame, ← (h.logs.deactivate (s := t.client)).2.2] at hlog
    rw [if_neg hsame]
    rw [← hlog] at hkeeps hgoes
    rcases hasked with ⟨hensured, hnoted⟩ | ⟨hnone, e, hensured, he⟩
    · change ensured.2.2 = active.2.2 at hensured
      rw [hensured]
      exact ⟨hnoted, ⟨_, .inr rfl, hkeeps⟩, hgoes⟩
    · change ensured.2.2 = e :: active.2.2 at hensured
      rw [hensured]
      refine ⟨?_, ⟨_, .inr rfl, hkeeps.asked hne hnone he⟩, hgoes.cons ?_⟩
      · rcases he with rfl | rfl <;> simp [noted]
      · rcases he with rfl | rfl <;> simp

private theorem Traced.handlerAt_error (h : Traced sections f t) {document : TextDocument}
    {offset : Int} (change : η → η)
    (herror : sections.typeAt document offset = ContentSections.errorType) :
    Traced sections f (t.call (.handlerAt document offset change)).2 ∧
      (t.call (.handlerAt document offset change)).2.dispatcher.active? = none ∧
      (t.call (.handlerAt document offset change)).1 = none ∧
      GoesOn t.activeNumber? t.log (t.call (.handlerAt document offset change)).2.log := by
  obtain ⟨hlogs, hactive, hkeeps, hgoes⟩ := h.deactivated
  have hrun := t.call_handlerAt document offset change
  rw [h.logs.sections_eq, if_pos herror] at hrun
  simp only [DispatchTrace.call, hrun]
  exact ⟨⟨hlogs, hactive ▸ hkeeps⟩, hactive, trivial, hgoes⟩

private theorem Traced.handlerAt (h : Traced sections f t) {document : TextDocument} {offset : Int}
    (change : η → η)
    (herror : sections.typeAt document offset ≠ ContentSections.errorType) :
    let type := sections.typeAt document offset
    let answered := t.call (.handlerAt document offset change)
    Traced sections f answered.2 ∧ answered.2.dispatcher.active? = some type ∧
      answered.1.map Prod.fst = (noted type answered.2.log).join ∧
      noted type answered.2.log ≠ none ∧
      GoesOn (if t.dispatcher.active? = some type then none else t.activeNumber?) t.log
        answered.2.log := by
  have hensured := h.ensured herror
  have hrun := t.call_handlerAt document offset change
  rw [h.logs.sections_eq, if_neg herror] at hrun
  generalize sections.typeAt document offset = type at hensured hrun ⊢
  simp only at hensured hrun
  generalize (((t.dispatcher.activate type).run (t.client, t.log)).1.ensureHandler type).run
    ((t.dispatcher.activate type).run (t.client, t.log)).2 = ensured at hensured hrun
  obtain ⟨d, client, log⟩ := ensured
  obtain ⟨hlogs, hactive, hnoted, ⟨active?, hcase, hkeeps⟩, hgoes⟩ := hensured
  obtain ⟨hacted, hactive', hanswer⟩ := hlogs.letAct type change
  rw [hactive] at hactive'
  have hcall : t.call (.handlerAt document offset change) =
      ((d.letAct type (handing (Prod.map id change))).1,
        ⟨(d.letAct type (handing (Prod.map id change))).2, client, hands type log ++ log⟩) := by
    have hnotes : hands type log = Call.notes (d.letAct type (handing (Prod.map id change))).1
        (Call.handlerAt document offset change) := by
      unfold DispatchEvent.hands
      rw [← hanswer]
      cases (d.letAct type (handing (Prod.map id change))).1 <;> rfl
    simp only [DispatchTrace.call, hrun, hnotes]
  rw [hcall]
  simp only [noted_hands]
  refine ⟨⟨⟨hacted.sections_eq, hacted.factory_eq, fun key => ?_⟩, ?_⟩, hactive', hanswer, hnoted,
    hgoes.hands⟩
  · rw [← hacted.noted_eq]
    exact noted_hands
  · simp only [hactive']
    exact hkeeps.handed hcase hnoted

private theorem Traced.call (h : Traced sections f t) (c : Call η) :
    Traced sections f (t.call c).2 := by
  cases c with
  | dispose => exact h.dispose.1
  | handlerAt document offset change =>
    by_cases herror : sections.typeAt document offset = ContentSections.errorType
    · exact (h.handlerAt_error change herror).1
    · exact (h.handlerAt change herror).1

private theorem Traced.after (h : Traced sections f t) (calls : List (Call η)) :
    Traced sections f (t.after calls) := by
  induction calls generalizing t with
  | nil => exact h
  | cons c calls ih => exact ih (h.call c)

private theorem released_of_inactive :
    (if none = t.dispatcher.active? then none else t.activeNumber?) = t.activeNumber? := by
  split
  · rename_i hactive
    rw [activeNumber?, SectionDispatcher.activeHandler?, ← hactive]
    rfl
  · rfl

private theorem Traced.dispatches (h : Traced sections f t) : Dispatches sections t where
  asked_once := by
    intro newer e between e' older type hlog he he'
    by_contra hmem
    have hfollows : Follows (between ++ e' :: older) e := (hlog ▸ h.keeps.ordered).follows
    have hnoted : noted type (between ++ e' :: older) ≠ none := noted_ne_none he' hmem
    cases e with
    | made other | declined other =>
      cases he
      exact hnoted hfollows.2
    | handed n | released n | disposed => cases he
  asked_ne_errorType := by
    intro e hmem he
    obtain ⟨newer, older, hlog⟩ := List.append_of_mem hmem
    have hfollows : Follows older e := (hlog ▸ h.keeps.ordered).follows
    cases e with
    | made other | declined other => exact hfollows.1 (Option.some.inj he)
    | handed n | released n | disposed => cases he
  released_since := by
    intro newer n older hlog hne
    by_contra hmem
    have huse : InUse n (newer ++ handed n :: older) := inUse_of_handed hmem
    rw [← hlog, h.keeps.inUse_iff, h.activeNumber?_eq] at huse
    exact hne huse
  handed_between := by
    intro newer n between older hlog
    have hfollows : InUse n (between ++ released n :: older) := (hlog ▸ h.keeps.ordered).follows
    exact handed_mem_of_inUse hfollows
  made_since := by
    intro newer n between older hlog
    obtain ⟨type, hnoted⟩ : Follows (between ++ disposed :: older) (handed n) :=
      (hlog ▸ h.keeps.ordered).follows
    exact ⟨type, exists_made hnoted⟩
  answer_eq_none_iff := by
    intro document offset change
    by_cases herror : sections.typeAt document offset = ContentSections.errorType
    · obtain ⟨-, -, hanswer, -⟩ := h.handlerAt_error change herror
      exact iff_of_true hanswer (.inl herror)
    · obtain ⟨htraced, -, hanswer, hnoted, -⟩ := h.handlerAt change herror
      rw [or_iff_right herror, DeclinedSince, ← htraced.keeps.ordered.noted_eq_none_iff,
        ← Option.map_eq_none_iff (f := Prod.fst), hanswer, Option.join_eq_none_iff,
        or_iff_right hnoted]
  madeSince_of_answer := by
    intro document offset change n handler hanswer
    by_cases herror : sections.typeAt document offset = ContentSections.errorType
    · obtain ⟨-, -, hnone, -⟩ := h.handlerAt_error change herror
      cases hnone.symm.trans hanswer
    · obtain ⟨-, -, hnumber, -, -⟩ := h.handlerAt change herror
      rw [hanswer] at hnumber
      obtain ⟨newer, e, older, hlog, hnewer, ⟨rfl, hn⟩ | ⟨-, hn⟩⟩ :=
        noted_eq_some (Option.join_eq_some_iff.1 hnumber.symm)
      · exact ⟨newer, older, hlog, Option.some.inj hn, hnewer⟩
      · cases hn
  active_handlerAt := by
    intro document offset change
    split
    · rename_i herror
      exact (h.handlerAt_error change herror).2.1
    · rename_i herror
      exact (h.handlerAt change herror).2.1
  active_dispose := h.dispose.2.1
  releases := by
    intro c
    cases c with
    | dispose =>
      obtain ⟨-, hactive, hgoes⟩ := h.dispose
      rw [hactive, released_of_inactive]
      exact hgoes
    | handlerAt document offset change =>
      by_cases herror : sections.typeAt document offset = ContentSections.errorType
      · obtain ⟨-, hactive, -, hgoes⟩ := h.handlerAt_error change herror
        rw [hactive, released_of_inactive]
        exact hgoes
      · obtain ⟨-, hactive, -, -, hgoes⟩ := h.handlerAt change herror
        rw [hactive]
        simpa only [eq_comm] using hgoes

private theorem Traced.plain (h : Traced sections f t) (c : Call η) :
    ((t.dispatcher.plain f).call c).run t.client =
      (((t.call c).1.map Prod.snd, (t.call c).2.dispatcher.plain f), (t.call c).2.client) :=
  h.logs.call_plain c t.client

private theorem Traced.plain_after (h : Traced sections f t) (calls : List (Call η)) :
    ((t.dispatcher.plain f).after calls).run t.client =
      ((t.after calls).dispatcher.plain f, (t.after calls).client) := by
  induction calls generalizing t with
  | nil => rfl
  | cons c calls ih =>
    change ((((t.dispatcher.plain f).call c).run t.client).1.2.after calls).run
      (((t.dispatcher.plain f).call c).run t.client).2 = _
    rw [h.plain c]
    exact ih (h.call c)

/-- However a dispatcher has been used, and whatever its client does, it goes about its handlers as
told by `Dispatches`; and its answers, its handlers and the states of the client are those of a
dispatcher that keeps no log. -/
theorem dispatches_after (sections : ContentSections) (f : HandlerFactory σ η) (client : σ)
    (calls : List (Call η)) :
    let t := (start sections f client).after calls
    Dispatches sections t ∧
      (({ sections, factory := f } : SectionDispatcher σ η).after calls).run client =
        (t.dispatcher.plain f, t.client) ∧
      ∀ c, ((t.dispatcher.plain f).call c).run t.client =
        (((t.call c).1.map Prod.snd, (t.call c).2.dispatcher.plain f), (t.call c).2.client) := by
  intro t
  have hstart : Traced sections f (start sections f client) := traced_start client
  have htraced : Traced sections f t := hstart.after calls
  exact ⟨htraced.dispatches, hstart.plain_after calls, htraced.plain⟩

end Traced

def quotedText : TextDocument where
  text := "ab'c'd"
  partitions :=
    [("parts", [⟨⟨0, 2, by decide⟩, "CODE"⟩, ⟨⟨2, 3, by decide⟩, "TEXT"⟩,
      ⟨⟨5, 1, by decide⟩, "CODE"⟩])]

/-- Code, text, code again, nothing, a disposal, and once more code. -/
def codeAndText : List (Call String) :=
  [.handlerAt quotedText 0 id, .handlerAt quotedText 3 id, .handlerAt quotedText 5 id,
    .handlerAt quotedText (-1) id, .dispose, .handlerAt quotedText 0 id]

/-- Code is handed out three times and released twice, and text is declined. Behind the disposal the
handler for code is made anew, and it is the active one. -/
theorem dispatches_after_codeAndText :
    let sections : ContentSections :=
      { partitioning := "parts", primary := "CODE", byPartition := [("TEXT", "TEXT")] }
    let t := (start sections (.recording ["TEXT"]) []).after codeAndText
    t.log = [.handed 7, .made "CODE", .disposed, .released 0, .handed 0, .declined "TEXT",
        .released 0, .handed 0, .made "CODE"] ∧
      t.activeNumber? = some 7 ∧
      disposed ∈ [disposed, released 0, handed 0, declined "TEXT", released 0, handed 0] ∧
      released 0 ∈ [handed 7, made "CODE", disposed, released 0] ∧
      handed 0 ∈ [handed 0, declined "TEXT"] ∧
      (∃ type later earlier, [made "CODE"] = later ++ made type :: earlier ∧
        7 = (earlier ++ [disposed, released 0, handed 0, declined "TEXT", released 0, handed 0,
          made "CODE"]).length) ∧
      (t.call (.handlerAt quotedText 3 id)).1 = none := by
  intro sections t
  have hlog : t.log = [.handed 7, .made "CODE", .disposed, .released 0, .handed 0,
    .declined "TEXT", .released 0, .handed 0, .made "CODE"] := by decide
  obtain ⟨hdispatches, -, -⟩ := dispatches_after sections (.recording ["TEXT"]) [] codeAndText
  refine ⟨hlog, by decide, ?_, ?_, ?_, ?_, ?_⟩
  · exact hdispatches.asked_once [_] _ _ _ [] "CODE" hlog rfl rfl
  · exact hdispatches.released_since _ 0 _ hlog (by decide)
  · exact hdispatches.handed_between [_, _, _] 0 _ _ hlog
  · exact hdispatches.made_since [] 7 [_] _ hlog
  · exact (hdispatches.answer_eq_none_iff quotedText 3 id).2
      (.inr ⟨[], released 7 :: t.log, by decide, List.not_mem_nil⟩)

end DispatchTrace

end SourceModel
