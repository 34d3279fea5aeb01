import SourceModel.Proofs.Calc.Problems
import SourceModel.Proofs.Calc.Tiling
import SourceModel.Proofs.Sorting

/-!
# Faults in source order

The parser reports its faults in the order in which they start in the source. So the faults of the
grammar come out of the sorted list of all faults in the order in which they were reported. Behind
a semicolon nothing is reported about what stands before it.
-/

namespace SourceModel.Calc

section LastStop

variable {lo hi stop : Nat} {t : Token} {ts us blanks : List Token}

theorem le_lastStop (h : Tiles lo hi ts) (hstop : stop ≤ lo) :
    stop ≤ lastStop stop ts ∧ lastStop stop ts ≤ hi := by
  induction ts generalizing lo stop with
  | nil => exact ⟨Nat.le_refl _, h ▸ hstop⟩
  | cons t ts ih =>
    obtain ⟨hstart, hlt, hrest⟩ := h
    by_cases ht : t.isTrivia = true
    · have hskip := @ih t.stop stop hrest (by omega)
      simpa [lastStop, ht] using hskip
    · rw [lastStop_cons ht]
      have htail := ih hrest (Nat.le_refl _)
      omega

theorem lastStop_next (hb : ∀ b ∈ blanks, b.isTrivia) (ht : ¬ t.isTrivia) :
    lastStop stop (blanks ++ t :: ts) = lastStop t.stop ts := by
  rw [lastStop_append, lastStop_trivia hb, lastStop_cons ht]

end LastStop

/-- Whether faults start one after the other between two offsets. -/
def Ascending (lo hi : Nat) : List Diagnostic → Prop
  | [] => lo ≤ hi
  | f :: fs => lo ≤ f.start ∧ Ascending f.start hi fs

section Ascending

variable {lo lo' mid hi hi' : Nat} {f : Diagnostic} {fs gs : List Diagnostic}

private theorem Ascending.le (h : Ascending lo hi fs) : lo ≤ hi := by
  induction fs generalizing lo with
  | nil => exact h
  | cons f fs ih => exact Nat.le_trans h.1 (ih h.2)

private theorem Ascending.mono (h : Ascending lo hi fs) (hlo : lo' ≤ lo) (hhi : hi ≤ hi') :
    Ascending lo' hi' fs := by
  induction fs generalizing lo lo' with
  | nil => exact Nat.le_trans hlo (Nat.le_trans h hhi)
  | cons f fs ih => exact ⟨Nat.le_trans hlo h.1, ih h.2 (Nat.le_refl _)⟩

private theorem Ascending.append (h : Ascending lo mid fs) (h' : Ascending mid hi gs) :
    Ascending lo hi (fs ++ gs) := by
  induction fs generalizing lo with
  | nil => exact h'.mono h (Nat.le_refl _)
  | cons f fs ih => exact ⟨h.1, ih h.2⟩

private theorem Ascending.mem (h : Ascending lo hi fs) (hf : f ∈ fs) :
    lo ≤ f.start ∧ f.start ≤ hi := by
  induction fs generalizing lo with
  | nil => cases hf
  | cons g fs ih =>
    rcases List.mem_cons.1 hf with rfl | hf
    · exact ⟨h.1, h.2.le⟩
    · have hmem := ih h.2 hf
      exact ⟨Nat.le_trans h.1 hmem.1, hmem.2⟩

private theorem Ascending.pairwise (h : Ascending lo hi fs) :
    fs.Pairwise fun f g => f.start ≤ g.start := by
  induction fs generalizing lo with
  | nil => exact .nil
  | cons f fs ih => exact List.pairwise_cons.2 ⟨fun g hg => (h.2.mem hg).1, ih h.2⟩

end Ascending

section Readings

variable {p : Phrase} {stop lo hi : Nat} {ts : List Token} {is : List Cst} {fs : List Diagnostic}

/-- What a reading reports starts in the order of the source, between the last significant token
before and the last one that is read. -/
theorem Reads.ascending (h : Reads p stop ts is fs) (ht : Tiles lo hi ts) (hstop : stop ≤ lo) :
    Ascending stop (lastStop stop ts) fs := by
  induction h generalizing lo hi with
  | skip blank _ ih =>
    obtain ⟨mid, hb, hts⟩ := tiles_append.1 ht
    rw [lastStop_append, lastStop_trivia blank]
    exact ih hts (Nat.le_trans hstop hb.le)
  | literal | nameRef | template | found | chunk | closedChunk | done =>
    exact (le_lastStop ht hstop).1
  | @paren _ o ts us _ _ _ _ kind _ _ ih ih' =>
    have hlast := (le_lastStop ht hstop).1
    obtain ⟨hstart, hlt, hrest⟩ := ht
    obtain ⟨mid, hts, hus⟩ := tiles_append.1 hrest
    rw [lastStop_cons (significant_of_kind kind rfl), lastStop_append]
    have hinner := ih hts (Nat.le_refl _)
    have hclose := ih' hus (le_lastStop hts (Nat.le_refl _)).2
    exact (hinner.append hclose).mono (by omega) (Nat.le_refl _)
  | lacking => exact ⟨Nat.le_refl _, Nat.le_refl _⟩
  | missing => exact ⟨Nat.le_refl _, Nat.le_refl _⟩
  | misplaced message kind =>
    obtain ⟨hstart, hlt, -⟩ := ht
    rw [lastStop_cons (significant_of_kind rfl (isTrivia_of_isMisplaced kind))]
    exact ⟨Nat.le_trans hstop (Nat.le_of_eq hstart.symm), Nat.le_of_lt hlt⟩
  | lift _ _ ih => exact ih ht hstop
  | join blank joins _ _ ih ih' =>
    obtain ⟨mid, hts, hrest⟩ := tiles_append.1 ht
    obtain ⟨mid', hb, hstart, hlt, hus⟩ := tiles_append.1 hrest
    have hfirst := ih hts hstop
    have hle := (le_lastStop hts hstop).2
    have hmid := hb.le
    have hsecond := ih' hus (Nat.le_refl _)
    rw [lastStop_append, lastStop_next blank (significant_of_kind rfl (isTrivia_of_joins joins))]
    exact hfirst.append (hsecond.mono (by omega) (Nat.le_refl _))
  | assignment blank blank' kind kind' _ _ ih ih' =>
    obtain ⟨_, hb, hname, hnlt, hlater⟩ := tiles_append.1 ht
    obtain ⟨_, hb', heq, helt, hrest⟩ := tiles_append.1 hlater
    obtain ⟨mid, hts, hus⟩ := tiles_append.1 hrest
    have hle := hb.le
    have hle' := hb'.le
    have hvalue := ih hts (Nat.le_refl _)
    have hclose := ih' hus (le_lastStop hts (Nat.le_refl _)).2
    rw [lastStop_next blank (significant_of_kind kind rfl),
      lastStop_next blank' (significant_of_kind kind' rfl), lastStop_append]
    exact (hvalue.append hclose).mono (by omega) (Nat.le_refl _)
  | empty blank kind => exact ⟨Nat.le_refl _, (le_lastStop ht hstop).1⟩
  | value _ _ ih ih' =>
    obtain ⟨mid, hts, hus⟩ := tiles_append.1 ht
    have hclose := ih' hus (le_lastStop hts hstop).2
    rw [lastStop_append]
    exact (ih hts hstop).append hclose
  | stray blank kind _ ih =>
    obtain ⟨mid, hb, hstart, hlt, -⟩ := tiles_append.1 ht
    have hle := hb.le
    have hfirst := @ih lo _ rfl hstop
    rw [lastStop_next blank (significant_of_kind kind rfl)]
    refine hfirst.append ⟨?_, Nat.le_of_lt hlt⟩
    simp only [lastStop, List.foldl_nil]
    omega
  | later _ _ _ ih ih' =>
    obtain ⟨mid, hts, hus⟩ := tiles_append.1 ht
    have hlater := ih' hus (le_lastStop hts hstop).2
    rw [lastStop_append]
    exact (ih hts hstop).append hlater

/-! ## Semicolons -/

/-- Whether a phrase leaves semicolons to others. -/
def Phrase.spares : Phrase → Bool
  | factor | term | expr => true
  | closing kind _ => kind != .semicolon
  | statement | program => false

private theorem Phrase.spares_of_isChain {p : Phrase} (h : p.isChain) : p.spares := by
  cases p <;> first | rfl | cases h

theorem Reads.kind_ne_semicolon (h : Reads p stop ts is fs) (hp : p.spares) :
    ∀ t ∈ ts, t.kind ≠ .semicolon := by
  have htrivia : ∀ {blanks : List Token}, (∀ b ∈ blanks, b.isTrivia) →
      ∀ b ∈ blanks, b.kind ≠ .semicolon := by
    intro blanks hb b hm hk
    have ht := hb b hm
    rw [Token.isTrivia, hk] at ht
    cases ht
  induction h with
  | skip blank _ ih => exact List.forall_mem_append.2 ⟨htrivia blank, ih hp⟩
  | literal kind => rcases kind with kind | kind <;> simp [kind]
  | nameRef kind => simp [kind]
  | template kind => simp [kind]
  | paren kind _ _ ih ih' =>
    refine List.forall_mem_cons.2 ⟨by simp [kind], ?_⟩
    exact List.forall_mem_append.2 ⟨ih rfl, ih' rfl⟩
  | lacking | missing => simp
  | misplaced message kind =>
    refine List.forall_mem_singleton.2 fun hk => ?_
    rw [hk] at kind
    cases kind
  | @lift p _ _ _ _ chain _ ih => exact ih (by cases p <;> rfl)
  | @join p _ _ _ _ o _ _ _ _ blank joins _ _ ih ih' =>
    have ho : o.kind ≠ .semicolon := by
      intro hk
      rw [hk] at joins
      cases p <;> cases joins
    have hrhs : p.operand.spares := by cases p <;> rfl
    refine List.forall_mem_append.2 ⟨ih hp, List.forall_mem_append.2 ⟨htrivia blank, ?_⟩⟩
    exact List.forall_mem_cons.2 ⟨ho, ih' hrhs⟩
  | found blank closing same =>
    refine List.forall_mem_append.2 ⟨htrivia blank, List.forall_mem_singleton.2 ?_⟩
    rw [same]
    simpa [Phrase.spares] using hp
  | assignment | chunk | closedChunk | empty | value | stray | done | later => cases hp

private theorem Reads.faults_eq_nil (h : Reads p stop ts is fs) (hp : p = .program)
    (hts : ts = []) : fs = [] := by
  induction h with
  | skip _ _ ih => exact ih hp (List.append_eq_nil_iff.1 hts).2
  | done => rfl
  | later progress => exact absurd (List.append_eq_nil_iff.1 hts).1 progress
  | lift chain =>
    rw [hp] at chain
    cases chain
  | join _ joins =>
    rw [hp] at joins
    cases joins
  | _ => cases hp

private theorem Reads.start_le_of_mem (h : Reads p stop ts is fs) {mid : Nat} {us : List Token}
    (hts : Tiles lo mid ts) (hus : Tiles mid hi us) (hstop : stop ≤ lo) {s : Token} (hs : s ∈ us) :
    ∀ f ∈ fs, f.start ≤ s.start := by
  intro f hf
  have hle := ((h.ascending hts hstop).mem hf).2
  have hlast := (le_lastStop hts hstop).2
  have hfirst := (hus.mem hs).1
  omega

private theorem getLast?_append_cases {us : List Token} {s : Token}
    (h : (ts ++ us).getLast? = some s) : us.getLast? = some s ∨ us = [] ∧ ts.getLast? = some s := by
  rw [List.getLast?_append] at h
  cases hus : us.getLast? with
  | none =>
    rw [hus] at h
    exact .inr ⟨List.getLast?_eq_none_iff.1 hus, h⟩
  | some u =>
    rw [hus] at h
    exact .inl h

theorem Reads.start_le_of_semicolon (h : Reads p stop ts is fs) (hp : p.spares = false)
    (ht : Tiles lo hi ts) (hstop : stop ≤ lo) {s : Token} (hs : ts.getLast? = some s)
    (hk : s.kind = .semicolon) : ∀ f ∈ fs, f.start ≤ s.start := by
  have hspared : ∀ {p : Phrase} {stop : Nat} {ts : List Token} {is : List Cst}
      {fs : List Diagnostic}, Reads p stop ts is fs → p.spares → ts.getLast? ≠ some s :=
    fun h hp hm => h.kind_ne_semicolon hp s (List.mem_of_getLast? hm) hk
  have htrivia : ∀ {blanks : List Token}, (∀ b ∈ blanks, b.isTrivia) →
      blanks.getLast? ≠ some s := by
    intro blanks hb hm
    have hblank := hb s (List.mem_of_getLast? hm)
    rw [Token.isTrivia, hk] at hblank
    cases hblank
  -- `Reads.ascending` only bounds the starts by the end of the semicolon. The last part reads it,
  -- and then the parts in front end before it, or reads nothing and reports nothing.
  induction h generalizing lo hi with
  | skip blank _ ih =>
    obtain ⟨mid, hb, hts⟩ := tiles_append.1 ht
    rcases getLast?_append_cases hs with hs | ⟨-, hs⟩
    · exact ih hp hts (Nat.le_trans hstop hb.le) hs
    · exact absurd hs (htrivia blank)
  | literal | nameRef | template | paren | lacking | misplaced => cases hp
  | lift chain => exact absurd (Phrase.spares_of_isChain chain) (by simp [hp])
  | join _ joins =>
    exact absurd (Phrase.spares_of_isChain (Phrase.isChain_of_joins joins)) (by simp [hp])
  | found | chunk | closedChunk | done => simp
  | missing => cases hs
  | @assignment _ blanks later ts us name eq _ _ _ _ _ _ _ kind' hv _ _ ih' =>
    obtain ⟨_, hb, hname, hnlt, hlater⟩ := tiles_append.1 ht
    obtain ⟨_, hb', heq, helt, hrest⟩ := tiles_append.1 hlater
    obtain ⟨mid, hts, hus⟩ := tiles_append.1 hrest
    have hlast : us.getLast? = some s := by
      have hrest : (ts ++ us).getLast? = some s := by
        have happend : (blanks ++ name :: later ++ [eq] ++ (ts ++ us)).getLast? = some s := by
          simpa using hs
        rcases getLast?_append_cases happend with hs | ⟨-, hs⟩
        · exact hs
        · rw [List.getLast?_concat] at hs
          cases hs
          rw [hk] at kind'
          cases kind'
      rcases getLast?_append_cases hrest with hs | ⟨-, hs⟩
      · exact hs
      · exact absurd hs (hspared hv rfl)
    refine List.forall_mem_append.2 ⟨?_, ih' rfl hus (le_lastStop hts (Nat.le_refl _)).2 hlast⟩
    exact hv.start_le_of_mem hts hus (Nat.le_refl _) (List.mem_of_getLast? hlast)
  | empty blank kind =>
    have hmem := (ht.mem (List.mem_of_getLast? hs)).1
    exact List.forall_mem_singleton.2 (Nat.le_trans hstop hmem)
  | value hv _ _ ih' =>
    obtain ⟨mid, hts, hus⟩ := tiles_append.1 ht
    rcases getLast?_append_cases hs with hs | ⟨-, hs⟩
    · refine List.forall_mem_append.2 ⟨?_, ih' rfl hus (le_lastStop hts hstop).2 hs⟩
      exact hv.start_le_of_mem hts hus hstop (List.mem_of_getLast? hs)
    · exact absurd hs (hspared hv rfl)
  | @stray _ _ t _ _ blank kind =>
    rw [List.getLast?_concat] at hs
    cases hs
    rw [hk] at kind
    cases kind
  | later _ hv hw ih ih' =>
    obtain ⟨mid, hts, hus⟩ := tiles_append.1 ht
    rcases getLast?_append_cases hs with hs | ⟨hnil, hs⟩
    · refine List.forall_mem_append.2 ⟨?_, ih' rfl hus (le_lastStop hts hstop).2 hs⟩
      exact hv.start_le_of_mem hts hus hstop (List.mem_of_getLast? hs)
    · rw [hw.faults_eq_nil rfl hnil, List.append_nil]
      exact ih rfl hts hstop hs

end Readings

/-! ## Texts -/

/-- The faults of a text are sorted by where they start. -/
theorem faults_parse (source : String) :
    (parse source).faults = sortOn Diagnostic.start
      (lexicalFaults source ++ (statements ⟨(lex source).tokens, 0⟩).faults) := rfl

/-- The faults of the grammar are listed as the statements report them. -/
theorem grammarFaults_eq (source : String) :
    (parse source).grammarFaults = (statements ⟨(lex source).tokens, 0⟩).faults := by
  have hreads := statements_reads (lex source).tokens
  have hascending := hreads.ascending (tiles_lex source) (Nat.le_refl _)
  rw [Parse.grammarFaults, faults_parse, filter_sortOn, filter_grammar_reported,
    sortOn_of_pairwise hascending.pairwise]

end SourceModel.Calc
