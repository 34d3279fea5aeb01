import SourceModel.Calc.Sections
import SourceModel.Proofs.Calc.Tiling
import SourceModel.Proofs.Document.Partitioning

/-!
# Sections and tokens

The partitions of a calc text lie side by side over all of it, and each token lies in a partition of
its own section. So the section at an offset is that of the token there.
-/

namespace SourceModel.Calc

section Runs

variable {run : TokenRun} {p : Partition} {ts : List Token} {t : Token} {hi offset : Nat}

private theorem partition?_eq_some_iff :
    run.partition? = some p ↔
      p.region.offset = run.start ∧ p.region.stop = run.stop ∧ p.type = run.type := by
  simp only [TokenRun.partition?, Option.map_eq_some_iff, Region.toOption_ofBounds?_eq_some_iff]
  constructor
  · rintro ⟨r, ⟨hstart, hstop⟩, rfl⟩
    exact ⟨hstart, hstop, rfl⟩
  · rintro ⟨hstart, hstop, htype⟩
    exact ⟨p.region, ⟨hstart, hstop⟩, by rw [← htype]⟩

/-- A run of which the given tokens, up to an offset that can be written, are the continuation. -/
structure TokenRun.Before (run : TokenRun) (hi : Nat) (ts : List Token) : Prop where
  start_le : run.start ≤ run.stop
  tiles : Tiles run.stop hi ts
  available : hi < naOffset

theorem TokenRun.Before.extend (h : run.Before hi (t :: ts)) :
    TokenRun.Before { run with stop := t.stop } hi ts := by
  obtain ⟨hstart, hlt, hrest⟩ := h.tiles
  have hle := h.start_le
  refine ⟨?_, hrest, h.available⟩
  change run.start ≤ t.stop
  omega

theorem TokenRun.Before.next (h : run.Before hi (t :: ts)) :
    TokenRun.Before ⟨t.start, t.stop, t.kind.sectionType⟩ hi ts :=
  ⟨Nat.le_of_lt h.tiles.2.1, h.tiles.2.2, h.available⟩

theorem TokenRun.Before.exists_partition? (h : run.Before hi ts) :
    ∃ p, run.partition? = some p ∧ p.region.offset = run.start ∧ p.region.stop = run.stop ∧
      p.type = run.type := by
  have hle := h.start_le
  have hstop := h.tiles.le
  have hhi := h.available
  have hlt : run.start + (run.stop - run.start) < naOffset := by omega
  have hp : run.partition? = some ⟨⟨run.start, run.stop - run.start, hlt⟩, run.type⟩ := by
    rw [partition?_eq_some_iff, Region.stop_mk]
    refine ⟨rfl, ?_, rfl⟩
    omega
  exact ⟨_, hp, partition?_eq_some_iff.1 hp⟩

/-- The partitions of the runs of tokens, where `run` is the run before them. -/
def partitionsFrom (run : TokenRun) (ts : List Token) : List Partition :=
  (runsFrom run ts).filterMap TokenRun.partition?

theorem partitionsFrom_nil (hp : run.partition? = some p) : partitionsFrom run [] = [p] := by
  simp [partitionsFrom, runsFrom, hp]

theorem partitionsFrom_extend (h : t.kind.sectionType = run.type) :
    partitionsFrom run (t :: ts) = partitionsFrom { run with stop := t.stop } ts := by
  simp [partitionsFrom, runsFrom, h]

theorem partitionsFrom_next (h : t.kind.sectionType ≠ run.type) (hp : run.partition? = some p) :
    partitionsFrom run (t :: ts) =
      p :: partitionsFrom ⟨t.start, t.stop, t.kind.sectionType⟩ ts := by
  simp [partitionsFrom, runsFrom, h, hp]

private theorem covers_partitionsFrom (h : run.Before hi ts) :
    Covers run.start hi (partitionsFrom run ts) := by
  induction ts generalizing run with
  | nil =>
    obtain ⟨p, hp, hstart, hstop, -⟩ := h.exists_partition?
    have hend : run.stop = hi := h.tiles
    rw [partitionsFrom_nil hp]
    exact ⟨hstart, hstop.trans hend⟩
  | cons t ts ih =>
    by_cases hsame : t.kind.sectionType = run.type
    · rw [partitionsFrom_extend hsame]
      exact ih h.extend
    · obtain ⟨p, hp, hstart, hstop, -⟩ := h.exists_partition?
      have hnext : t.start = run.stop := h.tiles.1
      rw [partitionsFrom_next hsame hp]
      refine ⟨hstart, ?_⟩
      rw [hstop, ← hnext]
      exact ih h.next

private theorem find?_partitionsFrom_run (h : run.Before hi ts) (ho : offset < run.stop) :
    ∃ p, (partitionsFrom run ts).find? (fun p => offset < p.region.stop) = some p ∧
      p.type = run.type := by
  induction ts generalizing run with
  | nil =>
    obtain ⟨p, hp, -, hstop, htype⟩ := h.exists_partition?
    rw [partitionsFrom_nil hp]
    exact ⟨p, by simp [hstop, ho], htype⟩
  | cons t ts ih =>
    by_cases hsame : t.kind.sectionType = run.type
    · rw [partitionsFrom_extend hsame]
      apply ih h.extend
      obtain ⟨hstart, hlt, -⟩ := h.tiles
      change offset < t.stop
      omega
    · obtain ⟨p, hp, -, hstop, htype⟩ := h.exists_partition?
      rw [partitionsFrom_next hsame hp]
      exact ⟨p, by simp [hstop, ho], htype⟩

private theorem find?_partitionsFrom (h : run.Before hi ts) (ht : t ∈ ts) (hlo : t.start ≤ offset)
    (hlt : offset < t.stop) :
    ∃ p, (partitionsFrom run ts).find? (fun p => offset < p.region.stop) = some p ∧
      p.type = t.kind.sectionType := by
  induction ts generalizing run with
  | nil => cases ht
  | cons u ts ih =>
    by_cases hsame : u.kind.sectionType = run.type
    · rw [partitionsFrom_extend hsame]
      rcases List.mem_cons.1 ht with rfl | ht
      · rw [hsame]
        exact find?_partitionsFrom_run h.extend hlt
      · exact ih h.extend ht
    · obtain ⟨p, hp, -, hstop, -⟩ := h.exists_partition?
      have hmem := h.tiles.mem ht
      -- The run before the tokens ends where they start, so it is passed over.
      have hpassed : ¬ offset < p.region.stop := by omega
      rw [partitionsFrom_next hsame hp, List.find?_cons_of_neg (by simpa using hpassed)]
      rcases List.mem_cons.1 ht with rfl | ht
      · exact find?_partitionsFrom_run h.next hlt
      · exact ih h.next ht

end Runs

/-! ## Documents -/

def IsPartitioned (d : TextDocument) : Prop :=
  d.partitionsOf? partitioning = .ok (partitioner.partition d.text)

section Documents

variable {d : TextDocument} {source : String}

theorem partition_of_tokens {t : Token} {ts : List Token} (h : (lex source).tokens = t :: ts) :
    partitioner.partition source = partitionsFrom ⟨t.start, t.stop, t.kind.sectionType⟩ ts := by
  simp only [partitioner, h, runs]
  rfl

theorem before_of_tokens (hsize : Text.size source < naOffset) {t : Token} {ts : List Token}
    (h : (lex source).tokens = t :: ts) :
    t.start = 0 ∧
      TokenRun.Before ⟨t.start, t.stop, t.kind.sectionType⟩ (Text.size source) ts := by
  have htiles := tiles_lex source
  rw [h] at htiles
  exact ⟨htiles.1, Nat.le_of_lt htiles.2.1, htiles.2.2, hsize⟩

theorem accepts_partitioner (h : Text.size source < naOffset) : partitioner.Accepts source := by
  unfold Partitioner.Accepts
  cases htokens : (lex source).tokens with
  | nil =>
    have htiles := tiles_lex source
    rw [htokens] at htiles
    have hempty : partitioner.partition source = [⟨⟨0, 0, by decide⟩, Section.code⟩] := by
      simp only [partitioner, htokens, runs]
      rfl
    rw [hempty]
    exact ⟨rfl, htiles⟩
  | cons t ts =>
    obtain ⟨hstart, hbefore⟩ := before_of_tokens h htokens
    rw [partition_of_tokens htokens, ← hstart]
    exact covers_partitionsFrom hbefore

/-- Every text within the limit for sizes has a document with its calc partitions. -/
theorem exists_document (h : Text.size source < naOffset) :
    ∃ d, document source = .ok d ∧ d.text = source ∧ IsPartitioned d := by
  have hcut := Partitioner.cut?_eq_ok_iff.2 ⟨accepts_partitioner h, rfl⟩
  refine ⟨{
    text := source
    partitioners := [partitioner]
    partitions := [(partitioning, partitioner.partition source)] }, ?_, rfl, ?_⟩
  · rw [document, TextDocument.addPartitioner, hcut]
    rfl
  · simp [IsPartitioned, TextDocument.partitionsOf?]

private theorem typeOf_sectionType (kind : TokenKind) :
    sections.typeOf kind.sectionType = kind.sectionType := by
  cases kind <;> decide

theorem typeAt_of_mem {t : Token} {offset : Nat} (h : IsPartitioned d)
    (hsize : Text.size d.text < naOffset) (ht : t ∈ (lex d.text).tokens) (hlo : t.start ≤ offset)
    (hlt : offset < t.stop) : sections.typeAt d offset = t.kind.sectionType := by
  have hwithin := (tiles_lex d.text).mem ht
  have hfound : ∃ p, (partitioner.partition d.text).find? (fun p => offset < p.region.stop) =
      some p ∧ p.type = t.kind.sectionType := by
    cases htokens : (lex d.text).tokens with
    | nil =>
      rw [htokens] at ht
      cases ht
    | cons u us =>
      obtain ⟨-, hbefore⟩ := before_of_tokens hsize htokens
      rw [partition_of_tokens htokens]
      rw [htokens] at ht
      rcases List.mem_cons.1 ht with rfl | ht
      · exact find?_partitionsFrom_run hbefore hlt
      · exact find?_partitionsFrom hbefore ht hlo hlt
  obtain ⟨p, hp, htype⟩ := hfound
  have hinside : ¬ d.size < offset := by
    change ¬ Text.size d.text < offset
    omega
  have hparts : d.partitionsOf? sections.partitioning = .ok (partitioner.partition d.text) := h
  have hat : d.partitionAt? sections.partitioning offset = .ok p := by
    simp only [TextDocument.partitionAt?, hparts, bind, Except.bind, hinside, if_false, hp,
      Option.some_or]
    rfl
  have hoffset : ¬ (offset : Int) < 0 := by omega
  simp only [ContentSections.typeAt, hoffset, if_false, Int.toNat_natCast, hat]
  rw [htype, typeOf_sectionType]

end Documents

end SourceModel.Calc
