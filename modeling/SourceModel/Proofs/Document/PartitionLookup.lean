import SourceModel.Document.Sections
import SourceModel.Proofs.Document.Partitioning
import SourceModel.Proofs.Search

/-!
# Partitions at an offset

The parts of a text lie side by side. So an offset inside the text splits them: those in front end
at the offset or before it, one part contains the offset, and those behind start after it, wherever
there are empty parts. As ends never go back, a search that halves the parts in each round comes to
the same part as one that looks at them one after the other. Whether an offset has a section depends
only on the name of the partitioning and on the bounds of the text.
-/

namespace SourceModel

/-! ## The part that contains an offset -/

section Parts

variable {lo hi offset : Nat} {parts : List Partition} {p : Partition}

private theorem Covers.le (h : Covers lo hi parts) : lo ≤ hi := by
  induction parts generalizing lo with
  | nil => exact Nat.le_of_eq h
  | cons q qs ih =>
    have hq := q.region.offset_le_stop
    have hle := ih h.2
    have hstart := h.1
    omega

private theorem Covers.mem (h : Covers lo hi parts) (hp : p ∈ parts) :
    lo ≤ p.region.offset ∧ p.region.stop ≤ hi := by
  induction parts generalizing lo with
  | nil => cases hp
  | cons q qs ih =>
    rcases List.mem_cons.1 hp with rfl | hp
    · exact ⟨Nat.le_of_eq h.1.symm, h.2.le⟩
    · have hq := q.region.offset_le_stop
      have hmem := ih h.2 hp
      have hstart := h.1
      omega

/-- An offset splits parts that lie side by side: one part contains it, those in front of that end
no later, and those behind start after the offset. -/
structure SplitAt (offset : Nat) (front : List Partition) (p : Partition) (back : List Partition) :
    Prop where
  front : ∀ q ∈ front, q.region.stop ≤ offset
  contains : p.region.contains offset = true
  back : ∀ q ∈ back, offset < q.region.offset

private theorem Covers.exists_splitAt (h : Covers lo hi parts) (hlo : lo ≤ offset)
    (hhi : offset < hi) :
    ∃ front p back, parts = front ++ p :: back ∧ SplitAt offset front p back := by
  induction parts generalizing lo with
  | nil =>
    have hend : lo = hi := h
    omega
  | cons q qs ih =>
    by_cases hq : offset < q.region.stop
    · refine ⟨[], q, qs, rfl, List.forall_mem_nil _, ?_, fun r hr => ?_⟩
      · have hstart := h.1
        simp only [Region.contains, Bool.and_eq_true, decide_eq_true_eq]
        omega
      · exact Nat.lt_of_lt_of_le hq (h.2.mem hr).1
    · obtain ⟨front, p, back, rfl, hsplit⟩ := ih h.2 (Nat.le_of_not_lt hq)
      refine ⟨q :: front, p, back, rfl, ?_, hsplit.contains, hsplit.back⟩
      exact List.forall_mem_cons.2 ⟨Nat.le_of_not_lt hq, hsplit.front⟩

namespace SplitAt

variable {front back : List Partition} {q : Partition} {i : Nat}

private theorem lt_stop (h : SplitAt offset front p back) : offset < p.region.stop := by
  have hp := h.contains
  simp only [Region.contains, Bool.and_eq_true, decide_eq_true_eq] at hp
  exact hp.2

private theorem find? (h : SplitAt offset front p back) :
    (front ++ p :: back).find? (fun q => offset < q.region.stop) = some p := by
  have hfront : front.find? (fun q => offset < q.region.stop) = none := by
    rw [List.find?_eq_none]
    intro q hq
    rw [decide_eq_true_eq]
    exact Nat.not_lt.2 (h.front q hq)
  rw [List.find?_append, hfront, Option.none_or]
  exact List.find?_cons_of_pos (decide_eq_true h.lt_stop)

private theorem getElem?_front_length (front : List Partition) (p : Partition)
    (back : List Partition) : (front ++ p :: back)[front.length]? = some p := by
  rw [List.getElem?_append_right (Nat.le_refl _), Nat.sub_self, List.getElem?_cons_zero]

/-- What the parts in front, the part itself and the parts behind say about the offset. -/
theorem cases (h : SplitAt offset front p back) (hq : (front ++ p :: back)[i]? = some q) :
    i < front.length ∧ q.region.stop ≤ offset ∨ i = front.length ∧ q = p ∨
      front.length < i ∧ offset < q.region.offset := by
  rcases Nat.lt_trichotomy i front.length with hi | rfl | hi
  · rw [List.getElem?_append_left hi] at hq
    exact .inl ⟨hi, h.front q (List.mem_of_getElem? hq)⟩
  · rw [getElem?_front_length, Option.some.injEq] at hq
    exact .inr (.inl ⟨rfl, hq.symm⟩)
  · obtain ⟨n, rfl⟩ := Nat.exists_eq_add_of_lt hi
    rw [List.getElem?_append_right (by omega),
      show front.length + n + 1 - front.length = n + 1 by omega, List.getElem?_cons_succ] at hq
    exact .inr (.inr ⟨hi, h.back q (List.mem_of_getElem? hq)⟩)

private theorem eq_length_of_contains (h : SplitAt offset front p back)
    (hq : (front ++ p :: back)[i]? = some q) (hcontains : q.region.contains offset = true) :
    i = front.length := by
  simp only [Region.contains, Bool.and_eq_true, decide_eq_true_eq] at hcontains
  rcases h.cases hq with ⟨-, hstop⟩ | ⟨hi, -⟩ | ⟨-, hstart⟩
  · omega
  · exact hi
  · omega

end SplitAt

def endsBy (parts : List Partition) (offset i : Nat) : Bool :=
  parts[i]?.any fun p => p.region.stop ≤ offset

private theorem SplitAt.searchPoint_eq {front back : List Partition}
    (h : SplitAt offset front p back) :
    searchPoint (endsBy (front ++ p :: back) offset) 0 (front ++ p :: back).length =
      front.length := by
  have hlength : (front ++ p :: back).length = front.length + back.length + 1 := by
    rw [List.length_append, List.length_cons, Nat.add_assoc]
  have hends : ∀ {i q}, (front ++ p :: back)[i]? = some q →
      endsBy (front ++ p :: back) offset i = decide (q.region.stop ≤ offset) := by
    intro i q hq
    rw [endsBy, hq, Option.any_some]
  have hlt := h.lt_stop
  refine SourceModel.searchPoint_eq (Nat.zero_le _) (by omega) (fun i hi => ?_)
    fun i hi hlen => ?_
  · have hget := List.getElem?_eq_getElem (show i < (front ++ p :: back).length by omega)
    rw [hends hget, decide_eq_true_eq]
    rcases h.cases hget with ⟨-, hstop⟩ | ⟨hi', -⟩ | ⟨hi', -⟩
    · exact hstop
    · omega
    · omega
  · have hget := List.getElem?_eq_getElem hlen
    rw [hends hget, decide_eq_false_iff_not]
    rcases h.cases hget with ⟨hi', -⟩ | ⟨-, hp⟩ | ⟨-, hstart⟩
    · omega
    · rw [hp]
      omega
    · have hle := ((front ++ p :: back)[i]).region.offset_le_stop
      omega

private theorem Covers.stop_le (h : Covers lo hi parts) (hhi : hi ≤ offset) :
    ∀ p ∈ parts, p.region.stop ≤ offset :=
  fun _ hp => Nat.le_trans (h.mem hp).2 hhi

private theorem find?_eq_none_of_stop_le (h : ∀ p ∈ parts, p.region.stop ≤ offset) :
    parts.find? (fun p => offset < p.region.stop) = none := by
  rw [List.find?_eq_none]
  intro p hp
  rw [decide_eq_true_eq]
  exact Nat.not_lt.2 (h p hp)

/-- Looking at the parts one after the other and searching by halves come to the same part. -/
theorem Covers.find?_eq (h : Covers 0 hi parts) (offset : Nat) :
    parts.find? (fun p => offset < p.region.stop) =
      parts[searchPoint (endsBy parts offset) 0 parts.length]? := by
  by_cases hhi : offset < hi
  · obtain ⟨front, p, back, rfl, hsplit⟩ := h.exists_splitAt (Nat.zero_le _) hhi
    rw [hsplit.find?, hsplit.searchPoint_eq, SplitAt.getElem?_front_length]
  · have hstop := h.stop_le (Nat.le_of_not_lt hhi)
    have hpoint : searchPoint (endsBy parts offset) 0 parts.length = parts.length := by
      refine searchPoint_eq (Nat.zero_le _) (Nat.le_refl _) (fun i hi => ?_) fun i hi hlt => ?_
      · have hget := List.getElem?_eq_getElem hi
        rw [endsBy, hget, Option.any_some, decide_eq_true_eq]
        exact hstop _ (List.mem_of_getElem? hget)
      · omega
    rw [find?_eq_none_of_stop_le hstop, hpoint, List.getElem?_eq_none (Nat.le_refl _)]

end Parts

/-! ## Lookups -/

namespace TextDocument

open Partitioner (lastNamed?)

/-- The partition of a name at an offset, searched by halves. -/
def searchPartition? (d : TextDocument) (name : String) (offset : Nat) :
    Except Fault Partition := do
  let parts ← d.partitionsOf? name
  if d.size < offset then throw (.badLocation offset 0)
  match parts[searchPoint (endsBy parts offset) 0 parts.length]?.or parts.getLast? with
  | some p => return p
  | none => throw (.badLocation offset 0)

/-- What lookups of a name come to where the partitions of that name are the given parts. -/
structure FindsParts (d : TextDocument) (name : String) (parts : List Partition) : Prop where
  inside : ∀ offset, offset < d.size → ∃ (i : Nat) (p : Partition), parts[i]? = some p ∧
    p.region.contains offset = true ∧
    (∀ (j : Nat) (q : Partition), parts[j]? = some q → q.region.contains offset = true → j = i) ∧
    d.partitionAt? name offset = .ok p
  atEnd : d.partitionAt? name d.size =
    match parts.getLast? with
    | some p => .ok p
    | none => .error (.badLocation d.size 0)
  behind : ∀ offset, d.size < offset → d.partitionAt? name offset = .error (.badLocation offset 0)
  halving : ∀ offset, d.searchPartition? name offset = d.partitionAt? name offset

section Lookups

variable {d : TextDocument} {name : String} {parts : List Partition} {offset : Nat}

private theorem partitionAt?_eq (hparts : d.partitionsOf? name = .ok parts) :
    d.partitionAt? name offset =
      if d.size < offset then .error (.badLocation offset 0)
      else
        match (parts.find? fun p => offset < p.region.stop).or parts.getLast? with
        | some p => .ok p
        | none => .error (.badLocation offset 0) := by
  rw [partitionAt?, hparts]
  by_cases hsize : d.size < offset
  · simp only [hsize, if_true]
    rfl
  · simp only [hsize, if_false]
    rfl

private theorem findsParts (hparts : d.partitionsOf? name = .ok parts) (h : Covers 0 d.size parts) :
    d.FindsParts name parts where
  inside offset hlt := by
    obtain ⟨front, p, back, rfl, hsplit⟩ := h.exists_splitAt (Nat.zero_le _) hlt
    refine ⟨front.length, p, SplitAt.getElem?_front_length front p back, hsplit.contains,
      fun j q => hsplit.eq_length_of_contains, ?_⟩
    rw [partitionAt?_eq hparts, if_neg (Nat.not_lt.2 (Nat.le_of_lt hlt)), hsplit.find?,
      Option.some_or]
  atEnd := by
    rw [partitionAt?_eq hparts, if_neg (Nat.lt_irrefl _),
      find?_eq_none_of_stop_le (h.stop_le (Nat.le_refl _)), Option.none_or]
  behind offset hlt := by rw [partitionAt?_eq hparts, if_pos hlt]
  halving offset := by
    rw [partitionAt?_eq hparts, h.find?_eq offset, searchPartition?, hparts]
    by_cases hsize : d.size < offset
    · simp only [hsize, if_true]
      rfl
    · simp only [hsize, if_false]
      rfl

private theorem partitionAt?_of_error {fault : Fault}
    (hparts : d.partitionsOf? name = .error fault) : d.partitionAt? name offset = .error fault := by
  rw [partitionAt?, hparts]
  rfl

end Lookups

/-! ## Registered names -/

section Registered

variable {d : TextDocument} {name : String}

private theorem lastNamed?_isSome_iff {ps : List Partitioner} :
    (lastNamed? name ps).isSome ↔ ∃ p ∈ ps, p.name = name := by
  rw [lastNamed?, List.getLast?_isSome, Ne, List.filter_eq_nil_iff]
  simp

private theorem Consistent.exists_partitions (h : d.Consistent)
    (hname : ∃ p ∈ d.partitioners, p.name = name) :
    ∃ parts, d.partitionsOf? name = .ok parts ∧ d.FindsParts name parts := by
  obtain ⟨p, hp⟩ := Option.isSome_iff_exists.1 (lastNamed?_isSome_iff.2 hname)
  have hparts : d.partitionsOf? name = .ok (p.partition d.text) := by
    rw [h.partitionsOf?_eq, hp]
  exact ⟨_, hparts, findsParts hparts (h.covers hparts)⟩

private theorem Consistent.partitionAt?_of_unknown (h : d.Consistent)
    (hname : ∀ p ∈ d.partitioners, p.name ≠ name) (offset : Nat) :
    d.partitionAt? name offset = .error (.contract s!"unknown partitioning '{name}'") := by
  have hnone : lastNamed? name d.partitioners = none := by
    rw [← Option.not_isSome_iff_eq_none, lastNamed?_isSome_iff]
    rintro ⟨p, hp, heq⟩
    exact hname p hp heq
  apply partitionAt?_of_error
  rw [h.partitionsOf?_eq, hnone]

end Registered

end TextDocument

/-! ## Sections -/

namespace ContentSections

/-- Whether an offset belongs to no section of a document: it is negative or behind the text, or
there is no partitioning of the name, or there is no partition in it. -/
def Misses (s : ContentSections) (d : TextDocument) (offset : Int) : Prop :=
  offset < 0 ∨ (∀ p ∈ d.partitioners, p.name ≠ s.partitioning) ∨ d.size < offset ∨
    d.partitionsOf? s.partitioning = .ok []

/-- What the section types of a document are. -/
structure Resolves (s : ContentSections) (d : TextDocument) : Prop where
  error_iff : ∀ offset, s.typeAt d offset = errorType ↔ s.Misses d offset
  type_eq : ∀ offset, ¬ s.Misses d offset →
    ∃ p, d.partitionAt? s.partitioning offset.toNat = .ok p ∧
      s.typeAt d offset = s.typeOf p.type

variable {s : ContentSections} {d : TextDocument} {offset : Int}

private theorem typeAt_of_error {fault : Fault}
    (h : d.partitionAt? s.partitioning offset.toNat = .error fault) :
    s.typeAt d offset = errorType := by
  rw [typeAt, h]
  exact ite_self _

private theorem typeAt_of_ok {p : Partition} (hoffset : ¬ offset < 0)
    (h : d.partitionAt? s.partitioning offset.toNat = .ok p) :
    s.typeAt d offset = s.typeOf p.type := by
  rw [typeAt, if_neg hoffset, h]

private theorem typeAt_of_misses (hd : d.Consistent) (h : s.Misses d offset) :
    s.typeAt d offset = errorType := by
  rcases h with hneg | hname | hbehind | hempty
  · rw [typeAt, if_pos hneg]
  · exact typeAt_of_error (hd.partitionAt?_of_unknown hname _)
  · by_cases hname : ∃ p ∈ d.partitioners, p.name = s.partitioning
    · obtain ⟨parts, -, hfinds⟩ := hd.exists_partitions hname
      exact typeAt_of_error (hfinds.behind _ (by omega))
    · have hunknown : ∀ p ∈ d.partitioners, p.name ≠ s.partitioning :=
        fun p hp heq => hname ⟨p, hp, heq⟩
      exact typeAt_of_error (hd.partitionAt?_of_unknown hunknown _)
  · apply typeAt_of_error
    rw [TextDocument.partitionAt?_eq hempty]
    exact ite_self _

private theorem exists_partition_of_not_misses (hd : d.Consistent) (h : ¬ s.Misses d offset) :
    ∃ p, d.partitionAt? s.partitioning offset.toNat = .ok p ∧
      s.typeAt d offset = s.typeOf p.type := by
  simp only [Misses, not_or] at h
  obtain ⟨hneg, hname, hbehind, hempty⟩ := h
  have hregistered : ∃ p ∈ d.partitioners, p.name = s.partitioning := by
    by_contra hnone
    exact hname fun p hp heq => hnone ⟨p, hp, heq⟩
  obtain ⟨parts, hparts, hfinds⟩ := hd.exists_partitions hregistered
  have hfound : ∃ p, d.partitionAt? s.partitioning offset.toNat = .ok p := by
    rcases Nat.lt_or_eq_of_le (show offset.toNat ≤ d.size by omega) with hlt | heq
    · obtain ⟨i, p, -, -, -, hp⟩ := hfinds.inside _ hlt
      exact ⟨p, hp⟩
    · rw [heq, hfinds.atEnd]
      cases hlast : parts.getLast? with
      | some p => exact ⟨p, rfl⟩
      | none =>
        rw [List.getLast?_eq_none_iff] at hlast
        exact absurd (hlast ▸ hparts) hempty
  obtain ⟨p, hp⟩ := hfound
  exact ⟨p, hp, typeAt_of_ok hneg hp⟩

private theorem resolves (hd : d.Consistent) (hs : ∀ type, s.typeOf type ≠ errorType) :
    s.Resolves d where
  error_iff offset := by
    refine ⟨fun herror => ?_, typeAt_of_misses hd⟩
    by_contra hmisses
    obtain ⟨p, -, htype⟩ := exists_partition_of_not_misses hd hmisses
    exact hs p.type (htype.symm.trans herror)
  type_eq _ := exists_partition_of_not_misses hd

end ContentSections

namespace TextDocument

/-- After any changes of a new document, lookups in a partitioning with a partitioner give the one
partition that contains an offset inside the text, the last partition at its end, and a bad location
behind it or without any partition; a search by halves gives the same. Without a partitioner of the
name a lookup fails as well. Where no partition type has the error type, an offset has that type
just if it is outside the text or if there is no partition, and otherwise the type of its
partition. -/
theorem lookups_run (text : String) (cs : List DocumentChange) :
    (∀ name, (∃ p ∈ (run { text } cs).partitioners, p.name = name) →
        ∃ parts, (run { text } cs).partitionsOf? name = .ok parts ∧
          (run { text } cs).FindsParts name parts) ∧
      (∀ name, (∀ p ∈ (run { text } cs).partitioners, p.name ≠ name) →
        ∀ offset, (run { text } cs).partitionAt? name offset =
          .error (.contract s!"unknown partitioning '{name}'")) ∧
      ∀ s : ContentSections, (∀ type, s.typeOf type ≠ ContentSections.errorType) →
        s.Resolves (run { text } cs) := by
  have hnew : Consistent { text } := ⟨List.forall_mem_nil _, fun _ => rfl⟩
  obtain ⟨hd, -, -⟩ := hnew.run cs
  exact ⟨fun _ => hd.exists_partitions, fun _ => hd.partitionAt?_of_unknown,
    fun _ => ContentSections.resolves hd⟩

def withEmptyParts : Partitioner where
  name := "gaps"
  partition _ :=
    [⟨default, "START"⟩, ⟨⟨0, 3, by decide⟩, "CODE"⟩, ⟨⟨3, 0, by decide⟩, "GAP"⟩,
      ⟨⟨3, 3, by decide⟩, "CODE"⟩, ⟨⟨6, 0, by decide⟩, "END"⟩]

def endSections (partitioning : String) : ContentSections :=
  { partitioning, primary := "CODE", secondary := ["END"], byPartition := [("END", "END")] }

/-- Empty parts are passed over inside a text, and found at its end only. -/
theorem lookups_run_emptyParts :
    let d := run { text := "abcdef" }
      [.addPartitioner withEmptyParts, .setText "ab", .setText "ghijkl"]
    (∃ p ∈ d.partitioners, p.name = "gaps") ∧
      (∃ parts, d.partitionsOf? "gaps" = .ok parts ∧ d.FindsParts "gaps" parts) ∧
      d.partitionAt? "gaps" 3 = .ok ⟨⟨3, 3, by decide⟩, "CODE"⟩ ∧
      d.partitionAt? "words" 3 = .error (.contract "unknown partitioning 'words'") ∧
      (∀ type, (endSections "gaps").typeOf type ≠ ContentSections.errorType) ∧
      (endSections "gaps").typeAt d 6 = "END" ∧
      (endSections "gaps").typeAt d 7 = ContentSections.errorType := by
  intro d
  obtain ⟨hfinds, hunknown, hresolves⟩ := lookups_run "abcdef"
    [.addPartitioner withEmptyParts, .setText "ab", .setText "ghijkl"]
  have hpartitioners : d.partitioners = [withEmptyParts] := rfl
  have hname : ∃ p ∈ d.partitioners, p.name = "gaps" :=
    ⟨withEmptyParts, hpartitioners ▸ List.mem_singleton_self _, rfl⟩
  have hs : ∀ type, (endSections "gaps").typeOf type ≠ ContentSections.errorType := by
    intro type
    by_cases htype : type = "END"
    · subst htype
      decide
    · have hlookup : (endSections "gaps").typeOf type = "CODE" := by
        simp [endSections, ContentSections.typeOf, List.lookup_cons, beq_false_of_ne htype]
      rw [hlookup]
      decide
  refine ⟨hname, hfinds "gaps" hname, by decide, hunknown "words" (by decide) 3, hs, by decide, ?_⟩
  exact ((hresolves (endSections "gaps") hs).error_iff 7).2 (.inr (.inr (.inl (by decide))))

end TextDocument

end SourceModel
