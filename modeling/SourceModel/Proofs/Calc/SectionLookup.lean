import Mathlib.Data.List.Chain
import SourceModel.Proofs.Calc.Sections

/-!
# Section lookup behind edits

An edit of a calc document is refused only if it has no place in the text. So however the document
is edited, its partitions are the longest runs of tokens of one section, and the section at an
offset is that of the one token there.
-/

namespace SourceModel.Calc

/-! ## Longest partitions -/

/-- No partition is empty, and no two of one type are neighbours. -/
structure Longest (parts : List Partition) : Prop where
  pos : ∀ p ∈ parts, 0 < p.region.length
  types_ne : parts.IsChain fun p q => p.type ≠ q.type

section Longest

variable {run : TokenRun} {ts : List Token} {hi : Nat}

private theorem longest_partitionsFrom (h : run.Before hi ts) (hrun : run.start < run.stop) :
    ∃ p ps, partitionsFrom run ts = p :: ps ∧ p.type = run.type ∧ Longest (p :: ps) := by
  induction ts generalizing run with
  | nil =>
    obtain ⟨p, hp, hstart, hstop, htype⟩ := h.exists_partition?
    have hpos : 0 < p.region.length := by
      unfold Region.stop at hstop
      omega
    refine ⟨p, [], partitionsFrom_nil hp, htype, fun q hq => ?_, .singleton p⟩
    exact List.mem_singleton.1 hq ▸ hpos
  | cons t ts ih =>
    obtain ⟨hnext, hlt, -⟩ := h.tiles
    by_cases hsame : t.kind.sectionType = run.type
    · have hrun' : run.start < t.stop := by omega
      obtain ⟨p, ps, hparts, htype, hlongest⟩ := ih h.extend hrun'
      exact ⟨p, ps, (partitionsFrom_extend hsame).trans hparts, htype, hlongest⟩
    · obtain ⟨p, hp, hstart, hstop, htype⟩ := h.exists_partition?
      obtain ⟨q, qs, hparts, htype', hlongest⟩ := ih h.next hlt
      have hpos : 0 < p.region.length := by
        unfold Region.stop at hstop
        omega
      have hne : p.type ≠ q.type := by
        rw [htype, htype']
        exact fun he => hsame he.symm
      refine ⟨p, q :: qs, ?_, htype, List.forall_mem_cons.2 ⟨hpos, hlongest.pos⟩,
        .cons_cons hne hlongest.types_ne⟩
      rw [partitionsFrom_next hsame hp, hparts]

end Longest

/-! ## Edited documents -/

section Edits

variable {d e : TextDocument} {c : DocumentChange} {cs : List DocumentChange} {source text : String}
  {lo hi : Nat} {parts : List Partition}

private theorem lt_naOffset_of_covers (h : Covers lo hi parts) (hlo : lo < naOffset) :
    hi < naOffset := by
  induction parts generalizing lo with
  | nil =>
    have hend : lo = hi := h
    omega
  | cons p ps ih => exact ih h.2 p.region.stop_lt_naOffset

private theorem accepts_partitioner_iff : partitioner.Accepts text ↔ Text.size text < naOffset :=
  ⟨fun h => lt_naOffset_of_covers h (by decide), accepts_partitioner⟩

/-- A document with the calc partitioner and no other one. -/
structure IsEdited (d : TextDocument) : Prop where
  consistent : d.Consistent
  partitioners : d.partitioners = [partitioner]

private theorem registered_eq_nil (hc : c.isEdit) : c.registered = [] := by
  cases c with
  | addPartitioner p => cases hc
  | setText | replace => rfl

private theorem isEdited_of_follows (h : d.Follows c e) (hc : c.isEdit)
    (hd : d.partitioners = [partitioner]) : IsEdited e where
  consistent := h.consistent
  partitioners := by rw [h.partitioners_eq, registered_eq_nil hc, List.append_nil, hd]

private theorem isEdited_document (h : document source = .ok d) : IsEdited d := by
  have hnew : TextDocument.Consistent { text := source } := ⟨List.forall_mem_nil _, fun _ => rfl⟩
  rcases hnew.change_cases (.addPartitioner partitioner) with ⟨e, he, hfollows⟩ | ⟨⟨fault, hf⟩, -⟩
  · cases he.symm.trans h
    exact ⟨hfollows.consistent, hfollows.partitioners_eq⟩
  · cases hf.symm.trans h

private theorem IsEdited.change (h : IsEdited d) (hc : c.isEdit) : IsEdited (d.change c) := by
  unfold TextDocument.change
  rcases h.consistent.change_cases c with ⟨e, he, hfollows⟩ | ⟨⟨fault, hf⟩, -⟩
  · rw [he]
    exact isEdited_of_follows hfollows hc h.partitioners
  · rw [hf]
    exact h

private theorem IsEdited.run (h : IsEdited d) (hcs : ∀ c ∈ cs, c.isEdit) : IsEdited (d.run cs) := by
  induction cs generalizing d with
  | nil => exact h
  | cons c cs ih =>
    obtain ⟨hc, hcs⟩ := List.forall_mem_cons.1 hcs
    exact ih (h.change hc) hcs

private theorem IsEdited.tryChange_iff (h : IsEdited d) (hc : c.isEdit) :
    (∃ e, d.tryChange c = .ok e ∧ e.text = text) ↔
      d.Yields c text ∧ Text.size text < naOffset := by
  constructor
  · rintro ⟨e, he, rfl⟩
    refine ⟨h.consistent.yields he, ?_⟩
    rcases h.consistent.change_cases c with ⟨e', he', hfollows⟩ | ⟨⟨fault, hf⟩, -⟩
    · cases he'.symm.trans he
      have hedited := isEdited_of_follows hfollows hc h.partitioners
      refine accepts_partitioner_iff.1 (hedited.consistent.accepts partitioner ?_)
      rw [hedited.partitioners]
      exact List.mem_singleton_self _
    · cases hf.symm.trans he
  · rintro ⟨hyields, hsize⟩
    have hadmits : d.Admits c := by
      refine ⟨text, hyields, fun p hp => ?_⟩
      rw [h.partitioners, registered_eq_nil hc, List.append_nil, List.mem_singleton] at hp
      rw [hp]
      exact accepts_partitioner hsize
    rcases h.consistent.change_cases c with ⟨e, he, hfollows⟩ | ⟨-, hrefused⟩
    · exact ⟨e, he, TextDocument.Yields.unique hfollows.yields hyields⟩
    · exact absurd hadmits hrefused

/-- The sections of a calc document are those of the tokens of its text, and so they will be behind
each edit that has a place. -/
structure SectionsFollow (d : TextDocument) : Prop where
  edit : ∀ c text, c.isEdit →
    ((∃ e, d.tryChange c = .ok e ∧ e.text = text) ↔ d.Yields c text ∧ Text.size text < naOffset)
  misplaced : ∀ region new, (∀ text, ¬ d.Yields (.replace region new) text) →
    d.tryChange (.replace region new) = .error (.badLocation region.offset region.length)
  token : ∀ offset, offset < d.size →
    ∃! t, t ∈ (lex d.text).tokens ∧ t.start ≤ offset ∧ offset < t.stop
  typeAt : ∀ t ∈ (lex d.text).tokens, ∀ offset, t.start ≤ offset → offset < t.stop →
    sections.typeAt d offset =
      match t.kind with
      | .string => "STRING"
      | .comment => "COMMENT"
      | .template => "TEMPLATE"
      | _ => "CODE"
  partitions : ∃ parts, d.partitionsOf? "calc" = .ok parts ∧
    if d.text = "" then parts = [⟨⟨0, 0, by decide⟩, "CODE"⟩] else Longest parts

private theorem IsEdited.isPartitioned (h : IsEdited d) : IsPartitioned d := by
  unfold IsPartitioned
  rw [h.consistent.partitionsOf?_eq, h.partitioners]
  rfl

private theorem IsEdited.size_lt (h : IsEdited d) : Text.size d.text < naOffset := by
  refine accepts_partitioner_iff.1 (h.consistent.accepts partitioner ?_)
  rw [h.partitioners]
  exact List.mem_singleton_self _

private theorem tokens_eq_nil_iff : (lex source).tokens = [] ↔ source = "" := by
  constructor
  · intro htokens
    have hsize : 0 = Text.byteCount source.toList := by
      have htiles := tiles_lex source
      rwa [htokens] at htiles
    by_contra hne
    have hpos := Text.byteCount_pos fun hnil => hne (String.toList_eq_nil_iff.1 hnil)
    omega
  · rintro rfl
    simp [lex, lexFrom]

private theorem longest_partitions (hsize : Text.size source < naOffset) :
    if source = "" then partitioner.partition source = [⟨⟨0, 0, by decide⟩, "CODE"⟩]
    else Longest (partitioner.partition source) := by
  cases htokens : (lex source).tokens with
  | nil =>
    rw [if_pos (tokens_eq_nil_iff.1 htokens)]
    simp only [partitioner, htokens, runs]
    rfl
  | cons t ts =>
    obtain ⟨-, hbefore⟩ := before_of_tokens hsize htokens
    have htiles := tiles_lex source
    rw [htokens] at htiles
    obtain ⟨p, ps, hparts, -, hlongest⟩ := longest_partitionsFrom hbefore htiles.2.1
    have hne : source ≠ "" := by
      rw [Ne, ← tokens_eq_nil_iff, htokens]
      exact List.cons_ne_nil t ts
    rw [if_neg hne, partition_of_tokens htokens, hparts]
    exact hlongest

private theorem IsEdited.sectionsFollow (h : IsEdited d) : SectionsFollow d where
  edit c text hc := h.tryChange_iff hc
  misplaced region new hno := by
    cases hr : Text.replace? d.text region.offset region.stop new with
    | none => simp only [TextDocument.tryChange, TextDocument.replace, hr]
    | some text => exact absurd (TextDocument.yields_replace_iff.2 hr) (hno text)
  token offset hoffset := (tiles_lex d.text).existsUnique_mem (Nat.zero_le offset) hoffset
  typeAt t ht offset hlo hlt := by
    rw [typeAt_of_mem h.isPartitioned h.size_lt ht hlo hlt]
    cases t.kind <;> rfl
  partitions := ⟨_, h.isPartitioned, longest_partitions h.size_lt⟩

/-- Behind any edits of a calc document, refused ones among them, its sections follow the tokens. -/
theorem sectionsFollow_run (hsize : Text.size source < naOffset) (hcs : ∀ c ∈ cs, c.isEdit) :
    ∃ d, document source = .ok d ∧ d.text = source ∧ SectionsFollow (d.run cs) := by
  obtain ⟨d, hd, htext, -⟩ := exists_document hsize
  exact ⟨d, hd, htext, ((isEdited_document hd).run hcs).sectionsFollow⟩

def midst : DocumentChange := .replace ⟨2, 0, by decide⟩ "x"

theorem sectionsFollow_run_midst : ∃ d, document "aé" = .ok d ∧
    d.tryChange midst = .error (.badLocation 2 0) ∧
      (d.run [midst, .setText "b = 1;"]).text = "b = 1;" ∧
        SectionsFollow (d.run [midst, .setText "b = 1;"]) := by
  have hsize : Text.size "aé" < naOffset := by decide
  have hedits : ∀ c ∈ [midst, .setText "b = 1;"], c.isEdit := by decide
  obtain ⟨d, hd, htext, hfollow⟩ := sectionsFollow_run hsize hedits
  have hstart := (isEdited_document hd).sectionsFollow
  have hrefused : d.tryChange midst = .error (.badLocation 2 0) := by
    refine hstart.misplaced _ _ fun text hyields => ?_
    have hnone : Text.replace? "aé" 2 2 "x" = none := by decide
    rw [TextDocument.yields_replace_iff, htext] at hyields
    exact nomatch hnone.symm.trans hyields
  obtain ⟨e, he, hetext⟩ := (hstart.edit (.setText "b = 1;") "b = 1;" rfl).2 ⟨rfl, by decide⟩
  have hrun : d.run [midst, .setText "b = 1;"] = e := by
    change (d.change midst).change (.setText "b = 1;") = e
    have hkept : d.change midst = d := by rw [TextDocument.change, hrefused]
    rw [hkept, TextDocument.change, he]
  exact ⟨d, hd, hrefused, by rw [hrun, hetext], hfollow⟩

end Edits

end SourceModel.Calc
