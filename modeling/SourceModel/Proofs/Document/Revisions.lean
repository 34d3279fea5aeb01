import SourceModel.Document

/-!
# Revisions of a document

An edit that is accepted gives a document a new text and the next stamp. One that is refused
changes nothing, and neither text nor stamp changes when a partitioner is registered. So the stamp
counts the accepted edits, and the text stays as it is while there are none.
-/

namespace SourceModel

/-- What a client may do to a document. -/
inductive DocumentChange where
  | setText (text : String)
  | replace (region : Region) (text : String)
  | addPartitioner (p : Partitioner)

/-- Number of edits that a change makes up once it is accepted. -/
def DocumentChange.edits : DocumentChange → Nat
  | addPartitioner _ => 0
  | _ => 1

namespace TextDocument

def tryChange (d : TextDocument) : DocumentChange → Except Fault TextDocument
  | .setText text => d.setText text
  | .replace region text => d.replace region text
  | .addPartitioner p => d.addPartitioner p

/-- The document behind a change; one that is refused changes nothing. -/
def change (d : TextDocument) (c : DocumentChange) : TextDocument :=
  match d.tryChange c with
  | .ok e => e
  | .error _ => d

def editsOf (d : TextDocument) (c : DocumentChange) : Nat :=
  match d.tryChange c with
  | .ok _ => c.edits
  | .error _ => 0

/-- The second document comes from the first one by changes with `n` accepted edits among them. -/
inductive Evolves : TextDocument → Nat → TextDocument → Prop where
  | refl (d : TextDocument) : Evolves d 0 d
  | change {d e : TextDocument} {n : Nat} (c : DocumentChange) :
      Evolves d n e → Evolves d (n + e.editsOf c) (e.change c)

section Changes

variable {d e : TextDocument} {n : Nat}

private theorem setText_stamp {text : String} (h : d.setText text = .ok e) :
    e.stamp = d.stamp + 1 := by
  unfold setText at h
  cases hp : partitionAll text d.partitioners with
  | error fault =>
    rw [hp] at h
    cases h
  | ok partitions =>
    rw [hp] at h
    cases h
    rfl

private theorem replace_stamp {region : Region} {text : String}
    (h : d.replace region text = .ok e) : e.stamp = d.stamp + 1 := by
  unfold replace at h
  split at h
  · cases h
  · exact setText_stamp h

theorem addPartitioner_eq {p : Partitioner} (h : d.addPartitioner p = .ok e) :
    e.stamp = d.stamp ∧ e.text = d.text := by
  unfold addPartitioner at h
  cases hp : p.cut? d.text with
  | error fault =>
    rw [hp] at h
    cases h
  | ok parts =>
    rw [hp] at h
    cases h
    exact ⟨rfl, rfl⟩

private theorem change_stamp (d : TextDocument) (c : DocumentChange) :
    (d.change c).stamp = d.stamp + d.editsOf c := by
  unfold change editsOf
  cases h : d.tryChange c with
  | error fault => rfl
  | ok e =>
    cases c with
    | setText text => exact setText_stamp h
    | replace region text => exact replace_stamp h
    | addPartitioner p => exact (addPartitioner_eq h).1

private theorem change_text {c : DocumentChange} (hn : d.editsOf c = 0) :
    (d.change c).text = d.text := by
  unfold change
  unfold editsOf at hn
  cases h : d.tryChange c with
  | error fault => rfl
  | ok e =>
    rw [h] at hn
    cases c with
    | setText text => cases hn
    | replace region text => cases hn
    | addPartitioner p => exact (addPartitioner_eq h).2

theorem Evolves.stamp_eq (h : Evolves d n e) : e.stamp = d.stamp + n := by
  induction h with
  | refl => rfl
  | change c _ ih => rw [change_stamp, ih, Nat.add_assoc]

theorem Evolves.text_eq (h : Evolves d n e) (hn : n = 0) : e.text = d.text := by
  induction h with
  | refl => rfl
  | change c _ ih =>
    obtain ⟨hn, hc⟩ := Nat.add_eq_zero_iff.1 hn
    rw [change_text hc, ih hn]

end Changes

end TextDocument

end SourceModel
