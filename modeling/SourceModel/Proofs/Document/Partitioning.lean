import SourceModel.Proofs.Document.Revisions
import SourceModel.Proofs.Entries

/-!
# Partitions of a document

Whatever changes a document has gone through, it has the partitions of its text under the last one
of the accepted partitioners of each name, and they lie side by side over all of the text. A change
is refused if it has no place in the text or if any partitioner refuses the text that it leads to,
and then the document is as before, also if the change writes to it in place.
-/

namespace SourceModel

/-- Whether parts lie side by side between two offsets. -/
def Covers (lo hi : Nat) : List Partition → Prop
  | [] => lo = hi
  | p :: ps => p.region.offset = lo ∧ Covers p.region.stop hi ps

namespace Partitioner

variable {name text : String} {p : Partitioner} {ps : List Partitioner} {parts : List Partition}

/-- Whether the parts into which a partitioner cuts a text lie side by side over all of it. -/
def Accepts (p : Partitioner) (text : String) : Prop := Covers 0 (Text.size text) (p.partition text)

private theorem endOf_eq_ok_iff {start stop : Nat} :
    endOf start parts = .ok stop ↔ Covers start stop parts := by
  induction parts generalizing start with
  | nil => simp [endOf, Covers]
  | cons q qs ih =>
    by_cases hq : q.region.offset = start <;> simp [endOf, Covers, hq, ih]

private theorem defect?_eq_none_iff {size : Nat} :
    defect? size parts = none ↔ Covers 0 size parts := by
  rw [← endOf_eq_ok_iff]
  unfold defect?
  cases endOf 0 parts with
  | error defect => simp
  | ok stop => by_cases hs : stop = size <;> simp [hs]

theorem cut?_eq_ok_iff : p.cut? text = .ok parts ↔ p.Accepts text ∧ p.partition text = parts := by
  rw [Accepts, ← defect?_eq_none_iff, cut?]
  cases defect? (Text.size text) (p.partition text) <;> simp

def lastNamed? (name : String) (ps : List Partitioner) : Option Partitioner :=
  (ps.filter (·.name = name)).getLast?

private theorem lastNamed?_append (qs : List Partitioner) :
    lastNamed? name (ps ++ qs) = (lastNamed? name qs).or (lastNamed? name ps) := by
  rw [lastNamed?, List.filter_append, List.getLast?_append, lastNamed?, lastNamed?]

private theorem lastNamed?_singleton :
    lastNamed? name [p] = if name = p.name then some p else none := by
  by_cases hp : name = p.name
  · simp [lastNamed?, hp]
  · simp [lastNamed?, hp, Ne.symm hp]

private theorem lastNamed?_mem (h : lastNamed? name ps = some p) : p ∈ ps :=
  (List.mem_filter.1 (List.mem_of_getLast? h)).1

end Partitioner

namespace TextDocument

open Partitioner (lastNamed? lastNamed?_append lastNamed?_singleton cut?_eq_ok_iff)

variable {name text : String} {ps : List Partitioner} {entries : List (String × List Partition)}

private theorem lookup_putPartitions (key : String) (parts : List Partition) :
    (putPartitions key parts entries).lookup name =
      if name = key then some parts else entries.lookup name := by
  induction entries with
  | nil => exact lookup_entry
  | cons entry rest ih =>
    obtain ⟨first, parts'⟩ := entry
    by_cases hf : first = key
    · subst hf
      rw [putPartitions, if_pos rfl, lookup_entry, lookup_entry]
      by_cases hn : name = first <;> simp [hn]
    · rw [putPartitions, if_neg hf, lookup_entry, lookup_entry, ih]
      by_cases hn : name = first
      · have hk : ¬ name = key := fun hk => hf (hn.symm.trans hk)
        simp [hn, hn ▸ hk]
      · simp [hn]

/-- The partitions of a text under several partitioners, put to others. -/
def putAll (text : String) (ps : List Partitioner) (entries : List (String × List Partition)) :
    List (String × List Partition) :=
  ps.foldl (fun entries p => putPartitions p.name (p.partition text) entries) entries

private theorem lookup_putAll :
    (putAll text ps entries).lookup name =
      ((lastNamed? name ps).map (·.partition text)).or (entries.lookup name) := by
  induction ps generalizing entries with
  | nil => rfl
  | cons p ps ih =>
    have hlast := @lastNamed?_append name [p] ps
    rw [List.singleton_append, lastNamed?_singleton] at hlast
    rw [putAll, List.foldl_cons, ← putAll, ih, lookup_putPartitions, hlast]
    cases lastNamed? name ps with
    | some q => rfl
    | none => by_cases hp : name = p.name <;> simp [hp]

/-- Either all partitioners accept the text, or the first one that does not refuses it. -/
theorem foldlM_cut?_eq_ok_iff {first : List (String × List Partition)} :
    ps.foldlM (fun entries p => p.cut? text >>= fun parts =>
        (pure (putPartitions p.name parts entries) : Except Fault _)) first = .ok entries ↔
      (∀ p ∈ ps, p.Accepts text) ∧ putAll text ps first = entries := by
  induction ps generalizing first with
  | nil => simp [putAll, pure, Except.pure]
  | cons p ps ih =>
    rw [List.foldlM_cons, putAll, List.foldl_cons, ← putAll, List.forall_mem_cons]
    cases hp : p.cut? text with
    | error fault =>
      have hrefused : ¬ p.Accepts text := by
        intro haccepts
        rw [cut?_eq_ok_iff.2 ⟨haccepts, rfl⟩] at hp
        cases hp
      simp [hrefused, bind, Except.bind]
    | ok parts =>
      obtain ⟨haccepts, rfl⟩ := cut?_eq_ok_iff.1 hp
      simp only [haccepts, true_and]
      exact ih

private theorem partitionAll_eq_ok_iff :
    partitionAll text ps = .ok entries ↔
      (∀ p ∈ ps, p.Accepts text) ∧ putAll text ps [] = entries := foldlM_cut?_eq_ok_iff

/-! ## Changes -/

/-- A change leads from the text of a document to another text. -/
def Yields (d : TextDocument) : DocumentChange → String → Prop
  | .setText new, text => text = new
  | .replace region new, text => ∃ front middle back, d.text = front ++ middle ++ back ∧
      Text.size front = region.offset ∧ Text.size middle = region.length ∧
      text = front ++ new ++ back
  | .addPartitioner _, text => text = d.text

end TextDocument

def DocumentChange.isEdit : DocumentChange → Bool
  | addPartitioner _ => false
  | _ => true

private theorem edits_eq (c : DocumentChange) : c.edits = if c.isEdit then 1 else 0 := by
  cases c <;> rfl

/-- The partitioners that a document has in addition once a change is accepted. -/
def DocumentChange.registered : DocumentChange → List Partitioner
  | addPartitioner p => [p]
  | _ => []

namespace TextDocument

open Partitioner (lastNamed? lastNamed?_append lastNamed?_singleton lastNamed?_mem cut?_eq_ok_iff)

/-- Whether a change has a place in the text and all partitioners accept what it leads to. -/
def Admits (d : TextDocument) (c : DocumentChange) : Prop :=
  ∃ text, d.Yields c text ∧ ∀ p ∈ d.partitioners ++ c.registered, p.Accepts text

/-- The partitions of a document are those that its partitioners give for its text. -/
structure Consistent (d : TextDocument) : Prop where
  accepts : ∀ p ∈ d.partitioners, p.Accepts d.text
  lookup_eq : ∀ name,
    d.partitions.lookup name = (lastNamed? name d.partitioners).map (·.partition d.text)

structure Follows (d : TextDocument) (c : DocumentChange) (e : TextDocument) : Prop where
  consistent : e.Consistent
  yields : d.Yields c e.text
  partitioners_eq : e.partitioners = d.partitioners ++ c.registered
  stamp_eq : e.stamp = d.stamp + c.edits

section Changes

variable {d e : TextDocument} {c : DocumentChange}

private theorem Follows.admits (h : Follows d c e) : d.Admits c :=
  ⟨e.text, h.yields, h.partitioners_eq ▸ h.consistent.accepts⟩

theorem yields_replace_iff {region : Region} {new text : String} :
    d.Yields (.replace region new) text ↔
      Text.replace? d.text region.offset region.stop new = some text := by
  simp only [Yields, Text.replace?, Option.map_eq_some_iff, Prod.exists, Text.cut?_eq_some_iff]
  constructor
  · rintro ⟨front, middle, back, ht, hf, hm, rfl⟩
    exact ⟨front, middle, back, ⟨ht, hf, by rw [hf, hm]; rfl⟩, rfl⟩
  · rintro ⟨front, middle, back, ⟨ht, hf, hs⟩, rfl⟩
    refine ⟨front, middle, back, ht, hf, ?_, rfl⟩
    rw [hf] at hs
    exact Nat.add_left_cancel hs

theorem Yields.unique {text text' : String} (h : d.Yields c text) (h' : d.Yields c text') :
    text = text' := by
  cases c with
  | setText new => exact h.trans h'.symm
  | addPartitioner p => exact h.trans h'.symm
  | replace region new =>
    rw [yields_replace_iff] at h h'
    exact Option.some.inj (h.symm.trans h')

/-- A text is taken over if all partitioners accept it, and refused otherwise. -/
theorem setText_cases (d : TextDocument) (text : String) :
    (∃ e, d.setText text = .ok e ∧ Follows d (.setText text) e) ∨
      (∃ fault, d.setText text = .error fault) ∧ ¬ ∀ p ∈ d.partitioners, p.Accepts text := by
  cases hp : partitionAll text d.partitioners with
  | error fault =>
    refine .inr ⟨⟨fault, by rw [setText, hp]; rfl⟩, fun haccepts => ?_⟩
    rw [partitionAll_eq_ok_iff.2 ⟨haccepts, rfl⟩] at hp
    cases hp
  | ok entries =>
    obtain ⟨haccepts, rfl⟩ := partitionAll_eq_ok_iff.1 hp
    have hok : d.setText text = .ok { d with
        text, stamp := d.stamp + 1, partitions := putAll text d.partitioners [] } := by
      rw [setText, hp]
      rfl
    refine .inl ⟨_, hok, ⟨haccepts, fun name => ?_⟩, rfl, ?_, rfl⟩
    · rw [lookup_putAll]
      simp
    · simp [DocumentChange.registered]

/-- A change is accepted just if the document admits it. -/
theorem Consistent.change_cases (h : d.Consistent) (c : DocumentChange) :
    (∃ e, d.tryChange c = .ok e ∧ Follows d c e) ∨
      (∃ fault, d.tryChange c = .error fault) ∧ ¬ d.Admits c := by
  cases c with
  | setText text =>
    refine (d.setText_cases text).imp id fun hrefused => ⟨hrefused.1, ?_⟩
    rintro ⟨_, rfl, haccepts⟩
    exact hrefused.2 fun p hp => haccepts p (List.mem_append_left _ hp)
  | replace region new =>
    cases hr : Text.replace? d.text region.offset region.stop new with
    | none =>
      refine .inr ⟨⟨.badLocation region.offset region.length, ?_⟩, ?_⟩
      · simp only [tryChange, replace, hr]
      · rintro ⟨text, hyields, -⟩
        rw [yields_replace_iff, hr] at hyields
        cases hyields
    | some text =>
      have heq : d.tryChange (.replace region new) = d.setText text := by
        simp only [tryChange, replace, hr]
      rcases d.setText_cases text with ⟨e, he, hfollows⟩ | ⟨⟨fault, hfault⟩, hrefused⟩
      · have htext : e.text = text := hfollows.yields
        have hyields : d.Yields (.replace region new) e.text := by
          rw [yields_replace_iff, htext, hr]
        exact .inl ⟨e, heq.trans he,
          ⟨hfollows.consistent, hyields, hfollows.partitioners_eq, hfollows.stamp_eq⟩⟩
      · refine .inr ⟨⟨fault, heq.trans hfault⟩, ?_⟩
        rintro ⟨text', hyields, haccepts⟩
        rw [yields_replace_iff, hr] at hyields
        cases hyields
        exact hrefused fun p hp => haccepts p (List.mem_append_left _ hp)
  | addPartitioner p =>
    cases hp : p.cut? d.text with
    | error fault =>
      refine .inr ⟨⟨fault, by rw [tryChange, addPartitioner, hp]; rfl⟩, ?_⟩
      rintro ⟨_, rfl, haccepts⟩
      rw [cut?_eq_ok_iff.2 ⟨haccepts p (by simp [DocumentChange.registered]), rfl⟩] at hp
      cases hp
    | ok parts =>
      obtain ⟨haccepts, rfl⟩ := cut?_eq_ok_iff.1 hp
      have hok : d.tryChange (.addPartitioner p) = .ok { d with
          partitioners := d.partitioners ++ [p]
          partitions := putPartitions p.name (p.partition d.text) d.partitions } := by
        rw [tryChange, addPartitioner, hp]
        rfl
      refine .inl ⟨_, hok, ⟨fun q hq => ?_, fun name => ?_⟩, rfl, rfl, rfl⟩
      · rcases List.mem_append.1 hq with hq | hq
        · exact h.accepts q hq
        · exact List.mem_singleton.1 hq ▸ haccepts
      · rw [lookup_putPartitions, lastNamed?_append, lastNamed?_singleton, h.lookup_eq]
        by_cases hn : name = p.name <;> simp [hn]

/-! ## Changes in place -/

/-- Takes a text over in place. What it writes before it fails stays written. -/
def commitInPlace (text : String) : EStateM Fault TextDocument Unit := do
  let partitions ← MonadExcept.ofExcept (partitionAll text (← get).partitioners)
  modify fun d => { d with text }
  modify fun d => { d with stamp := d.stamp + 1 }
  modify fun d => { d with partitions }

/-- A change of a document in place, one field after the other. -/
def changeInPlace : DocumentChange → EStateM Fault TextDocument Unit
  | .setText text => commitInPlace text
  | .replace region new => do
    match Text.replace? (← get).text region.offset region.stop new with
    | none => throw (.badLocation region.offset region.length)
    | some text => commitInPlace text
  | .addPartitioner p => do
    let parts ← MonadExcept.ofExcept (p.cut? (← get).text)
    modify fun d => { d with partitions := putPartitions p.name parts d.partitions }
    modify fun d => { d with partitioners := d.partitioners ++ [p] }

private theorem commitInPlace_run (d : TextDocument) (text : String) :
    (commitInPlace text).run d =
      match d.setText text with
      | .ok e => .ok () e
      | .error fault => .error fault d := by
  simp only [commitInPlace, EStateM.run_bind, EStateM.run_get, setText]
  cases partitionAll text d.partitioners <;> rfl

/-- A change that fails in place fails before it writes anything. -/
theorem changeInPlace_run (d : TextDocument) (c : DocumentChange) :
    (changeInPlace c).run d =
      match d.tryChange c with
      | .ok e => .ok () e
      | .error fault => .error fault d := by
  cases c with
  | setText text => exact commitInPlace_run d text
  | replace region new =>
    simp only [changeInPlace, EStateM.run_bind, EStateM.run_get, tryChange, replace]
    cases Text.replace? d.text region.offset region.stop new with
    | none => rfl
    | some text => exact commitInPlace_run d text
  | addPartitioner p =>
    simp only [changeInPlace, EStateM.run_bind, EStateM.run_get, tryChange, addPartitioner]
    cases p.cut? d.text <;> rfl

/-! ## Runs -/

def run (d : TextDocument) (cs : List DocumentChange) : TextDocument := cs.foldl change d

def accepted (d : TextDocument) : List DocumentChange → List DocumentChange
  | [] => []
  | c :: cs =>
    match d.tryChange c with
    | .ok e => c :: accepted e cs
    | .error _ => accepted d cs

theorem Consistent.run (h : d.Consistent) (cs : List DocumentChange) :
    (d.run cs).Consistent ∧
      (d.run cs).partitioners =
        d.partitioners ++ (d.accepted cs).flatMap DocumentChange.registered ∧
      (d.run cs).stamp = d.stamp + (d.accepted cs).countP DocumentChange.isEdit := by
  induction cs generalizing d with
  | nil => exact ⟨h, by simp [TextDocument.run, accepted], rfl⟩
  | cons c cs ih =>
    rw [TextDocument.run, List.foldl_cons, ← TextDocument.run]
    rcases h.change_cases c with ⟨e, he, hfollows⟩ | ⟨⟨fault, hfault⟩, -⟩
    · have hchange : d.change c = e := by simp only [change, he]
      obtain ⟨hconsistent, hpartitioners, hstamp⟩ := ih hfollows.consistent
      rw [hchange]
      simp only [accepted, he]
      refine ⟨hconsistent, ?_, ?_⟩
      · rw [hpartitioners, hfollows.partitioners_eq, List.flatMap_cons, List.append_assoc]
      · rw [hstamp, hfollows.stamp_eq, List.countP_cons, edits_eq, Nat.add_right_comm,
          Nat.add_assoc]
    · have hchange : d.change c = d := by simp only [change, hfault]
      rw [hchange]
      simp only [accepted, hfault]
      exact ih h

end Changes

section Consistent

variable {d : TextDocument} (h : d.Consistent)
include h

theorem Consistent.partitionsOf?_eq (name : String) :
    d.partitionsOf? name =
      match lastNamed? name d.partitioners with
      | some p => .ok (p.partition d.text)
      | none => .error (.contract s!"unknown partitioning '{name}'") := by
  rw [partitionsOf?, h.lookup_eq]
  cases lastNamed? name d.partitioners <;> rfl

theorem Consistent.covers {name : String} {parts : List Partition}
    (hparts : d.partitionsOf? name = .ok parts) : Covers 0 (Text.size d.text) parts := by
  rw [h.partitionsOf?_eq] at hparts
  cases hp : lastNamed? name d.partitioners with
  | none =>
    rw [hp] at hparts
    cases hparts
  | some p =>
    rw [hp] at hparts
    cases hparts
    exact h.accepts p (lastNamed?_mem hp)

private theorem Consistent.tryChange_eq_error_iff (c : DocumentChange) :
    (∃ fault, d.tryChange c = .error fault) ↔ ¬ d.Admits c := by
  rcases h.change_cases c with ⟨e, he, hfollows⟩ | hrefused
  · refine iff_of_false ?_ (not_not_intro hfollows.admits)
    rintro ⟨fault, hfault⟩
    rw [he] at hfault
    cases hfault
  · exact iff_of_true hrefused.1 hrefused.2

theorem Consistent.yields {c : DocumentChange} {e : TextDocument} (he : d.tryChange c = .ok e) :
    d.Yields c e.text := by
  rcases h.change_cases c with ⟨e', he', hfollows⟩ | ⟨⟨fault, hfault⟩, -⟩
  · rw [he] at he'
    cases he'
    exact hfollows.yields
  · rw [he] at hfault
    cases hfault

end Consistent

/-- After any changes of a new document the last accepted partitioner of each name gives the
partitions of that name for the text, and they lie side by side over it. The next change is refused
just if it has no place in the text or some partitioner refuses what it leads to, and then it leaves
the document as it is, also in place; an accepted one leads to what it asks for. The stamp counts
the accepted edits. -/
theorem run_partitioned (text : String) (cs : List DocumentChange) :
    (run { text } cs).partitioners =
        (accepted { text } cs).flatMap DocumentChange.registered ∧
      (∀ name, (run { text } cs).partitionsOf? name =
        match lastNamed? name (run { text } cs).partitioners with
        | some p => .ok (p.partition (run { text } cs).text)
        | none => .error (.contract s!"unknown partitioning '{name}'")) ∧
      (∀ name parts, (run { text } cs).partitionsOf? name = .ok parts →
        Covers 0 (Text.size (run { text } cs).text) parts) ∧
      (∀ c, (∃ fault, (run { text } cs).tryChange c = .error fault) ↔
        ¬ (run { text } cs).Admits c) ∧
      (∀ c, (changeInPlace c).run (run { text } cs) =
        match (run { text } cs).tryChange c with
        | .ok e => .ok () e
        | .error fault => .error fault (run { text } cs)) ∧
      (∀ c e, (run { text } cs).tryChange c = .ok e → (run { text } cs).Yields c e.text) ∧
      (run { text } cs).stamp = 1 + (accepted { text } cs).countP DocumentChange.isEdit := by
  have hnew : Consistent { text } := ⟨List.forall_mem_nil _, fun _ => rfl⟩
  obtain ⟨hconsistent, hpartitioners, hstamp⟩ := hnew.run cs
  refine ⟨hpartitioners, hconsistent.partitionsOf?_eq, fun _ _ => hconsistent.covers,
    hconsistent.tryChange_eq_error_iff, changeInPlace_run _, fun _ _ => hconsistent.yields, hstamp⟩

/-- A partitioner of one part that ends before a mark, and so refuses the texts with the mark. -/
def upTo (name : String) (mark : Char) : Partitioner where
  name
  partition text :=
    let stop := Text.byteCount (text.toList.takeWhile (· != mark))
    (Partitioner.part? 0 stop "CODE").toOption.toList

/-- The changes of a document with two partitioners, of which one refuses the first edit. -/
def twicePartitioned : List DocumentChange :=
  [.addPartitioner (upTo "questions" '?'), .addPartitioner (upTo "calls" '!'), .setText "so?",
    .replace ⟨1, 1, by decide⟩ "\n"]

/-- An edit that one of two partitioners refuses changes nothing. -/
theorem run_partitioned_refused :
    (∃ parts, (run { text := "abc" } twicePartitioned).partitionsOf? "calls" = .ok parts ∧
        Covers 0 (Text.size (run { text := "abc" } twicePartitioned).text) parts) ∧
      (∃ fault, (changeInPlace (.setText "so?")).run (run { text := "abc" } twicePartitioned) =
        .error fault (run { text := "abc" } twicePartitioned)) ∧
      (∃ e, (run { text := "abc" } twicePartitioned).tryChange (.setText "so") = .ok e ∧
        (run { text := "abc" } twicePartitioned).Yields (.setText "so") e.text) ∧
      (run { text := "abc" } twicePartitioned).stamp = 2 := by
  obtain ⟨-, -, hcovers, -, hinplace, hyields, -⟩ := run_partitioned "abc" twicePartitioned
  exact ⟨⟨_, rfl, hcovers "calls" _ rfl⟩, ⟨_, hinplace (.setText "so?")⟩, ⟨_, rfl, hyields _ _ rfl⟩,
    rfl⟩

end TextDocument

end SourceModel
