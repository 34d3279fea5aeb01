import SourceModel.Proofs.Calc.Placement
import SourceModel.Proofs.Calc.Reading

/-!
# The items of a reading

What a reading makes of tokens is sound, takes as many bytes as the tokens do, and is in error just
where the reading reports a fault or a token lacks its end.
-/

namespace SourceModel.Calc

open Draft (entriesAmong)

/-! ## Soundness -/

/-- Whether a tree has a place in the source, wherever it starts. -/
def Placed (c : Cst) : Prop := ∀ offset, significantBounds offset c ≠ none

section Placed

variable {kind : CstKind} {c : Cst} {cs : List Cst} {t : Token}

private theorem placed_leaf (h : ¬ t.isTrivia) : Placed t.leaf := by
  intro offset
  have ht : t.kind.isTrivia = false := Bool.eq_false_iff.2 h
  simp [Token.leaf, significantBounds, ht]

private theorem coverBounds_eq_none_iff {a b : Option (Nat × Nat)} :
    coverBounds a b = none ↔ a = none ∧ b = none := by
  cases a <;> cases b <;> simp [coverBounds]

private theorem significantBoundsAmong_ne_none (hc : Placed c) (hm : c ∈ cs) (offset : Nat) :
    significantBoundsAmong offset cs ≠ none := by
  induction cs generalizing offset with
  | nil => cases hm
  | cons d ds ih =>
    rw [significantBoundsAmong]
    intro h
    obtain ⟨hd, hds⟩ := coverBounds_eq_none_iff.1 h
    rcases List.mem_cons.1 hm with rfl | hm
    · exact hc offset hd
    · exact ih hm _ hds

private theorem placed_node (hc : Placed c) (hm : c ∈ cs) : Placed (.node kind cs) := by
  intro offset
  rw [significantBounds]
  split
  · exact Option.some_ne_none _
  · exact significantBoundsAmong_ne_none hc hm offset

private theorem placed_lack : Placed (.node .error []) := by
  intro offset
  simp [significantBounds, Cst.widths]

private theorem sound_node (hk : StartsAs kind cs) (hs : SoundAmong cs) (hc : Placed c)
    (hm : c ∈ cs) :
    Sound (.node kind cs) := ⟨placed_node hc hm, hk, hs⟩

theorem significant_of_kind {kind : TokenKind} (hk : t.kind = kind) (hs : kind.isTrivia = false) :
    ¬ t.isTrivia := by
  rw [Token.isTrivia, hk, hs]
  decide

private theorem sound_lack : Sound (.node .error []) := ⟨placed_lack, trivial, trivial⟩

private theorem sound_single (hk : StartsAs kind [t.leaf]) (ht : ¬ t.isTrivia) :
    Sound (.node kind [t.leaf]) :=
  sound_node hk ⟨trivial, trivial⟩ (placed_leaf ht) (by simp)

private theorem startsWith_leaves {kind : TokenKind} {blanks : List Token}
    (hb : ∀ b ∈ blanks, b.isTrivia) (hk : t.kind = kind) (rest : List Cst) :
    StartsWith kind ((blanks ++ [t]).map Token.leaf ++ rest) := by
  refine ⟨blanks, t.text, rest, hb, ?_⟩
  simp [Token.leaf, hk]

private theorem sound_item (h : Sound (.node kind cs)) (q : Prop) :
    SoundAmong [.node kind cs] ∧ (q → ∃ c ∈ [Cst.node kind cs], Placed c) :=
  ⟨⟨h, trivial⟩, fun _ => ⟨_, List.mem_singleton_self _, h.1⟩⟩

end Placed

/-- What a reading makes of tokens is sound, and has a place unless all of it may be trivia. -/
theorem Reads.sound {p : Phrase} {stop : Nat} {ts : List Token} {is : List Cst}
    {fs : List Diagnostic} (h : Reads p stop ts is fs) :
    SoundAmong is ∧ (p ≠ .program → ∃ c ∈ is, Placed c) := by
  induction h with
  | skip _ _ ih =>
    refine ⟨soundAmong_append.2 ⟨soundAmong_leaves _, ih.1⟩, fun hp => ?_⟩
    obtain ⟨c, hm, hc⟩ := ih.2 hp
    exact ⟨c, List.mem_append_right _ hm, hc⟩
  | literal kind =>
    refine sound_item ?_ _
    rcases kind with kind | kind
    · exact sound_single trivial (significant_of_kind kind rfl)
    · exact sound_single trivial (significant_of_kind kind rfl)
  | nameRef kind =>
    refine sound_item ?_ _
    exact sound_single trivial (significant_of_kind kind rfl)
  | template kind =>
    refine sound_item ?_ _
    have hw := startsWith_leaves (List.forall_mem_nil _) kind []
    exact sound_single hw (significant_of_kind kind rfl)
  | paren kind _ _ ih ih' =>
    refine sound_item ?_ _
    have hplaced := placed_leaf (significant_of_kind kind rfl)
    exact sound_node trivial ⟨trivial, soundAmong_append.2 ⟨ih.1, ih'.1⟩⟩ hplaced (by simp)
  | lacking => exact sound_item sound_lack _
  | misplaced message kind =>
    refine sound_item ?_ _
    exact sound_single trivial (significant_of_kind rfl (isTrivia_of_isMisplaced kind))
  | @lift p _ _ _ _ chain _ ih =>
    refine ⟨ih.1, fun _ => ih.2 ?_⟩
    cases p <;> first | decide | cases chain
  | @join p _ _ _ _ _ _ _ _ _ blank joins _ _ ih ih' =>
    refine sound_item ?_ _
    have hplaced := placed_leaf (significant_of_kind rfl (isTrivia_of_joins joins))
    refine sound_node trivial ?_ hplaced (by simp)
    simp only [soundAmong_append]
    exact ⟨⟨ih.1, soundAmong_leaves _⟩, ih'.1⟩
  | @found kind _ _ _ t blank closing same =>
    have hs : kind.isTrivia = false := by rcases closing with rfl | rfl <;> rfl
    refine ⟨soundAmong_leaves _, fun _ => ⟨t.leaf, by simp, ?_⟩⟩
    exact placed_leaf (significant_of_kind same hs)
  | missing => exact sound_item sound_lack _
  | assignment blank blank' kind kind' _ _ ih ih' =>
    refine sound_item ?_ _
    have hplaced := placed_leaf (significant_of_kind kind rfl)
    refine sound_node ?_ ?_ hplaced (by simp)
    · rw [List.append_assoc]
      exact startsWith_leaves blank kind _
    · simp only [soundAmong_append]
      exact ⟨⟨soundAmong_leaves _, soundAmong_leaves _⟩, ih.1, ih'.1⟩
  | chunk blank kind =>
    refine sound_item ?_ _
    have hplaced := placed_leaf (significant_of_kind kind rfl)
    have hw := startsWith_leaves blank kind []
    rw [List.append_nil] at hw
    exact sound_node hw (soundAmong_leaves _) hplaced (by simp)
  | closedChunk blank blank' kind kind' =>
    refine sound_item ?_ _
    have hplaced := placed_leaf (significant_of_kind kind rfl)
    refine sound_node (startsWith_leaves blank kind _) ?_ hplaced (by simp)
    exact soundAmong_append.2 ⟨soundAmong_leaves _, soundAmong_leaves _⟩
  | empty blank kind =>
    refine sound_item ?_ _
    exact sound_node trivial ⟨sound_lack, soundAmong_leaves _⟩ placed_lack (by simp)
  | value _ _ ih ih' =>
    refine sound_item ?_ _
    obtain ⟨c, hm, hc⟩ := ih.2 (by decide)
    exact sound_node trivial (soundAmong_append.2 ⟨ih.1, ih'.1⟩) hc (by simp [hm])
  | stray blank kind _ ih =>
    have hsound : Sound (.node .error _) := sound_single trivial (significant_of_kind kind rfl)
    refine ⟨?_, fun _ => ⟨_, by simp, hsound.1⟩⟩
    simp only [soundAmong_append]
    exact ⟨ih.1, soundAmong_leaves _, hsound, trivial⟩
  | done blank => exact ⟨soundAmong_leaves _, fun hp => absurd rfl hp⟩
  | later _ _ _ ih ih' => exact ⟨soundAmong_append.2 ⟨ih.1, ih'.1⟩, fun hp => absurd rfl hp⟩

/-! ## Size -/

/-- A reading loses nothing and adds nothing. -/
theorem Reads.widths_eq {p : Phrase} {stop : Nat} {ts : List Token} {is : List Cst}
    {fs : List Diagnostic} (h : Reads p stop ts is fs) :
    Cst.widths is = Cst.widths (ts.map Token.leaf) := by
  induction h <;> simp_all [Cst.widths_append, Cst.widths, Cst.width]

/-- Number of nodes that a phrase may have beyond those for its tokens. -/
def Phrase.surplus : Phrase → Nat
  | .statement => 3
  | .program => 0
  | _ => 1

/-- Number of nodes of a phrase for each of its tokens, at most. -/
def Phrase.share : Phrase → Nat
  | .program => 5
  | _ => 2

theorem nodeCount_leaf (t : Token) : t.leaf.nodeCount = 0 := rfl

theorem Reads.nodeCounts_le {p : Phrase} {stop : Nat} {ts : List Token} {is : List Cst}
    {fs : List Diagnostic} (h : Reads p stop ts is fs) :
    Cst.nodeCounts is ≤ p.share * ts.length + p.surplus := by
  induction h with
  | @skip p _ blanks ts _ _ _ _ ih =>
    have hmul := Nat.mul_le_mul_left p.share (List.suffix_append blanks ts).length_le
    rw [Cst.nodeCounts_append, nodeCounts_leaves]
    omega
  | @lift p _ _ _ _ chain _ ih =>
    cases p <;> first | exact ih | cases chain
  | @join p _ _ _ _ _ _ _ _ _ _ joins _ _ ih ih' =>
    simp only [Cst.nodeCounts_append, Cst.nodeCounts, Cst.nodeCount, nodeCounts_leaves]
    cases p with
    | term =>
      simp [Phrase.share, Phrase.surplus, Phrase.operand] at ih ih' ⊢
      omega
    | expr =>
      simp [Phrase.share, Phrase.surplus, Phrase.operand] at ih ih' ⊢
      omega
    | _ => cases joins
  | later progress _ _ ih ih' =>
    have hpos := List.length_pos_iff.2 progress
    simp only [Cst.nodeCounts_append, List.length_append, Phrase.share, Phrase.surplus] at ih ih' ⊢
    omega
  | done => simp [nodeCounts_leaves]
  | stray _ _ _ ih =>
    simp only [Phrase.share, Phrase.surplus, List.length_nil] at ih ⊢
    simp [Cst.nodeCounts_append, Cst.nodeCounts, Cst.nodeCount, nodeCounts_leaves]
    omega
  | _ =>
    simp only [Phrase.share, Phrase.surplus] at *
    simp [Cst.nodeCounts_append, Cst.nodeCounts, Cst.nodeCount, nodeCounts_leaves, nodeCount_leaf]
    try omega

/-! ## Errors -/

/-- What a token lacks by the judgement of the lowering. -/
def Token.lack? (t : Token) : Option LexicalFault :=
  match t.kind with
  | .string => if isClosedString t.text then none else some .unterminatedString
  | .template => if isClosedTemplate t.text then none else some .unterminatedTemplate
  | _ => none

def Entry.lack? (e : Entry) : Option LexicalFault :=
  match e.slip with
  | some (.unterminated fault) => some fault
  | _ => none

/-- Entries report as many faults of the grammar as given, and what the given tokens lack. -/
structure Accounts (es : List Entry) (fs : List Diagnostic) (ts : List Token) : Prop where
  grammar : es.countP (fun e => e.slip = some .grammar) = fs.length
  lacking : es.filterMap Entry.lack? = ts.filterMap Token.lack?

section Accounts

variable {es es' : List Entry} {fs fs' : List Diagnostic} {ts ts' : List Token} {t : Token}
  {e : Entry}

private theorem Accounts.nil (h : ∀ t ∈ ts, t.lack? = none) : Accounts [] [] ts := by
  refine ⟨rfl, ?_⟩
  rw [List.filterMap_eq_nil_iff.2 h]
  rfl

private theorem Accounts.append (h : Accounts es fs ts) (h' : Accounts es' fs' ts') :
    Accounts (es ++ es') (fs ++ fs') (ts ++ ts') := by
  constructor
  · rw [List.countP_append, List.length_append, h.grammar, h'.grammar]
  · rw [List.filterMap_append, List.filterMap_append, h.lacking, h'.lacking]

theorem Accounts.cons (he : e.slip = none) (h : Accounts es fs ts) : Accounts (e :: es) fs ts := by
  constructor
  · simpa [he] using h.grammar
  · simpa [Entry.lack?, he] using h.lacking

theorem lack?_eq_none {kind : TokenKind} (hk : t.kind = kind)
    (h : kind ≠ .string ∧ kind ≠ .template) : t.lack? = none := by
  unfold Token.lack?
  rw [hk]
  cases kind <;> first | rfl | simp at h

private theorem lack?_isMisplaced (h : t.kind.isMisplaced) : t.lack? = none := by
  refine lack?_eq_none rfl ?_
  constructor <;> intro hk <;> rw [hk] at h <;> cases h

private theorem lack?_joins {p : Phrase} (h : p.joins t.kind) : t.lack? = none := by
  refine lack?_eq_none rfl ?_
  constructor <;> intro hk <;> rw [hk] at h <;> cases p <;> cases h

private theorem lack?_trivia (h : t.isTrivia) : t.lack? = none := by
  refine lack?_eq_none rfl ?_
  rw [Token.isTrivia] at h
  constructor <;> intro hk <;> rw [hk] at h <;> cases h

private theorem Accounts.error (region : Region) (f : Diagnostic) (h : ∀ t ∈ ts, t.lack? = none) :
    Accounts [errorEntry region] [f] ts := by
  refine ⟨rfl, ?_⟩
  rw [List.filterMap_eq_nil_iff.2 h]
  rfl

private theorem Accounts.judged (he : e.slip = none) {closed : Bool} {fault : LexicalFault}
    (ht : t.lack? = if closed then none else some fault) :
    Accounts [e.judged closed fault] [] [t] := by
  cases closed with
  | true =>
    refine Accounts.cons he (.nil fun u hu => ?_)
    rw [List.mem_singleton.1 hu, ht]
    rfl
  | false => exact ⟨rfl, by simp [Entry.judged, Entry.lack?, ht]⟩

theorem lack?_string (h : t.kind = .string) :
    t.lack? = if isClosedString t.text then none else some .unterminatedString := by
  rw [Token.lack?, h]

theorem lack?_template (h : t.kind = .template) :
    t.lack? = if isClosedTemplate t.text then none else some .unterminatedTemplate := by
  rw [Token.lack?, h]

end Accounts

/-! ## Entries of items -/

def entriesAt (offset : Nat) (cs : List Cst) : List Entry := entriesAmong (draftsAmong offset cs)

/-- The entries for trees stand for the given faults and tokens, wherever the trees start. -/
def AccountsFor (cs : List Cst) (fs : List Diagnostic) (ts : List Token) : Prop :=
  ∀ offset, Accounts (entriesAt offset cs) fs ts

namespace AccountsFor

variable {cs ds : List Cst} {fs gs : List Diagnostic} {ts us blanks : List Token} {t : Token}

private theorem append (h : AccountsFor cs fs ts) (h' : AccountsFor ds gs us) :
    AccountsFor (cs ++ ds) (fs ++ gs) (ts ++ us) := by
  intro offset
  rw [entriesAt, draftsAmong_append, Draft.entriesAmong_append]
  exact (h offset).append (h' _)

private theorem leaves (h : ∀ t ∈ ts, t.lack? = none) : AccountsFor (ts.map Token.leaf) [] ts := by
  intro offset
  rw [entriesAt, draftsAmong_leaves]
  exact .nil h

private theorem trivia (h : ∀ b ∈ blanks, b.isTrivia) :
    AccountsFor (blanks.map Token.leaf) [] blanks :=
  leaves fun b hb => lack?_trivia (h b hb)

private theorem next (hb : ∀ b ∈ blanks, b.isTrivia) (ht : t.lack? = none) :
    AccountsFor ((blanks ++ [t]).map Token.leaf) [] (blanks ++ [t]) := by
  refine leaves fun u hu => ?_
  rcases List.mem_append.1 hu with hu | hu
  · exact lack?_trivia (hb u hu)
  · rw [List.mem_singleton.1 hu, ht]

private theorem node {c : Cst} (h : ∀ offset, Accounts (entriesAmong (drafts offset c)) fs ts) :
    AccountsFor [c] fs ts := by
  intro offset
  rw [entriesAt, draftsAmong, draftsAmong, List.append_nil]
  exact h offset

private theorem branch {kind : SyntaxKind} {region : Region} {text : Option String} {offset : Nat}
    (h : AccountsFor cs fs ts) :
    Accounts (entriesAmong [.branch kind region text (draftsAmong offset cs)]) fs ts := by
  simp only [entriesAmong, Draft.branch, Draft.entries, List.append_nil]
  exact .cons rfl (h offset)

private theorem exprStatement (h : AccountsFor cs fs ts) :
    AccountsFor [.node .exprStatement cs] fs ts := node fun _ => h.branch

private theorem paren (h : AccountsFor cs fs ts) : AccountsFor [.node .paren cs] fs ts :=
  node fun _ => h.branch

private theorem binary (h : AccountsFor cs fs ts) : AccountsFor [.node .binary cs] fs ts :=
  node fun _ => h.branch

private theorem assignment (h : AccountsFor cs fs ts) :
    AccountsFor [.node .assignment cs] fs ts := by
  refine node fun offset => ?_
  simp only [drafts, entriesAmong, Draft.branch, Draft.entries, List.append_nil,
    Draft.entriesAmong_append, nameDrafts]
  refine .cons rfl ?_
  cases Cst.findToken? .ident offset cs with
  | none => exact h offset
  | some found => exact .cons rfl (h offset)

private theorem error (f : Diagnostic) (h : ∀ t ∈ ts, t.lack? = none) :
    AccountsFor [.node .error cs] [f] ts := node fun _ => .error _ f h

private theorem literal (kind : t.kind = .number ∨ t.kind = .string) :
    AccountsFor [.node .literal [t.leaf]] [] [t] := by
  refine node fun offset => ?_
  rcases kind with kind | kind
  · have hf : Cst.findToken? .string offset [t.leaf] = none := by
      simp [Cst.findToken?, Token.leaf, kind]
    simp only [drafts, literalEntry, hf]
    exact .cons rfl (.nil (by simpa using lack?_eq_none kind (by decide)))
  · have hf : Cst.findToken? .string offset [t.leaf] = some (offset, t.text) := by
      simp [Cst.findToken?, Token.leaf, kind]
    simp only [drafts, literalEntry, hf]
    exact .judged rfl (lack?_string kind)

private theorem chunkDrafts (hb : ∀ b ∈ blanks, b.isTrivia) (kind : t.kind = .template)
    (hus : ∀ u ∈ us, u.lack? = none) (k : SyntaxKind) (flags : EmbeddingFlags) (offset : Nat)
    (region : Region) (rest : List Cst) :
    Accounts (entriesAmong
      (Calc.chunkDrafts k flags offset region ((blanks ++ [t]).map Token.leaf ++ rest))) []
        (blanks ++ t :: us) := by
  have hcs : (blanks ++ [t]).map Token.leaf ++ rest =
      blanks.map Token.leaf ++ .token .template t.text :: rest := by
    simp [Token.leaf, kind]
  rw [hcs, Calc.chunkDrafts, findToken?_startsWith rfl hb]
  have hblanks := Accounts.nil fun b h => lack?_trivia (hb b h)
  exact hblanks.append ((Accounts.judged rfl (lack?_template kind)).append (.nil hus))

private theorem templateExpr (kind : t.kind = .template) :
    AccountsFor [.node .templateExpr [t.leaf]] [] [t] :=
  node fun offset =>
    chunkDrafts (List.forall_mem_nil _) kind (List.forall_mem_nil _) _ _ offset _ []

private theorem templateStatement (hb : ∀ b ∈ blanks, b.isTrivia) (kind : t.kind = .template)
    (hus : ∀ u ∈ us, u.lack? = none) (rest : List Cst) :
    AccountsFor [.node .templateStatement ((blanks ++ [t]).map Token.leaf ++ rest)] []
      (blanks ++ t :: us) :=
  node fun offset => chunkDrafts hb kind hus _ _ offset _ rest

end AccountsFor

/-- The entries of a reading stand for its faults and for the tokens that lack their end. -/
theorem Reads.accounts {p : Phrase} {stop : Nat} {ts : List Token} {is : List Cst}
    {fs : List Diagnostic} (h : Reads p stop ts is fs) : AccountsFor is fs ts := by
  induction h with
  | skip blank _ ih => exact (AccountsFor.trivia blank).append ih
  | literal kind => exact .literal kind
  | nameRef kind =>
    have ht := lack?_eq_none kind (by decide)
    exact .node fun _ => .cons rfl (.nil (by simpa using ht))
  | template kind => exact .templateExpr kind
  | paren kind _ _ ih ih' =>
    have ho := AccountsFor.next (List.forall_mem_nil _) (lack?_eq_none kind (by decide))
    exact .paren (ho.append (ih.append ih'))
  | lacking => exact .error _ (List.forall_mem_nil _)
  | misplaced message kind => exact .error _ (by simpa using lack?_isMisplaced kind)
  | lift chain _ ih => exact ih
  | join blank joins _ _ ih ih' =>
    have h := (ih.append (AccountsFor.next blank (lack?_joins joins))).append ih'
    exact .binary (by simpa using h)
  | found blank closing same =>
    exact .next blank (lack?_eq_none same (by rcases closing with rfl | rfl <;> decide))
  | missing => exact .error _ (List.forall_mem_nil _)
  | assignment blank blank' kind kind' _ _ ih ih' =>
    have hn := AccountsFor.next blank (lack?_eq_none kind (by decide))
    have he := AccountsFor.next blank' (lack?_eq_none kind' (by decide))
    exact .assignment (by simpa using (hn.append he).append (ih.append ih'))
  | chunk blank kind =>
    simpa using AccountsFor.templateStatement blank kind (List.forall_mem_nil _) []
  | @closedChunk _ _ later t s blank blank' kind kind' =>
    refine AccountsFor.templateStatement blank kind (fun u hu => ?_) _
    rcases List.mem_append.1 hu with hu | hu
    · exact lack?_trivia (blank' u hu)
    · exact lack?_eq_none (List.mem_singleton.1 hu ▸ kind') (by decide)
  | empty blank kind =>
    have hs := AccountsFor.next blank (lack?_eq_none kind (by decide))
    exact .exprStatement ((AccountsFor.error _ (List.forall_mem_nil _)).append hs)
  | value _ _ ih ih' => exact .exprStatement (ih.append ih')
  | stray blank kind _ ih =>
    have ht := lack?_eq_none kind (by decide)
    exact ih.append ((AccountsFor.trivia blank).append (.error _ (by simpa using ht)))
  | done blank => exact .trivia blank
  | later _ _ _ ih ih' => exact ih.append ih'

end SourceModel.Calc
