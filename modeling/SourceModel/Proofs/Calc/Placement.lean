import SourceModel.Proofs.Calc.Draft

/-!
# Where drafts lie

A concrete tree is sound when each of its nodes has a place in the source and starts with the tokens
that its kind asks for. The draft of a sound tree is nested: a node lies between the bounds of its
significant tokens, and what follows in the source starts behind it.
-/

namespace SourceModel.Calc

open SourceModel.Tree (NestedIn sizes)
open Draft (trees)

/-! ## Bounds -/

mutual
theorem significantBounds_mem : ∀ {offset s e : Nat} {c : Cst},
    significantBounds offset c = some (s, e) → offset ≤ s ∧ s ≤ e ∧ e ≤ offset + c.width
  | offset, s, e, .token kind text, h => by
    rw [significantBounds] at h
    split at h
    · cases h
    · cases h
      simp only [Cst.width]
      omega
  | offset, s, e, .node kind children, h => by
    rw [significantBounds] at h
    split at h
    · cases h
      simp only [Cst.width]
      omega
    · exact significantBoundsAmong_mem h

theorem significantBoundsAmong_mem : ∀ {offset s e : Nat} {cs : List Cst},
    significantBoundsAmong offset cs = some (s, e) → offset ≤ s ∧ s ≤ e ∧ e ≤ offset + Cst.widths cs
  | offset, s, e, [], h => by cases h
  | offset, s, e, c :: cs, h => by
    rw [significantBoundsAmong] at h
    cases hc : significantBounds offset c with
    | none =>
      rw [hc] at h
      have := significantBoundsAmong_mem (show significantBoundsAmong _ cs = _ from h)
      simp only [Cst.widths]
      omega
    | some b =>
      obtain ⟨s', e'⟩ := b
      have hb := significantBounds_mem hc
      rw [hc] at h
      cases hcs : significantBoundsAmong (offset + c.width) cs with
      | none =>
        rw [hcs] at h
        cases h
        simp only [Cst.widths]
        omega
      | some b' =>
        obtain ⟨s'', e''⟩ := b'
        have hb' := significantBoundsAmong_mem hcs
        rw [hcs] at h
        cases h
        simp only [Cst.widths]
        omega
end

def Between (lo hi : Nat) (bounds : Option (Nat × Nat)) : Prop :=
  ∀ s e, bounds = some (s, e) → lo ≤ s ∧ e ≤ hi

theorem between_widths (offset : Nat) (cs : List Cst) :
    Between offset (offset + Cst.widths cs) (significantBoundsAmong offset cs) := by
  intro s e h
  have := significantBoundsAmong_mem h
  omega

theorem between_coverBounds {lo hi : Nat} {a b : Option (Nat × Nat)} :
    Between lo hi (coverBounds a b) ↔ Between lo hi a ∧ Between lo hi b := by
  constructor
  · intro h
    constructor
    · rintro s e rfl
      cases b with
      | none => exact h s e rfl
      | some b =>
        have := h (min s b.1) (max e b.2) rfl
        omega
    · rintro s e rfl
      cases a with
      | none => exact h s e rfl
      | some a =>
        have := h (min a.1 s) (max a.2 e) rfl
        omega
  · rintro ⟨ha, hb⟩ s e h
    cases a with
    | none => exact hb s e h
    | some a =>
      cases b with
      | none => exact ha s e h
      | some b =>
        have := ha a.1 a.2 rfl
        have := hb b.1 b.2 rfl
        cases h
        omega

theorem Between.split {lo hi offset : Nat} {c : Cst} {cs : List Cst} (hle : lo ≤ hi)
    (h : Between lo hi (significantBoundsAmong offset (c :: cs))) :
    ∃ mid, lo ≤ mid ∧ mid ≤ hi ∧ Between lo mid (significantBounds offset c) ∧
      Between mid hi (significantBoundsAmong (offset + c.width) cs) := by
  rw [significantBoundsAmong] at h
  obtain ⟨hc, hcs⟩ := between_coverBounds.1 h
  cases hb : significantBounds offset c with
  | none => exact ⟨lo, Nat.le_refl _, hle, (fun s e he => nomatch he), hcs⟩
  | some b =>
    obtain ⟨s, e⟩ := b
    have hmem := significantBounds_mem hb
    have hse := hc s e hb
    refine ⟨e, by omega, hse.2, ?_, ?_⟩
    · intro s' e' he
      cases he
      exact ⟨hse.1, Nat.le_refl _⟩
    · intro s' e' he
      have := significantBoundsAmong_mem he
      have := hcs s' e' he
      omega

/-! ## Sound trees -/

def StartsWith (kind : TokenKind) (cs : List Cst) : Prop :=
  ∃ (blanks : List Token) (text : String) (rest : List Cst), (∀ b ∈ blanks, b.isTrivia) ∧
    cs = blanks.map Token.leaf ++ .token kind text :: rest

/-- The children of a node start with the token that its kind asks for. -/
def StartsAs (kind : CstKind) (children : List Cst) : Prop :=
  match kind with
  | .assignment => StartsWith .ident children
  | .templateStatement | .templateExpr => StartsWith .template children
  | .program => False
  | _ => True

mutual
/-- Whether every node has a place and starts as its kind asks for. -/
def Sound : Cst → Prop
  | .token _ _ => True
  | .node kind children =>
    (∀ offset, significantBounds offset (.node kind children) ≠ none) ∧ StartsAs kind children ∧
      SoundAmong children

def SoundAmong : List Cst → Prop
  | [] => True
  | c :: cs => Sound c ∧ SoundAmong cs
end

section Sound

variable {offset lo hi : Nat} {kind : CstKind} {cs ds : List Cst}

theorem soundAmong_append : SoundAmong (cs ++ ds) ↔ SoundAmong cs ∧ SoundAmong ds := by
  induction cs with
  | nil => simp [SoundAmong]
  | cons c cs ih => simp [SoundAmong, ih, and_assoc]

theorem soundAmong_leaves (ts : List Token) : SoundAmong (ts.map Token.leaf) := by
  induction ts with
  | nil => trivial
  | cons t ts ih => exact ⟨trivial, ih⟩

/-- A sound node has its region between the bounds of its significant tokens. -/
theorem place_mem (h : Sound (.node kind cs)) (hsize : offset + Cst.widths cs < naOffset) :
    significantRegion offset (.node kind cs) = .ok (place offset (.node kind cs)) ∧
      significantBounds offset (.node kind cs) =
        some ((place offset (.node kind cs)).offset, (place offset (.node kind cs)).stop) := by
  obtain ⟨⟨s, e⟩, hb⟩ := Option.ne_none_iff_exists'.1 (h.1 offset)
  have hmem := significantBounds_mem hb
  simp only [Cst.width] at hmem
  have hr : ∃ r, Region.ofBounds? s e = .ok r := by
    refine ⟨⟨s, e - s, by omega⟩, Region.ofBounds?_eq_ok_iff.2 ⟨rfl, ?_⟩⟩
    simp only [Region.stop_mk]
    omega
  obtain ⟨r, hr⟩ := hr
  have hs : significantRegion offset (.node kind cs) = .ok r := by
    simp only [significantRegion, hb]
    exact hr
  obtain ⟨ho, ht⟩ := Region.ofBounds?_eq_ok_iff.1 hr
  have hp : place offset (.node kind cs) = r := by rw [place, hs]; rfl
  rw [hp, ho, ht]
  exact ⟨hs, hb⟩

theorem draftsAmong_leaves (offset : Nat) (ts : List Token) :
    draftsAmong offset (ts.map Token.leaf) = [] := by
  induction ts generalizing offset with
  | nil => rfl
  | cons t ts ih => simp only [List.map_cons, draftsAmong, Token.leaf, drafts, ih, List.append_nil]

theorem significantBoundsAmong_trivia (offset : Nat) {ts : List Token}
    (h : ∀ t ∈ ts, t.isTrivia) (cs : List Cst) :
    significantBoundsAmong offset (ts.map Token.leaf ++ cs) =
      significantBoundsAmong (offset + Cst.widths (ts.map Token.leaf)) cs := by
  induction ts generalizing offset with
  | nil => simp [Cst.widths]
  | cons t ts ih =>
    have ht : t.kind.isTrivia = true := h t (by simp)
    simp only [List.map_cons, List.cons_append, significantBoundsAmong, Token.leaf,
      significantBounds, ht, if_true, coverBounds, Cst.widths, Cst.width]
    rw [← Nat.add_assoc]
    exact ih _ fun u hu => h u (by simp [hu])

theorem findToken?_startsWith {kind : TokenKind} {text : String} {blanks : List Token}
    (hk : kind.isTrivia = false) (hb : ∀ b ∈ blanks, b.isTrivia) (offset : Nat) (rest : List Cst) :
    Cst.findToken? kind offset (blanks.map Token.leaf ++ .token kind text :: rest) =
      some (offset + Cst.widths (blanks.map Token.leaf), text) := by
  induction blanks generalizing offset with
  | nil => simp [Cst.findToken?, Cst.widths]
  | cons b blanks ih =>
    have hne : b.kind ≠ kind := by
      intro he
      have ht : b.kind.isTrivia = true := hb b (by simp)
      rw [he, hk] at ht
      cases ht
    simp only [List.map_cons, List.cons_append, Token.leaf, Cst.findToken?, hne, if_false,
      Cst.widths, Cst.width]
    rw [← Nat.add_assoc]
    exact ih (fun u hu => hb u (by simp [hu])) _

end Sound

/-! ## Drafts of sound trees -/

section Nested

variable {offset lo hi : Nat} {kind : CstKind} {cs : List Cst} {region : Region}

private theorem nestedIn_leaf {e : Entry} (hlo : lo ≤ e.data.region.offset)
    (hhi : e.data.region.stop ≤ hi) : NestedIn lo hi (trees [.leaf e]) :=
  ⟨hlo, Tree.nested_leaf e.data, hhi⟩

private theorem nestedIn_branch {kind : SyntaxKind} {text : Option String} {ds : List Draft}
    (h : NestedIn region.offset region.stop (trees ds)) (hlo : lo ≤ region.offset)
    (hhi : region.stop ≤ hi) : NestedIn lo hi (trees [.branch kind region text ds]) :=
  ⟨hlo, h, hhi⟩

theorem region_literalEntry (offset : Nat) (region : Region) (cs : List Cst) :
    (literalEntry offset region cs).data.region = region := by
  unfold literalEntry
  split
  · rw [region_judged]
    rfl
  · rfl

theorem region_chunkEntry (kind : SyntaxKind) (flags : EmbeddingFlags) (region : Region)
    (start : Nat) (text : String) :
    (chunkEntry kind flags region start text).data.region = region := by
  rw [chunkEntry, region_judged]
  rfl

theorem place_token (offset : Nat) (kind : TokenKind) (text : String)
    (hk : kind.isTrivia = false) (hsize : offset + Text.size text < naOffset) :
    Region.ofBounds? offset (offset + Text.size text) = .ok (place offset (.token kind text)) := by
  have hr : Region.ofBounds? offset (offset + Text.size text) =
      .ok ⟨offset, Text.size text, hsize⟩ := Region.ofBounds?_eq_ok_iff.2 ⟨rfl, rfl⟩
  have hs : significantRegion offset (.token kind text) = .ok ⟨offset, Text.size text, hsize⟩ := by
    simp only [significantRegion, significantBounds, hk]
    exact hr
  rw [place, hs]
  exact hr

/-- Trees at `offset` start with the token at `start`, and `rest` stands behind it. -/
structure Starts (kind : TokenKind) (offset : Nat) (cs : List Cst) (start : Nat) (text : String)
    (rest : List Cst) : Prop where
  mem : ∀ c ∈ rest, c ∈ cs
  findToken?_eq : Cst.findToken? kind offset cs = some (start, text)
  widths_eq : offset + Cst.widths cs = start + Text.size text + Cst.widths rest
  nodeCounts_eq : Cst.nodeCounts cs = Cst.nodeCounts rest
  drafts_eq : draftsAmong offset cs = draftsAmong (start + Text.size text) rest
  bounds_eq : significantBoundsAmong offset cs =
    significantBoundsAmong start (.token kind text :: rest)
  sound : SoundAmong cs → SoundAmong rest
  lower_eq : lowerAmong offset cs = lowerAmong (start + Text.size text) rest

theorem nodeCounts_leaves (ts : List Token) : Cst.nodeCounts (ts.map Token.leaf) = 0 := by
  induction ts with
  | nil => rfl
  | cons t ts ih => simp only [List.map_cons, Token.leaf, Cst.nodeCounts, Cst.nodeCount, ih]

private theorem lowerAmong_leaves (offset : Nat) (ts : List Token) (cs : List Cst) :
    lowerAmong offset (ts.map Token.leaf ++ cs) =
      lowerAmong (offset + Cst.widths (ts.map Token.leaf)) cs := by
  induction ts generalizing offset with
  | nil => simp [Cst.widths]
  | cons t ts ih =>
    simp only [List.map_cons, List.cons_append, lowerAmong, Token.leaf, lowerCst, pure_bind,
      Cst.width, Cst.widths]
    rw [← Nat.add_assoc]
    exact ih _

theorem StartsWith.exists_starts {kind : TokenKind} (h : StartsWith kind cs)
    (hk : kind.isTrivia = false) (offset : Nat) :
    ∃ start text rest, Starts kind offset cs start text rest := by
  obtain ⟨blanks, text, rest, hb, rfl⟩ := h
  refine ⟨offset + Cst.widths (blanks.map Token.leaf), text, rest, ?_, ?_, ?_, ?_, ?_, ?_, ?_, ?_⟩
  · intro c hc
    simp [hc]
  · exact findToken?_startsWith hk hb offset rest
  · simp only [Cst.widths_append, Cst.widths, Cst.width]
    omega
  · simp only [Cst.nodeCounts_append, nodeCounts_leaves, Cst.nodeCounts, Cst.nodeCount,
      Nat.zero_add]
  · rw [draftsAmong_append, draftsAmong_leaves]
    rfl
  · exact significantBoundsAmong_trivia offset hb _
  · intro hs
    exact (soundAmong_append.1 hs).2.2
  · rw [lowerAmong_leaves]
    simp only [lowerAmong, lowerCst, pure_bind, Cst.width]

/-- The draft of a tree lies between any offsets between which its significant tokens lie. -/
def NestsDraft (c : Cst) : Prop :=
  ∀ offset lo hi, Sound c → offset + c.width < naOffset → lo ≤ hi →
    Between lo hi (significantBounds offset c) → NestedIn lo hi (trees (drafts offset c))

theorem nestedIn_draftsAmong (hcs : ∀ c ∈ cs, NestsDraft c) (hs : SoundAmong cs)
    (hsize : offset + Cst.widths cs < naOffset) (hle : lo ≤ hi)
    (hb : Between lo hi (significantBoundsAmong offset cs)) :
    NestedIn lo hi (trees (draftsAmong offset cs)) := by
  induction cs generalizing offset lo with
  | nil => exact hle
  | cons c cs ih =>
    obtain ⟨mid, hlo, hhi, hc, hrest⟩ := hb.split hle
    simp only [Cst.widths] at hsize
    rw [draftsAmong, Draft.trees_append]
    refine (hcs c (by simp) offset lo mid hs.1 (by omega) hlo hc).append ?_
    exact ih (fun d hd => hcs d (by simp [hd])) hs.2 (by omega) hhi hrest

theorem nestedIn_name {start : Nat} {text : String} (hsize : start + Text.size text < naOffset)
    (hlo : lo ≤ start) (hhi : start + Text.size text ≤ hi) :
    NestedIn lo hi (trees
      [.leaf (textEntry Kind.name (place start (.token .ident text)) (some (start, text)))]) := by
  have hplace := Region.ofBounds?_eq_ok_iff.1 (place_token start .ident text rfl hsize)
  refine nestedIn_leaf ?_ ?_
  · simp only [textEntry]
    omega
  · simp only [textEntry]
    omega

theorem nestedIn_named (hcs : ∀ c ∈ cs, NestsDraft c) (hw : StartsWith .ident cs)
    (hs : SoundAmong cs) (hsize : offset + Cst.widths cs < naOffset) (hle : lo ≤ hi)
    (hb : Between lo hi (significantBoundsAmong offset cs)) :
    NestedIn lo hi (trees (nameDrafts offset cs ++ draftsAmong offset cs)) := by
  obtain ⟨start, text, rest, h⟩ := hw.exists_starts rfl offset
  have hwidth := h.widths_eq
  rw [h.bounds_eq] at hb
  obtain ⟨mid, hlo, hhi, hname, hrest⟩ := hb.split hle
  have hmem := hname start (start + Text.size text) rfl
  rw [nameDrafts, h.findToken?_eq, h.drafts_eq, Draft.trees_append]
  refine (nestedIn_name (by omega) hmem.1 hmem.2).append ?_
  exact nestedIn_draftsAmong (fun c hc => hcs c (h.mem c hc)) (h.sound hs) (by omega) hhi hrest

theorem between_place (hs : Sound (.node kind cs)) (hk : kind ≠ .error)
    (hsize : offset + Cst.widths cs < naOffset) :
    Between (place offset (.node kind cs)).offset (place offset (.node kind cs)).stop
      (significantBoundsAmong offset cs) := by
  have hp := (place_mem hs hsize).2
  rw [significantBounds, if_neg fun h => hk h.1] at hp
  intro s e h
  rw [hp] at h
  cases h
  exact ⟨Nat.le_refl _, Nat.le_refl _⟩

private theorem nestedIn_chunk {kind : SyntaxKind} {flags : EmbeddingFlags}
    (hlo : lo ≤ region.offset) (hhi : region.stop ≤ hi) :
    NestedIn lo hi (trees (chunkDrafts kind flags offset region cs)) := by
  have hle := region.offset_le_stop
  unfold chunkDrafts
  cases hf : Cst.findToken? .template offset cs with
  | none => exact Nat.le_trans hlo (Nat.le_trans hle hhi)
  | some found =>
    have hr := region_chunkEntry kind flags region found.1 found.2
    exact nestedIn_leaf (by rwa [hr]) (by rwa [hr])

/-- The draft of a sound tree is nested. -/
theorem nests_draft (c : Cst) : NestsDraft c := by
  refine Cst.induction ?_ ?_ c
  · intro kind text offset lo hi hs hsize hle hb
    exact hle
  · intro kind children ih offset lo hi hs hsize hle hb
    obtain ⟨hlo, hhi⟩ := hb _ _ (place_mem hs hsize).2
    have hregion := (place offset (.node kind children)).offset_le_stop
    have hinner : kind ≠ .error → NestedIn (place offset (.node kind children)).offset
        (place offset (.node kind children)).stop (trees (draftsAmong offset children)) :=
      fun hk => nestedIn_draftsAmong ih hs.2.2 hsize hregion (between_place hs hk hsize)
    cases kind with
    | program => exact hs.2.1.elim
    | assignment =>
      refine nestedIn_branch ?_ hlo hhi
      exact nestedIn_named ih hs.2.1 hs.2.2 hsize hregion (between_place hs (by decide) hsize)
    | exprStatement => exact nestedIn_branch (hinner (by decide)) hlo hhi
    | paren => exact nestedIn_branch (hinner (by decide)) hlo hhi
    | binary => exact nestedIn_branch (hinner (by decide)) hlo hhi
    | nameRef => exact nestedIn_leaf hlo hhi
    | literal =>
      have hr := region_literalEntry offset (place offset (.node .literal children)) children
      exact nestedIn_leaf (by rwa [hr]) (by rwa [hr])
    | templateStatement => exact nestedIn_chunk hlo hhi
    | templateExpr => exact nestedIn_chunk hlo hhi
    | error => exact nestedIn_leaf hlo hhi

def CountsDraft (c : Cst) : Prop :=
  ∀ offset, Sound c → sizes (trees (drafts offset c)) = c.nodeCount

theorem sizes_draftsAmong (hcs : ∀ c ∈ cs, CountsDraft c) (hs : SoundAmong cs) (offset : Nat) :
    sizes (trees (draftsAmong offset cs)) = Cst.nodeCounts cs := by
  induction cs generalizing offset with
  | nil => rfl
  | cons c cs ih =>
    rw [draftsAmong, Draft.trees_append, Tree.sizes_append, Cst.nodeCounts,
      hcs c (by simp) offset hs.1, ih (fun d hd => hcs d (by simp [hd])) hs.2]

theorem counts_draft (c : Cst) : CountsDraft c := by
  refine Cst.induction ?_ ?_ c
  · intro kind text offset hs
    rfl
  · intro kind children ih offset hs
    have hchildren := sizes_draftsAmong ih hs.2.2 offset
    cases kind with
    | program => exact hs.2.1.elim
    | assignment =>
      obtain ⟨start, text, rest, hw⟩ := StartsWith.exists_starts hs.2.1 rfl offset
      simp only [drafts, nameDrafts, hw.findToken?_eq, trees, Draft.branch, Draft.leaf, Draft.tree,
        Draft.trees_append, sizes, Tree.size, Tree.sizes_append, hchildren, Cst.nodeCount,
        Option.toList_some, List.map_cons, List.map_nil]
      omega
    | exprStatement => simp [drafts, trees, Draft.branch, Draft.tree, sizes, Tree.size, hchildren,
        Cst.nodeCount]
    | paren => simp [drafts, trees, Draft.branch, Draft.tree, sizes, Tree.size, hchildren,
        Cst.nodeCount]
    | binary => simp [drafts, trees, Draft.branch, Draft.tree, sizes, Tree.size, hchildren,
        Cst.nodeCount]
    | nameRef => rfl
    | literal => rfl
    | templateStatement =>
      obtain ⟨start, text, rest, hw⟩ := StartsWith.exists_starts hs.2.1 rfl offset
      simp only [drafts, chunkDrafts, hw.findToken?_eq]
      rfl
    | templateExpr =>
      obtain ⟨start, text, rest, hw⟩ := StartsWith.exists_starts hs.2.1 rfl offset
      simp only [drafts, chunkDrafts, hw.findToken?_eq]
      rfl
    | error => rfl

end Nested

end SourceModel.Calc
