import SourceModel.Proofs.Calc.Acceptance
import SourceModel.Proofs.Calc.Bounds
import SourceModel.Proofs.Calc.Lexemes
import SourceModel.Proofs.Calc.Lowered
import SourceModel.Proofs.Calc.Sections
import SourceModel.Proofs.Document.Matching
import SourceModel.Proofs.Document.SectionMatching

/-!
# Brackets and parenthesised expressions

If a text breaks no rule of the grammar, its parentheses outside strings, comments and templates are
well bracketed, and the pairs are the parenthesised expressions of the syntax tree. So the matcher
of brackets finds just these in code: the characters of a token in code are no parentheses, unless
the token is one, and those of the other tokens do not count.
-/

namespace SourceModel.Calc

open Draft (entriesAmong)
open Text (byteCount)

def parens : CharPair := ⟨'(', ')'⟩

def TokenKind.isParen : TokenKind → Bool
  | openParen | closeParen => true
  | _ => false

/-! ## Characters of tokens -/

private theorem brackets_of_outside {pair : CharPair} {counts : Nat → Bool} {offset : Nat}
    {cs : List Char}
    (h : ∀ front c back, cs = front ++ c :: back →
      (pair.has c && counts (offset + byteCount front)) = false) :
    Brackets pair counts offset cs [] := by
  induction cs generalizing offset with
  | nil => exact .nil
  | cons c cs ih =>
    refine .skip (h [] c cs rfl) (ih fun front d back hcs => ?_)
    have hd := h (c :: front) d back (by rw [hcs, List.cons_append])
    rwa [Text.byteCount_cons, ← Nat.add_assoc] at hd

/-- A token has no parentheses that count, unless it is one. -/
structure Token.Shows (counts : Nat → Bool) (t : Token) : Prop where
  other : t.kind.isParen = false → Brackets parens counts t.start t.text.toList []
  paren : t.kind.isParen = true → counts t.start = true
  opening : t.kind = .openParen → t.text.toList = ['(']
  closing : t.kind = .closeParen → t.text.toList = [')']

def inCode (d : TextDocument) (offset : Nat) : Bool := sections.typeAt d offset = Section.code

private theorem isParen_of_admits {kind : TokenKind} {c : Char}
    (hk : kind.sectionType = Section.code) (h : kind.admits c = true) (hc : parens.has c = true) :
    kind.isParen = true := by
  have hchars : c = '(' ∨ c = ')' := by simpa [CharPair.has, parens] using hc
  rcases hchars with rfl | rfl
  · cases kind <;> revert h hk <;> decide
  · cases kind <;> revert h hk <;> decide

private theorem sectionType_of_isParen {kind : TokenKind} (h : kind.isParen = true) :
    kind.sectionType = Section.code := by
  cases kind <;> first | rfl | cases h

private theorem shows_of_mem {d : TextDocument} {t : Token} (h : IsPartitioned d)
    (hsize : Text.size d.text < naOffset) (ht : t ∈ (lex d.text).tokens) : t.Shows (inCode d) := by
  have htext := spelled_lexFrom 0 d.text.toList t ht
  have hpos := ((tiles_lex d.text).mem ht).2.1
  refine ⟨fun hk => brackets_of_outside fun front c back hsplit => ?_, fun hk => ?_, fun hk => ?_,
    fun hk => ?_⟩
  · have hmem : c ∈ t.text.toList := by rw [hsplit]; simp
    have hadmits := lexFrom_admits 0 d.text.toList t ht c hmem
    have hstop := stop_lexFrom 0 d.text.toList t ht
    have hbytes : t.start + byteCount front < t.stop := by
      have hc := c.utf8Size_pos
      rw [Text.size, hsplit, Text.byteCount_append, Text.byteCount_cons] at hstop
      omega
    have htype := typeAt_of_mem h hsize ht (Nat.le_add_right _ _) hbytes
    rw [Bool.and_eq_false_iff]
    by_cases hcode : t.kind.sectionType = Section.code
    · refine .inl (Bool.eq_false_iff.2 fun hhas => ?_)
      rw [isParen_of_admits hcode hadmits hhas] at hk
      cases hk
    · refine .inr (decide_eq_false ?_)
      rwa [htype]
  · refine decide_eq_true ?_
    rw [typeAt_of_mem h hsize ht (Nat.le_refl _) hpos, sectionType_of_isParen hk]
  · rw [htext '(' (by rw [hk]; rfl)]
    rfl
  · rw [htext ')' (by rw [hk]; rfl)]
    rfl

/-! ## Parenthesised expressions -/

def charsOf (ts : List Token) : List Char := ts.flatMap fun t => t.text.toList

/-- The bounds of a node that is a parenthesised expression. -/
def parenSpan? (data : NodeData) : Option (Nat × Nat) :=
  if data.kind = Kind.paren then some (data.region.offset, data.region.stop) else none

def spansAt (offset : Nat) (cs : List Cst) : List (Nat × Nat) :=
  (entriesAt offset cs).filterMap fun e => parenSpan? e.data

section Spans

variable {offset : Nat} {ts us : List Token} {cs ds : List Cst} {c : Cst} {kind : CstKind}

private theorem charsOf_append :
    charsOf (ts ++ us) = charsOf ts ++ charsOf us := List.flatMap_append

private theorem byteCount_charsOf (ts : List Token) :
    byteCount (charsOf ts) = Cst.widths (ts.map Token.leaf) := by
  induction ts with
  | nil => rfl
  | cons t ts ih =>
    simp only [charsOf, List.flatMap_cons, Text.byteCount_append, List.map_cons, Cst.widths,
      Token.leaf, Cst.width, Text.size] at ih ⊢
    rw [ih]

private theorem spansAt_append (offset : Nat) (cs ds : List Cst) :
    spansAt offset (cs ++ ds) = spansAt offset cs ++ spansAt (offset + Cst.widths cs) ds := by
  simp only [spansAt, entriesAt, draftsAmong_append, Draft.entriesAmong_append,
    List.filterMap_append]

private theorem spansAt_leaves (offset : Nat) (ts : List Token) :
    spansAt offset (ts.map Token.leaf) = [] := by
  rw [spansAt, entriesAt, draftsAmong_leaves]
  rfl

private theorem spansAt_branch {k : SyntaxKind} (hk : k ≠ Kind.paren)
    (hd : ∃ region text, drafts offset c = [.branch k region text (draftsAmong offset cs)]) :
    spansAt offset [c] = spansAt offset cs := by
  obtain ⟨region, text, hd⟩ := hd
  simp [spansAt, entriesAt, draftsAmong, hd, Draft.branch, entriesAmong, Draft.entries, parenSpan?,
    hk]

private theorem spansAt_paren (offset : Nat) (cs : List Cst) :
    spansAt offset [.node .paren cs] =
      ((place offset (.node .paren cs)).offset, (place offset (.node .paren cs)).stop) ::
        spansAt offset cs := by
  simp [spansAt, entriesAt, draftsAmong, drafts, Draft.branch, entriesAmong, Draft.entries,
    parenSpan?]

private theorem spansAt_enclosed (offset : Nat) (o t : Token) (cs : List Cst) :
    spansAt offset (o.leaf :: (cs ++ [t.leaf])) = spansAt (offset + Text.size o.text) cs := by
  have hone : ∀ offset (u : Token), spansAt offset [u.leaf] = [] :=
    fun offset u => spansAt_leaves offset [u]
  rw [← List.singleton_append, spansAt_append, spansAt_append, hone, hone, List.nil_append,
    List.append_nil]
  rfl

private theorem place_enclosed {lo hi : Nat} {o t : Token} (ho : ¬ o.isTrivia) (ht : ¬ t.isTrivia)
    (hw : Cst.widths cs = Cst.widths (ts.map Token.leaf)) (hlaid : Laid lo hi (o :: (ts ++ [t]))) :
    (place lo (.node .paren (o.leaf :: (cs ++ [t.leaf])))).offset = lo ∧
      (place lo (.node .paren (o.leaf :: (cs ++ [t.leaf])))).stop = hi := by
  have hwidths := hlaid.widths_eq
  refine place_bounds ?_ hlaid.available
  rw [significantBounds, if_neg (fun h => nomatch h.1), bounds_enclosed ho ht]
  simp only [List.map_cons, List.map_append, List.map_nil, Cst.widths, Cst.widths_append,
    hw] at hwidths ⊢
  rw [hwidths]

private theorem spansAt_assignment (offset : Nat) (cs : List Cst) :
    spansAt offset [.node .assignment cs] = spansAt offset cs := by
  have hkind : Kind.assignment ≠ Kind.paren := by decide
  have hname : Kind.name ≠ Kind.paren := by decide
  have htarget : (entriesAmong (nameDrafts offset cs)).filterMap (fun e => parenSpan? e.data) =
      [] := by
    unfold nameDrafts
    cases Cst.findToken? .ident offset cs with
    | none => rfl
    | some found => simp [textEntry, parenSpan?, hname]
  simp only [spansAt, entriesAt, draftsAmong, drafts, Draft.branch, entriesAmong, Draft.entries,
    List.append_nil, Draft.entriesAmong_append, List.filterMap_cons, parenSpan?, hkind, if_false,
    List.filterMap_append]
  exact congrArg (· ++ _) htarget

private theorem spansAt_operand (h : kind = .nameRef ∨ kind = .literal ∨ kind = .templateStatement ∨
      kind = .templateExpr) : spansAt offset [.node kind cs] = [] := by
  have hone : ∀ e : Entry, e.data.kind ≠ Kind.paren →
      drafts offset (.node kind cs) = [Draft.leaf e] → spansAt offset [.node kind cs] = [] := by
    intro e he hd
    simp [spansAt, entriesAt, draftsAmong, hd, parenSpan?, he]
  have hchunk : ∀ flags k, k ≠ Kind.paren → drafts offset (.node kind cs) =
      chunkDrafts k flags offset (place offset (.node kind cs)) cs →
      spansAt offset [.node kind cs] = [] := by
    intro flags k hk hd
    rw [spansAt, entriesAt, draftsAmong, draftsAmong, hd, chunkDrafts]
    cases Cst.findToken? .template offset cs with
    | none => rfl
    | some found => simp [chunkEntry, templateEntry, parenSpan?, hk]
  rcases h with rfl | rfl | rfl | rfl
  · exact hone _ (by decide : Kind.nameRef ≠ Kind.paren) rfl
  · refine hone (literalEntry offset (place offset (.node .literal cs)) cs) ?_ rfl
    unfold literalEntry
    split
    · rw [kind_judged]
      exact (by decide : Kind.string ≠ Kind.paren)
    · exact (by decide : Kind.number ≠ Kind.paren)
  · exact hchunk _ _ (by decide : Kind.templateBlock ≠ Kind.paren) rfl
  · exact hchunk _ _ (by decide : Kind.templateExpr ≠ Kind.paren) rfl

end Spans

/-- The parentheses among tokens are well bracketed, wherever these lie, and the pairs are the
parenthesised expressions among the trees. -/
def Bracketed (counts : Nat → Bool) (ts : List Token) (cs : List Cst) : Prop :=
  ∀ lo hi, Laid lo hi ts → (∀ t ∈ ts, t.Shows counts) →
    Brackets parens counts lo (charsOf ts) (spansAt lo cs)

namespace Bracketed

variable {counts : Nat → Bool} {ts us blanks : List Token} {cs ds : List Cst} {o t : Token}
  {kind : CstKind}

private theorem leaves (h : ∀ t ∈ ts, t.kind.isParen = false) :
    Bracketed counts ts (ts.map Token.leaf) := by
  intro lo hi hlaid hshows
  rw [spansAt_leaves]
  induction ts generalizing lo with
  | nil => exact .nil
  | cons t ts ih =>
    obtain ⟨hstart, hstop, -, hrest⟩ := hlaid.cons
    have hfirst := (hshows t List.mem_cons_self).other (h t List.mem_cons_self)
    have hlater := ih (fun u hu => h u (List.mem_cons_of_mem _ hu)) t.stop hrest
      fun u hu => hshows u (List.mem_cons_of_mem _ hu)
    rw [hstart] at hfirst
    rw [hstop] at hlater
    exact hfirst.append hlater

private theorem append (h : Bracketed counts ts cs) (h' : Bracketed counts us ds)
    (hw : Cst.widths cs = Cst.widths (ts.map Token.leaf)) :
    Bracketed counts (ts ++ us) (cs ++ ds) := by
  intro lo hi hlaid hshows
  obtain ⟨mid, hts, hus, hmid⟩ := hlaid.split
  have hfront := h lo mid hts fun t ht => hshows t (List.mem_append_left _ ht)
  have hback := h' mid hi hus fun t ht => hshows t (List.mem_append_right _ ht)
  rw [charsOf_append, spansAt_append, hw, hmid]
  refine hfront.append ?_
  rwa [byteCount_charsOf, hmid]

private theorem behind (hb : ∀ b ∈ blanks, b.kind.isParen = false) (h : Bracketed counts ts cs) :
    Bracketed counts (blanks ++ ts) (blanks.map Token.leaf ++ cs) := (leaves hb).append h rfl

private theorem node (h : Bracketed counts ts cs)
    (hs : ∀ offset, spansAt offset [.node kind cs] = spansAt offset cs) :
    Bracketed counts ts [.node kind cs] := by
  intro lo hi hlaid hshows
  rw [hs]
  exact h lo hi hlaid hshows

private theorem exprStatement (h : Bracketed counts ts cs) :
    Bracketed counts ts [.node .exprStatement cs] :=
  h.node fun _ => spansAt_branch (by decide : Kind.exprStatement ≠ Kind.paren) ⟨_, _, rfl⟩

private theorem binary (h : Bracketed counts ts cs) : Bracketed counts ts [.node .binary cs] :=
  h.node fun _ => spansAt_branch (by decide : Kind.binary ≠ Kind.paren) ⟨_, _, rfl⟩

private theorem assignment (h : Bracketed counts ts cs) :
    Bracketed counts ts [.node .assignment cs] :=
  h.node fun offset => spansAt_assignment offset cs

private theorem operand (hk : kind = .nameRef ∨ kind = .literal ∨ kind = .templateStatement ∨
      kind = .templateExpr) (h : ∀ t ∈ ts, t.kind.isParen = false) :
    Bracketed counts ts [.node kind (ts.map Token.leaf)] :=
  (leaves h).node fun offset => by rw [spansAt_operand hk, spansAt_leaves]

private theorem paren (ho : o.kind = .openParen) (hc : t.kind = .closeParen)
    (h : Bracketed counts ts cs) (hw : Cst.widths cs = Cst.widths (ts.map Token.leaf)) :
    Bracketed counts (o :: (ts ++ [t])) [.node .paren (o.leaf :: (cs ++ [t.leaf]))] := by
  intro lo hi hlaid hshows
  obtain ⟨hoffset, hend⟩ := place_enclosed (significant_of_kind ho rfl) (significant_of_kind hc rfl)
    hw hlaid
  obtain ⟨hstart, hstop, -, hrest⟩ := hlaid.cons
  obtain ⟨mid, hinside, hclose, hmid⟩ := hrest.split
  obtain ⟨hstart', hstop', -, hdone⟩ := hclose.cons
  have hhi : t.stop = hi := hdone.tiles
  have hopening := hshows o List.mem_cons_self
  have hclosing := hshows t (by simp)
  have htext := hopening.opening ho
  have htext' := hclosing.closing hc
  have hcounts := hopening.paren (by rw [ho]; rfl)
  have hcounts' := hclosing.paren (by rw [hc]; rfl)
  have hone : Text.size o.text = 1 := by rw [Text.size, htext]; rfl
  have hone' : Text.size t.text = 1 := by rw [Text.size, htext']; rfl
  have hinner := h o.stop mid hinside fun u hu => hshows u (by simp [hu])
  rw [hone] at hstop
  rw [hstart] at hcounts
  rw [hstart'] at hcounts'
  rw [hstop] at hinner hmid
  have hpair : Brackets parens counts lo ('(' :: (charsOf ts ++ [')']))
      ((lo, mid + 1) :: (spansAt (lo + 1) cs ++ [])) :=
    .pair hcounts hcounts' (by rw [byteCount_charsOf, ← hmid]; rfl) hinner .nil
  have hchars : charsOf (o :: (ts ++ [t])) = '(' :: (charsOf ts ++ [')']) := by
    simp [charsOf, htext, htext']
  rw [hchars, spansAt_paren, hoffset, hend, spansAt_enclosed, hone, ← hhi, hstop', hone']
  rwa [List.append_nil] at hpair

end Bracketed

private theorem isParen_of_isTrivia {t : Token} (h : t.isTrivia) : t.kind.isParen = false := by
  rw [Token.isTrivia] at h
  cases hk : t.kind <;> rw [hk] at h <;> first | rfl | cases h

private theorem isParen_of_joins {p : Phrase} {kind : TokenKind} (h : p.joins kind) :
    kind.isParen = false := by
  cases p <;> cases kind <;> first | rfl | cases h

theorem Reads.closing_found {p : Phrase} {kind : TokenKind} {message : String} {stop : Nat}
    {ts : List Token} {is : List Cst} {fs : List Diagnostic} (h : Reads p stop ts is fs)
    (hp : p = .closing kind message) (hfs : fs = []) :
    ∃ blanks t, ts = blanks ++ [t] ∧ (∀ b ∈ blanks, b.isTrivia) ∧ t.kind = kind ∧
      is = ts.map Token.leaf := by
  induction h with
  | @skip _ _ blanks ts _ _ blank _ ih =>
    obtain ⟨later, t, rfl, hlater, hkind, rfl⟩ := ih hp hfs
    refine ⟨blanks ++ later, t, by simp, ?_, hkind, by simp⟩
    exact List.forall_mem_append.2 ⟨blank, hlater⟩
  | found blank _ same =>
    cases hp
    exact ⟨_, _, rfl, blank, same, rfl⟩
  | missing => cases hfs
  | lift chain =>
    subst hp
    cases chain
  | join _ joins =>
    subst hp
    cases joins
  | _ => cases hp

/-- Whether a phrase has a closing parenthesis to itself. -/
def Phrase.closesParen : Phrase → Bool
  | closing .closeParen _ => true
  | _ => false

private theorem Phrase.closesParen_operand (p : Phrase) : p.operand.closesParen = false := by
  cases p <;> rfl

private theorem Reads.bracketed {counts : Nat → Bool} {p : Phrase} {stop : Nat} {ts : List Token}
    {is : List Cst} {fs : List Diagnostic} (h : Reads p stop ts is fs)
    (hp : p.closesParen = false) (hfs : fs = []) : Bracketed counts ts is := by
  have htrivia : ∀ {blanks : List Token}, (∀ b ∈ blanks, b.isTrivia) →
      ∀ b ∈ blanks, b.kind.isParen = false := fun hb b h => isParen_of_isTrivia (hb b h)
  have hsnoc : ∀ {blanks : List Token} {t : Token}, (∀ b ∈ blanks, b.isTrivia) →
      t.kind.isParen = false → ∀ b ∈ blanks ++ [t], b.kind.isParen = false := fun hb ht =>
    List.forall_mem_append.2 ⟨htrivia hb, List.forall_mem_singleton.2 ht⟩
  have hsingle : ∀ {t : Token} {kind : TokenKind}, t.kind = kind → kind.isParen = false →
      ∀ u ∈ [t], u.kind.isParen = false := fun hk h => List.forall_mem_singleton.2 (hk ▸ h)
  -- A closing parenthesis has its partner outside of what reads it, so it is left to the pair.
  induction h with
  | skip blank _ ih => exact (ih hp hfs).behind (htrivia blank)
  | @literal _ t kind =>
    have ht : ∀ u ∈ [t], u.kind.isParen = false := by
      rcases kind with kind | kind <;> exact hsingle kind rfl
    exact .operand (by simp) ht
  | nameRef kind => exact .operand (by simp) (hsingle kind rfl)
  | template kind => exact .operand (by simp) (hsingle kind rfl)
  | paren kind hr hc ih _ =>
    obtain ⟨hfs, hgs⟩ := List.append_eq_nil_iff.1 hfs
    obtain ⟨blanks, t, rfl, hb, ht, rfl⟩ := hc.closing_found rfl hgs
    have hinner := (ih rfl hfs).append (.leaves (htrivia hb)) hr.widths_eq
    have hparen := hinner.paren kind ht (by
      rw [Cst.widths_append, hr.widths_eq, List.map_append, Cst.widths_append])
    simpa using hparen
  | lift chain _ ih => exact ih (Phrase.closesParen_operand _) hfs
  | join blank joins hr _ ih ih' =>
    obtain ⟨hfs, hgs⟩ := List.append_eq_nil_iff.1 hfs
    have hlater := (ih' (Phrase.closesParen_operand _) hgs).behind
      (hsnoc blank (isParen_of_joins joins))
    rw [List.append_assoc, List.append_cons]
    exact ((ih hp hfs).append hlater hr.widths_eq).binary
  | found blank closing same =>
    rcases closing with rfl | rfl
    · cases hp
    · exact .leaves (hsnoc blank (by rw [same]; rfl))
  | assignment blank blank' kind kind' hr _ ih ih' =>
    obtain ⟨hfs, hgs⟩ := List.append_eq_nil_iff.1 hfs
    have hvalue := (ih rfl hfs).append (ih' rfl hgs) hr.widths_eq
    have hequals := hvalue.behind (hsnoc blank' (by rw [kind']; rfl))
    have htarget := hequals.behind (hsnoc blank (by rw [kind]; rfl))
    rw [List.append_assoc, List.append_cons, List.append_cons _ _ (_ ++ _)]
    exact htarget.assignment
  | chunk blank kind => exact .operand (by simp) (hsnoc blank (by rw [kind]; rfl))
  | closedChunk blank blank' kind kind' =>
    have hsemicolon := hsnoc blank' (by rw [kind']; rfl)
    have hchunk := hsnoc blank (by rw [kind]; rfl)
    rw [List.append_cons, ← List.map_append]
    exact .operand (by simp) (List.forall_mem_append.2 ⟨hchunk, hsemicolon⟩)
  | value hr _ ih ih' =>
    obtain ⟨hfs, hgs⟩ := List.append_eq_nil_iff.1 hfs
    exact ((ih rfl hfs).append (ih' rfl hgs) hr.widths_eq).exprStatement
  | stray => simp at hfs
  | done blank => exact .leaves (htrivia blank)
  | later _ hr _ ih ih' =>
    obtain ⟨hfs, hgs⟩ := List.append_eq_nil_iff.1 hfs
    exact (ih rfl hfs).append (ih' rfl hgs) hr.widths_eq
  | lacking | misplaced | missing | empty => cases hfs

/-! ## Texts -/

section Texts

variable {source : String} {level : AstLevel} {ast : Ast} {d : TextDocument}

private theorem charsOf_lex (source : String) : charsOf (lex source).tokens = source.toList := by
  have hjoin := congrArg String.toList (join_lexFrom 0 source.toList)
  rw [String.toList_ofList] at hjoin
  rw [← hjoin, charsOf, lex]
  simp [String.toList_join, List.flatMap_map]

/-- In a text that breaks no rule of the grammar the parentheses in code are well bracketed, and the
pairs are the parenthesised expressions of the syntax tree. -/
theorem brackets_of_lower (h : lower (parse source) level = .ok ast)
    (hf : (parse source).grammarFaults = []) (hd : IsPartitioned d) (hs : d.text = source) :
    Brackets parens (inCode d) 0 d.text.toList (ast.root.datas.filterMap parenSpan?) := by
  subst hs
  obtain ⟨hlt, hl⟩ := lowered_of_lower h
  have hsize : Text.size d.text < naOffset := by
    rw [← width_parse]
    exact hlt
  have hfaults : (statements ⟨(lex d.text).tokens, 0⟩).faults = [] := grammarFaults_eq_nil.1 hf
  have hbrackets : Brackets parens (inCode d) 0 (charsOf (lex d.text).tokens)
      (spansAt 0 (statements ⟨(lex d.text).tokens, 0⟩).items) :=
    (statements_reads (lex d.text).tokens).bracketed rfl hfaults 0 _ (laid_lex hsize)
      fun t ht => shows_of_mem hd hsize ht
  have hspans : ast.root.datas.filterMap parenSpan? =
      spansAt 0 (statements ⟨(lex d.text).tokens, 0⟩).items := by
    have hdatas := congrArg (List.filterMap parenSpan?) hl.map_bare_datas
    rw [List.filterMap_map, List.filterMap_map] at hdatas
    exact hdatas
  rwa [hspans, ← charsOf_lex]

private theorem mem_spans_iff {start stop : Nat} :
    (start, stop) ∈ ast.root.datas.filterMap parenSpan? ↔
      ∃ t ∈ ast.root.preorder, t.kind = Kind.paren ∧ t.region.offset = start ∧
        t.region.stop = stop := by
  have hspan : ∀ t : Tree, parenSpan? t.data = some (start, stop) ↔
      t.kind = Kind.paren ∧ t.region.offset = start ∧ t.region.stop = stop := by
    intro t
    by_cases hk : t.kind = Kind.paren
    · have hkind : t.data.kind = Kind.paren := hk
      simp [parenSpan?, hkind, hk, Tree.region]
    · have hkind : ¬ t.data.kind = Kind.paren := hk
      simp [parenSpan?, hkind, hk]
  simp only [Tree.datas, List.mem_filterMap, List.mem_map, exists_exists_and_eq_and, hspan]

/-! ## Matches -/

def codeMatcher : CharPairMatcher where
  pairs := [parens]
  sections := sections
  sectionType := Section.code

private theorem matchIn_of_inCode {offset : Nat} (h : inCode d offset = true) (caret : Nat) :
    SectionPairMatcher.matchIn sections bracketPairs d offset caret =
      codeMatcher.matchAt d caret := by
  have htype : sections.typeAt d offset = Section.code := of_decide_eq_true h
  unfold SectionPairMatcher.matchIn
  rw [htype]
  rfl

private theorem matchAt_of_matchIn {offset caret : Nat} {found : PairMatch}
    (h : SectionPairMatcher.matchIn sections bracketPairs d offset caret = some found)
    (hcode : inCode d found.region.offset = true) : codeMatcher.matchAt d caret = some found := by
  have hfresh := h
  unfold SectionPairMatcher.matchIn at hfresh
  split at hfresh
  · cases hfresh
  obtain ⟨matcher, hmatcher, hmatch⟩ := Option.bind_eq_some_iff.1 hfresh
  obtain ⟨pairs, -, rfl⟩ := Option.map_eq_some_iff.1 hmatcher
  -- The section in which the match was sought is the one in which it starts, so this is code.
  have hcounts := CharPairMatcher.counts_of_matchAt hmatch
  have hsame : sections.typeAt d found.region.offset = sections.typeAt d offset :=
    of_decide_eq_true hcounts
  have hoffset : inCode d offset = true := by
    rw [inCode, ← hsame]
    exact hcode
  rwa [matchIn_of_inCode hoffset] at h

/-- A matcher finds the parenthesised expressions of a syntax tree from either end, and in code
nothing else. -/
structure FindsParens (ast : Ast) (d : TextDocument) (m : SectionPairMatcher) : Prop where
  left : ∀ t ∈ ast.root.preorder, t.kind = Kind.paren →
    (m.find d (t.region.offset + 1)).1 = some ⟨t.region, .left⟩
  right : ∀ t ∈ ast.root.preorder, t.kind = Kind.paren →
    (m.find d t.region.stop).1 = some ⟨t.region, .right⟩
  paren : ∀ caret found, (m.find d caret).1 = some found →
    sections.typeAt d found.region.offset = Section.code →
    ∃ t ∈ ast.root.preorder, t.kind = Kind.paren ∧ t.region = found.region

private theorem findsParens {m : SectionPairMatcher} (hm : m.Serves sections bracketPairs)
    (h : Brackets parens (inCode d) 0 d.text.toList (ast.root.datas.filterMap parenSpan?)) :
    FindsParens ast d m := by
  have hpairs : codeMatcher.pairs = [parens] := rfl
  have hne : parens.opening ≠ parens.closing := by decide
  have hdistinct := CharPairMatcher.distinct_of_single hpairs hne
  have hparens : parens ∈ codeMatcher.pairs := List.mem_singleton_self parens
  have hmem : ∀ t ∈ ast.root.preorder, t.kind = Kind.paren →
      (t.region.offset, t.region.stop) ∈ ast.root.datas.filterMap parenSpan? :=
    fun t ht hk => mem_spans_iff.2 ⟨t, ht, hk, rfl, rfl⟩
  refine ⟨fun t ht hk => ?_, fun t ht hk => ?_, fun caret found hfound hcode => ?_⟩
  · have hs := hmem t ht hk
    obtain ⟨front, inner, back, hin⟩ := h.exists_encloses hs
    have hleft : codeMatcher.matchAt d (t.region.offset + 1) = some ⟨t.region, .left⟩ :=
      (CharPairMatcher.matchAt_of_encloses hdistinct hparens hin).1
    rw [(hm.find _).2, if_neg (Nat.succ_ne_zero _), Nat.add_sub_cancel,
      matchIn_of_inCode hin.counted, hleft, Option.some_or]
  · have hs := hmem t ht hk
    obtain ⟨front, inner, back, hin⟩ := h.exists_encloses hs
    have hright : codeMatcher.matchAt d t.region.stop = some ⟨t.region, .right⟩ :=
      (CharPairMatcher.matchAt_of_encloses hdistinct hparens hin).2
    have hstop : t.region.stop = t.region.offset + 1 + byteCount inner + 1 := hin.stop_eq
    have hclose : inCode d (t.region.stop - 1) = true := by
      rw [hstop, Nat.add_sub_cancel]
      exact hin.counted'
    rw [(hm.find _).2, if_neg (by omega), matchIn_of_inCode hclose, hright, Option.some_or]
  · have hat : codeMatcher.matchAt d caret = some found := by
      have hcode' : inCode d found.region.offset = true := decide_eq_true hcode
      rw [(hm.find _).2] at hfound
      rcases Option.or_eq_some_iff.1 hfound with hbefore | ⟨-, hbehind⟩
      · split at hbefore
        · cases hbefore
        · exact matchAt_of_matchIn hbefore hcode'
      · exact matchAt_of_matchIn hbehind hcode'
    have hs := CharPairMatcher.mem_of_matchAt hpairs hne h hat
    obtain ⟨t, ht, hk, hoffset, hstop⟩ := mem_spans_iff.1 hs
    exact ⟨t, ht, hk, Region.eq_of_bounds hoffset hstop⟩

/-- If a text breaks no rule of the grammar, the matcher of brackets finds the parenthesised
expressions of its syntax tree on every document with that text and its partitions, whatever it was
asked before. Within the limits for sizes there are such a tree and such a document. -/
theorem findsParens_after (source : String) (level : AstLevel)
    (hf : (parse source).grammarFaults = []) :
    (Text.size source < halfWordLimit → (parse source).tree.nodeCount ≤ TreeBuilder.maxNodes →
      ∃ ast, lower (parse source) level = .ok ast) ∧
      (Text.size source < naOffset →
        ∃ d, document source = .ok d ∧ d.text = source ∧ IsPartitioned d) ∧
      ∀ ast d, lower (parse source) level = .ok ast → d.text = source → IsPartitioned d →
        ∀ calls, FindsParens ast d (pairMatcher.after calls) := by
  refine ⟨fun hsize hcount => exists_lower hsize hcount level, exists_document,
    fun ast d h hs hd calls => ?_⟩
  have hserves : pairMatcher.Serves sections bracketPairs := SectionPairMatcher.serves_ofPairs
  exact findsParens (hserves.after calls) (brackets_of_lower h hf hd hs)

end Texts

/-- A pair of parentheses around another one, and parentheses that are not in code. -/
def nestedParens : String := "x = ((\")\")); # )\n{% ( %}"

private theorem grammarFaults_nestedParens : (parse nestedParens).grammarFaults = [] := by
  have hexpr : ∀ {ks}, (Rule.ref .factor).Derives ks → (Rule.ref .expr).Derives ks := by
    intro ks hfactor
    have hterm : (Rule.ref .term).Derives ks :=
      Rule.derives_term_iff.2 ⟨ks, [], (List.append_nil ks).symm, hfactor, .stop⟩
    exact Rule.derives_expr_iff.2 ⟨ks, [], (List.append_nil ks).symm, hterm, .stop⟩
  have hparen : ∀ {ks}, (Rule.ref .expr).Derives ks →
      (Rule.ref .factor).Derives (.openParen :: ks ++ [.closeParen]) :=
    fun h => Rule.derives_factor_iff.2 (.inr (.inr (.inr (.inr ⟨_, h, rfl⟩))))
  have hstring : (Rule.ref .factor).Derives [.string] := Rule.derives_factor_iff.2 (.inr (.inl rfl))
  have hfirst := Rule.derives_statement_iff.2
    (.inl ⟨_, hexpr (hparen (hexpr (hparen (hexpr hstring)))), rfl⟩)
  have hsecond : (Rule.ref .statement).Derives [.template] :=
    Rule.derives_statement_iff.2 (.inr (.inl rfl))
  have hkinds : significantKinds (lex nestedParens).tokens =
      [.ident, .equals, .openParen, .openParen, .string, .closeParen, .closeParen, .semicolon,
        .template] := by
    decide +kernel
  refine grammarFaults_eq_nil.2 (statements_clean (.more hfirst (.more hsecond .stop)) ?_).faults_eq
  exact hkinds

/-- Parentheses in a string, a comment and a template are matched with none in code. -/
theorem findsParens_after_nested :
    (parse nestedParens).grammarFaults = [] ∧
      ∃ ast d, lower (parse nestedParens) .full = .ok ast ∧ document nestedParens = .ok d ∧
        FindsParens ast d (pairMatcher.after [.find d 5, .dispose, .find d 10]) := by
  obtain ⟨hast, hdocument, hfinds⟩ :=
    findsParens_after nestedParens .full grammarFaults_nestedParens
  obtain ⟨ast, hl⟩ := hast (by decide) (Nat.le_trans (nodeCount_parse_le _) (by decide))
  obtain ⟨d, hd, htext, hparts⟩ := hdocument (by decide)
  exact ⟨grammarFaults_nestedParens, ast, d, hl, hd, hfinds ast d hl htext hparts _⟩

end SourceModel.Calc
