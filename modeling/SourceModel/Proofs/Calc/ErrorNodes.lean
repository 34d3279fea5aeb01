import SourceModel.Proofs.Calc.Bounds
import SourceModel.Proofs.Calc.SourceOrder
import Mathlib.Data.List.Forall2

/-!
# Error nodes

The nodes of kind error stand for the faults of the grammar, one for each and in the same order,
and each of them has the message of its fault. A node for a token that has no place lies where the
token lies. A node for something that is missing is empty and lies behind the trivia that the parser
has skipped, whereas the fault lies before them, right behind the last significant token.
-/

namespace SourceModel.Calc

open Draft (entriesAmong)

/-! ## Entries of faults -/

/-- Where the error node of a fault lies, by the tokens that are read between a significant token
that ends at `stop` and an offset behind them. -/
inductive MarksIn (stop offset : Nat) : List Token → Diagnostic → Region → Prop where
  | lack {message : String} (us vs : List Token) :
      MarksIn stop offset (us ++ vs) ⟨.grammar, message, lastStop stop us, lastStop stop us⟩
        (place (offset + Cst.widths (us.map Token.leaf)) (.node .error []))
  | token {message : String} {t : Token} (us vs : List Token) (significant : ¬ t.isTrivia) :
      MarksIn stop offset (us ++ t :: vs) ⟨.grammar, message, t.start, t.stop⟩
        (place (offset + Cst.widths (us.map Token.leaf)) (.node .error [t.leaf]))

section MarksIn

variable {stop offset : Nat} {ts : List Token} {f : Diagnostic} {r : Region}

private theorem MarksIn.before (h : MarksIn stop offset ts f r) (ws : List Token) :
    MarksIn stop offset (ts ++ ws) f r := by
  cases h with
  | lack us vs =>
    rw [List.append_assoc]
    exact .lack us (vs ++ ws)
  | token us vs significant =>
    rw [List.append_assoc, List.cons_append]
    exact .token us (vs ++ ws) significant

private theorem MarksIn.behind {ws : List Token}
    (h : MarksIn (lastStop stop ws) (offset + Cst.widths (ws.map Token.leaf)) ts f r) :
    MarksIn stop offset (ws ++ ts) f r := by
  have hwidths : ∀ us : List Token, offset + Cst.widths (ws.map Token.leaf) +
      Cst.widths (us.map Token.leaf) = offset + Cst.widths ((ws ++ us).map Token.leaf) := by
    intro us
    rw [List.map_append, Cst.widths_append, Nat.add_assoc]
  cases h with
  | lack us vs =>
    rw [← lastStop_append, hwidths, ← List.append_assoc]
    exact .lack (ws ++ us) vs
  | token us vs significant =>
    rw [hwidths, ← List.append_assoc]
    exact .token (ws ++ us) vs significant

end MarksIn

/-- Whether an entry has nothing to do with the grammar. -/
def Entry.Clear (e : Entry) : Prop := e.slip ≠ some .grammar ∧ e.data.kind ≠ Kind.error

/-- The error entries among others stand for the given faults, each in a region that is related to
its fault. -/
inductive Pairs (P : Diagnostic → Region → Prop) : List Diagnostic → List Entry → Prop where
  | nil : Pairs P [] []
  | clear {fs : List Diagnostic} {e : Entry} {es : List Entry} (clear : e.Clear) :
      Pairs P fs es → Pairs P fs (e :: es)
  | fault {f : Diagnostic} {r : Region} {fs : List Diagnostic} {es : List Entry} (marks : P f r) :
      Pairs P fs es → Pairs P (f :: fs) (errorEntry r :: es)

section Pairs

variable {P Q : Diagnostic → Region → Prop} {fs gs : List Diagnostic} {es es' : List Entry}

private theorem Pairs.mono (h : Pairs P fs es) (hPQ : ∀ f r, P f r → Q f r) : Pairs Q fs es := by
  induction h with
  | nil => exact .nil
  | clear clear _ ih => exact .clear clear ih
  | fault marks _ ih => exact .fault (hPQ _ _ marks) ih

private theorem Pairs.append (h : Pairs P fs es) (h' : Pairs P gs es') :
    Pairs P (fs ++ gs) (es ++ es') := by
  induction h with
  | nil => exact h'
  | clear clear _ ih => exact .clear clear ih
  | fault marks _ ih => exact .fault marks ih

private theorem Pairs.of_clear (h : ∀ e ∈ es, e.Clear) : Pairs P [] es := by
  induction es with
  | nil => exact .nil
  | cons e es ih => exact .clear (h e (by simp)) (ih fun e' he => h e' (by simp [he]))

private theorem Pairs.explained (h : Pairs P fs es) (identity : Nat) :
    List.Forall₂ (fun f data => P f data.region ∧ data.status = .error grammarCode ∧
        data.attachments.detail? = some ⟨data.region, f.message⟩) fs
      ((explainedFrom identity (fs.map Diagnostic.message) es).filter (·.kind = Kind.error)) := by
  induction h generalizing identity with
  | nil => exact .nil
  | @clear fs e es clear _ ih =>
    obtain ⟨hslip, hkind⟩ := clear
    rcases hs : e.slip with _ | _ | fault
    · simpa [explainedFrom, hs, hkind] using ih identity
    · exact absurd hs hslip
    · have hkind' : (Calc.explained identity fault.message e.data).kind ≠ Kind.error := hkind
      simpa [explainedFrom, hs, hkind'] using ih (identity + 1)
  | @fault f r fs es marks _ ih =>
    have hhead : explainedFrom identity ((f :: fs).map Diagnostic.message) (errorEntry r :: es) =
        Calc.explained identity f.message (errorEntry r).data ::
          explainedFrom (identity + 1) (fs.map Diagnostic.message) es := rfl
    have hkind : (Calc.explained identity f.message (errorEntry r).data).kind = Kind.error := rfl
    rw [hhead, List.filter_cons, if_pos (decide_eq_true hkind)]
    exact .cons ⟨marks, rfl, rfl⟩ (ih (identity + 1))

end Pairs

/-! ## Readings -/

/-- The entries for trees stand for the given faults about the given tokens, wherever both start. -/
def Stands (stop : Nat) (ts : List Token) (cs : List Cst) (fs : List Diagnostic) : Prop :=
  ∀ offset, Pairs (MarksIn stop offset ts) fs (entriesAt offset cs)

section Entries

variable {e : Entry}

private theorem clear_of_slip (hs : e.slip = none) (hk : e.data.kind ≠ Kind.error) : e.Clear :=
  ⟨by simp [hs], hk⟩

private theorem clear_judged (h : e.Clear) (closed : Bool) (fault : LexicalFault) :
    (e.judged closed fault).Clear := by
  cases closed with
  | true => exact h
  | false => exact ⟨by simp [Entry.judged], h.2⟩

private theorem clear_literalEntry (offset : Nat) (region : Region) (cs : List Cst) :
    (literalEntry offset region cs).Clear := by
  unfold literalEntry
  split
  · exact clear_judged (clear_of_slip rfl (by simp [textEntry, Kind.string, Kind.error])) _ _
  · exact clear_of_slip rfl (by simp [textEntry, Kind.number, Kind.error])

private theorem clear_chunkDrafts {kind : SyntaxKind} (hk : kind ≠ Kind.error)
    (flags : EmbeddingFlags) (offset : Nat) (region : Region) (cs : List Cst) :
    ∀ e ∈ entriesAmong (chunkDrafts kind flags offset region cs), e.Clear := by
  unfold chunkDrafts
  cases Cst.findToken? .template offset cs with
  | none => exact List.forall_mem_nil _
  | some found =>
    exact List.forall_mem_singleton.2 (clear_judged (clear_of_slip rfl hk) _ _)

private theorem clear_nameDrafts (offset : Nat) (cs : List Cst) :
    ∀ e ∈ entriesAmong (nameDrafts offset cs), e.Clear := by
  unfold nameDrafts
  cases Cst.findToken? .ident offset cs with
  | none => exact List.forall_mem_nil _
  | some found =>
    exact List.forall_mem_singleton.2
      (clear_of_slip rfl (by simp [textEntry, Kind.name, Kind.error]))

end Entries

namespace Stands

variable {stop : Nat} {ts us : List Token} {cs ds : List Cst} {fs gs : List Diagnostic}

private theorem leaves (stop : Nat) (ts : List Token) : Stands stop ts (ts.map Token.leaf) [] := by
  intro offset
  rw [entriesAt, draftsAmong_leaves]
  exact .nil

private theorem append (h : Stands stop ts cs fs) (h' : Stands (lastStop stop ts) us ds gs)
    (hw : Cst.widths cs = Cst.widths (ts.map Token.leaf)) :
    Stands stop (ts ++ us) (cs ++ ds) (fs ++ gs) := by
  intro offset
  rw [entriesAt, draftsAmong_append, Draft.entriesAmong_append, hw]
  have hfront := (h offset).mono fun f r hr => hr.before us
  have hback := (h' (offset + Cst.widths (ts.map Token.leaf))).mono fun f r hr => hr.behind
  exact hfront.append hback

private theorem skip {blanks : List Token} (hb : ∀ b ∈ blanks, b.isTrivia)
    (h : Stands stop ts cs fs) : Stands stop (blanks ++ ts) (blanks.map Token.leaf ++ cs) fs := by
  refine (leaves stop blanks).append ?_ rfl
  rwa [lastStop_trivia hb]

private theorem next {blanks : List Token} {t : Token} (hb : ∀ b ∈ blanks, b.isTrivia)
    (ht : ¬ t.isTrivia) (h : Stands t.stop ts cs fs) :
    Stands stop (blanks ++ t :: ts) ((blanks ++ [t]).map Token.leaf ++ cs) fs := by
  have hlast : lastStop stop (blanks ++ [t]) = t.stop := lastStop_next hb ht
  rw [List.append_cons]
  refine (leaves stop (blanks ++ [t])).append ?_ rfl
  rwa [hlast]

private theorem node {c : Cst}
    (h : ∀ offset, Pairs (MarksIn stop offset ts) fs (entriesAmong (drafts offset c))) :
    Stands stop ts [c] fs := by
  intro offset
  rw [entriesAt, draftsAmong, draftsAmong, List.append_nil]
  exact h offset

private theorem clear {c : Cst} (h : ∀ offset, ∀ e ∈ entriesAmong (drafts offset c), e.Clear) :
    Stands stop ts [c] [] := node fun offset => .of_clear (h offset)

private theorem branch {kind : SyntaxKind} {region : Region} {text : Option String} {offset : Nat}
    (hk : kind ≠ Kind.error) (h : Stands stop ts cs fs) :
    Pairs (MarksIn stop offset ts) fs
      (entriesAmong [.branch kind region text (draftsAmong offset cs)]) := by
  simp only [entriesAmong, Draft.branch, Draft.entries, List.append_nil]
  exact .clear (clear_of_slip rfl hk) (h offset)

private theorem exprStatement (h : Stands stop ts cs fs) :
    Stands stop ts [.node .exprStatement cs] fs :=
  node fun _ => h.branch (by simp [Kind.exprStatement, Kind.error])

private theorem paren (h : Stands stop ts cs fs) : Stands stop ts [.node .paren cs] fs :=
  node fun _ => h.branch (by simp [Kind.paren, Kind.error])

private theorem binary (h : Stands stop ts cs fs) : Stands stop ts [.node .binary cs] fs :=
  node fun _ => h.branch (by simp [Kind.binary, Kind.error])

private theorem assignment (h : Stands stop ts cs fs) :
    Stands stop ts [.node .assignment cs] fs := by
  refine node fun offset => ?_
  simp only [drafts, entriesAmong, Draft.branch, Draft.entries, List.append_nil,
    Draft.entriesAmong_append]
  refine .clear (clear_of_slip rfl (by simp [Kind.assignment, Kind.error])) ?_
  exact (Pairs.of_clear (clear_nameDrafts offset cs)).append (h offset)

private theorem lack (stop : Nat) (message : String) :
    Stands stop [] [.node .error []] [⟨.grammar, message, stop, stop⟩] :=
  node fun _ => .fault (.lack [] []) .nil

private theorem token {t : Token} (ht : ¬ t.isTrivia) (stop : Nat) (message : String) :
    Stands stop [t] [.node .error [t.leaf]] [⟨.grammar, message, t.start, t.stop⟩] :=
  node fun _ => .fault (.token [] [] ht) .nil

private theorem templateExpr : Stands stop ts [.node .templateExpr cs] [] :=
  clear fun offset => clear_chunkDrafts (by simp [Kind.templateExpr, Kind.error]) _ offset _ cs

private theorem templateStatement : Stands stop ts [.node .templateStatement cs] [] :=
  clear fun offset => clear_chunkDrafts (by simp [Kind.templateBlock, Kind.error]) _ offset _ cs

end Stands

/-- The error entries of a reading stand for its faults. -/
theorem Reads.stands {p : Phrase} {stop : Nat} {ts : List Token} {is : List Cst}
    {fs : List Diagnostic} (h : Reads p stop ts is fs) : Stands stop ts is fs := by
  induction h with
  | skip blank _ ih => exact ih.skip blank
  | literal kind => exact .clear fun offset => List.forall_mem_singleton.2 (clear_literalEntry ..)
  | nameRef kind =>
    refine .clear fun offset => List.forall_mem_singleton.2 ?_
    exact clear_of_slip rfl (by simp [textEntry, Kind.nameRef, Kind.error])
  | template kind => exact .templateExpr
  | paren kind hr _ ih ih' =>
    have hinner := ih.append ih' hr.widths_eq
    exact .paren (hinner.next (List.forall_mem_nil _) (significant_of_kind kind rfl))
  | lacking => exact .lack _ _
  | misplaced message kind =>
    exact .token (significant_of_kind rfl (isTrivia_of_isMisplaced kind)) _ _
  | lift chain _ ih => exact ih
  | join blank joins hr _ ih ih' =>
    have ho := significant_of_kind rfl (isTrivia_of_joins joins)
    rw [List.append_assoc]
    exact .binary (ih.append (ih'.next blank ho) hr.widths_eq)
  | found blank closing same => exact .leaves _ _
  | missing => exact .lack _ _
  | assignment blank blank' kind kind' hr _ ih ih' =>
    have hname := significant_of_kind kind rfl
    have heq := significant_of_kind kind' rfl
    rw [List.append_assoc]
    exact .assignment (((ih.append ih' hr.widths_eq).next blank' heq).next blank hname)
  | chunk blank kind => exact .templateStatement
  | closedChunk blank blank' kind kind' => exact .templateStatement
  | empty blank kind => exact .exprStatement ((Stands.lack _ _).append (.leaves _ _) rfl)
  | value hr _ ih ih' => exact .exprStatement (ih.append ih' hr.widths_eq)
  | stray blank kind hr ih =>
    have ht := significant_of_kind kind rfl
    exact ih.append ((Stands.token ht _ _).skip blank) hr.widths_eq
  | done blank => exact .leaves _ _
  | later _ hr _ ih ih' => exact ih.append ih' hr.widths_eq

/-! ## Regions -/

/-- Where the error node of a fault lies among tokens: where the fault lies if that is not empty,
and otherwise at an offset with nothing but trivia between the fault and it. -/
structure Spans (ts : List Token) (f : Diagnostic) (r : Region) : Prop where
  filled : f.start < f.stop → r.offset = f.start ∧ r.stop = f.stop
  empty : f.stop ≤ f.start → r.stop = r.offset ∧ f.start ≤ r.offset ∧
    ∀ t ∈ ts, f.start < t.stop → t.start < r.offset → t.isTrivia

section Spans

variable {lo hi offset stop : Nat} {ts : List Token} {t : Token} {f : Diagnostic} {r : Region}

private theorem isTrivia_of_lastStop_lt (h : Tiles lo hi ts) (hstop : stop ≤ lo) :
    ∀ t ∈ ts, lastStop stop ts < t.stop → t.isTrivia := by
  induction ts generalizing lo stop with
  | nil => simp
  | cons u ts ih =>
    obtain ⟨hstart, hlt, hrest⟩ := h
    intro t ht hlast
    by_cases hu : u.isTrivia = true
    · have hskip : lastStop stop (u :: ts) = lastStop stop ts := by simp [lastStop, hu]
      rw [hskip] at hlast
      rcases List.mem_cons.1 ht with rfl | ht
      · exact hu
      · exact ih hrest (by omega) t ht hlast
    · rw [lastStop_cons hu] at hlast
      rcases List.mem_cons.1 ht with rfl | ht
      · have hle := (le_lastStop hrest (Nat.le_refl _)).1
        omega
      · exact ih hrest (Nat.le_refl _) t ht hlast

private theorem place_lack (h : offset < naOffset) :
    (place offset (.node .error [])).offset = offset ∧
      (place offset (.node .error [])).stop = offset := place_bounds rfl h

private theorem MarksIn.spans (h : MarksIn lo lo ts f r) (ht : Tiles lo hi ts)
    (hs : ∀ t ∈ ts, t.stop = t.start + Text.size t.text) (hhi : hi < naOffset) : Spans ts f r := by
  cases h with
  | lack us vs =>
    obtain ⟨mid, hus, hvs⟩ := tiles_append.1 ht
    have hmid : lo + Cst.widths (us.map Token.leaf) = mid :=
      hus.widths_eq fun t ht => hs t (List.mem_append_left _ ht)
    have hle := hvs.le
    obtain ⟨hoffset, hstop⟩ := @place_lack mid (by omega)
    rw [hmid]
    refine ⟨fun h => absurd h (Nat.lt_irrefl _), fun _ => ?_⟩
    rw [hoffset, hstop]
    refine ⟨rfl, (le_lastStop hus (Nat.le_refl _)).2, fun t ht hlast hstart => ?_⟩
    rcases List.mem_append.1 ht with ht | ht
    · exact isTrivia_of_lastStop_lt hus (Nat.le_refl _) t ht hlast
    · have hmem := hvs.mem ht
      omega
  | @token message t us vs significant =>
    obtain ⟨mid, hus, hstart, hlt, hvs⟩ := tiles_append.1 ht
    have hmid : lo + Cst.widths (us.map Token.leaf) = mid :=
      hus.widths_eq fun t ht => hs t (List.mem_append_left _ ht)
    have hsize := hs t (by simp)
    have hle := hvs.le
    obtain ⟨hoffset, hstop⟩ := @place_single mid .error t significant (by omega)
    rw [hmid]
    refine ⟨fun _ => ⟨?_, ?_⟩, fun h => absurd hlt (Nat.not_lt_of_le h)⟩
    · rw [hoffset, hstart]
    · rw [hstop, ← hstart, ← hsize]

end Spans

/-! ## Texts -/

/-- A node stands for a fault of the grammar: it is in error for it, and says first what the fault
says. -/
structure Marks (source : String) (f : Diagnostic) (t : Tree) : Prop where
  status_eq : t.status = .error grammarCode
  detail?_eq : t.data.attachments.detail? = some ⟨t.region, f.message⟩
  spans : Spans (lex source).tokens f t.region

/-- The error nodes in pre-order stand for the faults of the grammar in their order. The lowering
gives a tree for every text within the limits for sizes. -/
theorem forall₂_marks (source : String) (level : AstLevel) :
    (Text.size source < halfWordLimit → (parse source).tree.nodeCount ≤ TreeBuilder.maxNodes →
      ∃ ast, lower (parse source) level = .ok ast) ∧
      ∀ ast, lower (parse source) level = .ok ast →
        List.Forall₂ (Marks source) (parse source).grammarFaults
          (ast.root.preorder.filter (·.kind = Kind.error)) := by
  refine ⟨fun hsize hcount => exists_lower hsize hcount level, fun ast h => ?_⟩
  obtain ⟨hlt, hl⟩ := lowered_of_lower h
  have hpairs : Pairs (MarksIn 0 0 (lex source).tokens) (parse source).grammarFaults
      (programDraft _ hlt).entries := by
    rw [grammarFaults_eq]
    exact .clear (clear_of_slip rfl (by simp [Kind.program, Kind.error]))
      ((statements_reads (lex source).tokens).stands 0)
  have hwidth : Text.size source < naOffset := by
    rw [← width_parse]
    exact hlt
  have hspans := hpairs.mono fun f r hr =>
    hr.spans (tiles_lex source) (stop_lexFrom 0 source.toList) hwidth
  have hdatas := hspans.explained 0
  rw [← hl.datas_eq, Tree.datas, List.filter_map, List.forall₂_map_right_iff] at hdatas
  exact hdatas.imp fun f t ht => ⟨ht.2.1, ht.2.2, ht.1⟩

/-- A parenthesis that is not closed is marked in front of the semicolon. -/
theorem forall₂_marks_unclosed :
    ∃ ast, lower (parse "x = (1 ;") .full = .ok ast ∧
      List.Forall₂ (Marks "x = (1 ;") (parse "x = (1 ;").grammarFaults
        (ast.root.preorder.filter (·.kind = Kind.error)) := by
  obtain ⟨hexists, hmarks⟩ := forall₂_marks "x = (1 ;" .full
  obtain ⟨ast, hl⟩ := hexists (by decide) (Nat.le_trans (nodeCount_parse_le _) (by decide))
  exact ⟨ast, hl, hmarks ast hl⟩

end SourceModel.Calc
