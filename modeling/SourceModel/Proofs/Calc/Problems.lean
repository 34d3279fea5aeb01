import SourceModel.Proofs.Calc.Acceptance
import SourceModel.Proofs.Calc.Lowered
import SourceModel.Proofs.Tree.Foreign

/-!
# Problems of a text

The nodes in error are those that stand for a fault, and each is reported with the message of its
fault. So the problems of a syntax tree have the messages of the parser, except that a string
whose last quote is escaped passes for finished.
-/

namespace SourceModel.Calc

open Draft (entriesAmong)

/-! ## Entries in error -/

/-- The node of an entry is in error if the entry stands for a fault, and nothing is said about it
yet. -/
structure Entry.Plain (e : Entry) : Prop where
  attachments : e.data.attachments = {}
  isError : e.data.status.isError = e.slip.isSome

section Plain

private theorem Entry.Plain.judged {e : Entry} (h : e.Plain) (closed : Bool)
    (fault : LexicalFault) : (e.judged closed fault).Plain := by
  cases closed with
  | true => exact h
  | false => exact ⟨h.attachments, rfl⟩

private theorem plain_textEntry (kind : SyntaxKind) (region : Region)
    (text : Option (Nat × String)) :
    (textEntry kind region text).Plain := ⟨rfl, rfl⟩

private theorem plain_literalEntry (offset : Nat) (region : Region) (cs : List Cst) :
    (literalEntry offset region cs).Plain := by
  unfold literalEntry
  split
  · exact Entry.Plain.judged ⟨rfl, rfl⟩ _ _
  · exact plain_textEntry ..

private theorem plain_branch (kind : SyntaxKind) (region : Region) (text : Option String)
    (ds : List Draft) :
    Entry.Plain
      { data := { kind, region, status := TreeBuilder.statusOver (Draft.trees ds), text } } := by
  refine ⟨rfl, ?_⟩
  simp only [TreeBuilder.statusOver]
  split <;> rfl

private theorem plain_draftsAmong (offset : Nat) (cs : List Cst) :
    ∀ e ∈ entriesAmong (draftsAmong offset cs), e.Plain := by
  intro e he
  obtain ⟨_, _, _, -, hmade⟩ := comesFrom_draftsAmong offset cs e he
  cases hmade with
  | branch => exact plain_branch ..
  | name | nameRef => exact plain_textEntry ..
  | literal => exact plain_literalEntry ..
  | template => exact Entry.Plain.judged ⟨rfl, rfl⟩ _ _
  | error => exact ⟨rfl, rfl⟩

theorem plain_programDraft {children : List Cst} (h : Cst.widths children < naOffset) :
    ∀ e ∈ (programDraft children h).entries, e.Plain := by
  rw [programDraft, Draft.branch, Draft.entries]
  exact List.forall_mem_cons.2 ⟨plain_branch .., plain_draftsAmong 0 children⟩

end Plain

/-! ## Messages -/

theorem ofNode_explained {e : Entry} (h : e.Plain) (identity : Nat) (message : String) :
    Problem.ofNode (explained identity message e.data) =
      ⟨e.data.region, e.data.status, message⟩ := by
  have hdetail : (explained identity message e.data).attachments.detail? =
      some ⟨e.data.region, message⟩ := by
    simp only [explained, detailed, h.attachments]
    rfl
  rw [Problem.ofNode, hdetail]
  rfl

private theorem messages_explainedFrom {es : List Entry} (h : ∀ e ∈ es, e.Plain) (id identity : Nat)
    (messages : List String) :
    ((explainedFrom identity messages es).filter fun data => data.status.isError).map
        (fun data => (Problem.ofNode data).message) =
      (detailsFrom id messages es).map Prod.snd := by
  induction es generalizing id identity messages with
  | nil => rfl
  | cons e es ih =>
    have he := h e (by simp)
    have hes : ∀ e ∈ es, e.Plain := fun e' he' => h e' (by simp [he'])
    have herror := he.isError
    have hmark : e.slip.isSome → ∀ message messages',
        ((explained identity message e.data ::
          explainedFrom (identity + 1) messages' es).filter fun data => data.status.isError).map
            (fun data => (Problem.ofNode data).message) =
          message :: (detailsFrom (id + 1) messages' es).map Prod.snd := by
      intro hslip message messages'
      have hin : (explained identity message e.data).status.isError = true := herror.trans hslip
      rw [List.filter_cons, if_pos hin, List.map_cons, ofNode_explained he, ih hes (id + 1)]
    rcases hs : e.slip with _ | _ | fault
    · rw [hs] at herror
      simp [explainedFrom, detailsFrom, hs, herror, ih hes (id + 1)]
    · rw [hs] at hmark
      simp [explainedFrom, detailsFrom, hs, hmark rfl]
    · rw [hs] at hmark
      simp [explainedFrom, detailsFrom, hs, hmark rfl]

private theorem perm_detailsFrom {es : List Entry} {messages : List String}
    (h : grammarSlips es = messages.length) (id : Nat) :
    ((detailsFrom id messages es).map Prod.snd).Perm
      (messages ++ (es.filterMap Entry.lack?).map LexicalFault.message) := by
  induction es generalizing id messages with
  | nil =>
    rw [List.eq_nil_of_length_eq_zero h.symm]
    exact .refl _
  | cons e es ih =>
    rcases hs : e.slip with _ | _ | fault
    · have hes : grammarSlips es = messages.length := by simpa [grammarSlips, hs] using h
      simpa [detailsFrom, Entry.lack?, hs] using ih hes (id + 1)
    · have hes : grammarSlips es + 1 = messages.length := by simpa [grammarSlips, hs] using h
      obtain ⟨message, messages, rfl⟩ := List.exists_cons_of_length_eq_add_one hes.symm
      have hperm := @ih messages (by simpa using hes) (id + 1)
      simpa [detailsFrom, Entry.lack?, hs] using hperm
    · have hes : grammarSlips es = messages.length := by simpa [grammarSlips, hs] using h
      have hperm := (ih hes (id + 1)).cons fault.message
      simpa [detailsFrom, Entry.lack?, hs] using hperm.trans List.perm_middle.symm

private theorem perm_flaws (ts : List Token) :
    ((ts.filterMap Token.flaw?).map LexicalFault.message).Perm
      ((ts.filterMap Token.lack?).map LexicalFault.message ++
        List.replicate (ts.countP Token.endsEscaped) LexicalFault.unterminatedString.message) := by
  induction ts with
  | nil => exact .refl _
  | cons t ts ih =>
    cases he : t.endsEscaped with
    | false =>
      cases hl : t.lack? with
      | none => simpa [Token.flaw?, he, hl] using ih
      | some fault => simpa [Token.flaw?, he, hl] using ih
    | true =>
      have hl : t.lack? = none := by
        simp only [Token.endsEscaped, Bool.and_eq_true, decide_eq_true_eq] at he
        rw [lack?_string he.1.1, if_pos he.1.2]
      have hperm := ih.cons LexicalFault.unterminatedString.message
      simpa [Token.flaw?, he, hl, List.replicate_succ] using hperm.trans List.perm_middle.symm

/-! ## Texts -/

section Texts

variable {source : String} {level : AstLevel} {ast : Ast}

/-- The faults of the lexer that the parser leaves as they are. -/
def lexicalFaults (source : String) : List Diagnostic :=
  (lex source).faults.filter fun f => !isUnknownAmong (lex source).tokens f

private theorem message_lexicalFaults (source : String) :
    (lexicalFaults source).map Diagnostic.message =
      ((lex source).tokens.filterMap Token.flaw?).map LexicalFault.message :=
  map_message_lexFrom 0 source.toList

theorem filter_grammar_reported (source : String) :
    (lexicalFaults source ++ (statements ⟨(lex source).tokens, 0⟩).faults).filter
        (·.origin = .grammar) =
      (statements ⟨(lex source).tokens, 0⟩).faults := by
  have hlexical : (lexicalFaults source).filter (·.origin = .grammar) = [] := by
    refine List.filter_eq_nil_iff.2 fun f hf => ?_
    rw [lexFrom_origin 0 source.toList f (List.mem_filter.1 hf).1]
    decide
  have hgrammar : (statements ⟨(lex source).tokens, 0⟩).faults.filter (·.origin = .grammar) =
      (statements ⟨(lex source).tokens, 0⟩).faults :=
    List.filter_eq_self.2 fun f hf => decide_eq_true ((statements_reads _).origin_eq f hf)
  rw [List.filter_append, hlexical, hgrammar, List.nil_append]

private theorem perm_grammarFaults (source : String) :
    (parse source).grammarFaults.Perm (statements ⟨(lex source).tokens, 0⟩).faults := by
  have hfaults : (parse source).faults.Perm
      (lexicalFaults source ++ (statements ⟨(lex source).tokens, 0⟩).faults) :=
    List.mergeSort_perm ..
  have h := hfaults.filter fun f => decide (f.origin = .grammar)
  rwa [filter_grammar_reported] at h

/-- The faults of a text are those of the grammar and what the lexer finds its tokens to lack. -/
theorem perm_faults (source : String) :
    ((parse source).faults.map Diagnostic.message).Perm
      ((parse source).grammarFaults.map Diagnostic.message ++
        ((lex source).tokens.filterMap Token.flaw?).map LexicalFault.message) := by
  have hfaults : (parse source).faults.Perm
      (lexicalFaults source ++ (statements ⟨(lex source).tokens, 0⟩).faults) :=
    List.mergeSort_perm ..
  have hgrammar := (perm_grammarFaults source).symm.append_right (lexicalFaults source)
  rw [← message_lexicalFaults, ← List.map_append]
  exact ((hfaults.trans List.perm_append_comm).trans hgrammar).map _

/-- The problems of a syntax tree are the faults of the grammar and what the lowering finds the
tokens to lack. -/
theorem perm_problems (h : lower (parse source) level = .ok ast) :
    (ast.problems.map Problem.message).Perm
      ((parse source).grammarFaults.map Diagnostic.message ++
        ((lex source).tokens.filterMap Token.lack?).map LexicalFault.message) := by
  obtain ⟨hlt, hl⟩ := lowered_of_lower h
  have haccounts : Accounts (programDraft _ hlt).entries _ _ :=
    .cons rfl ((statements_reads (lex source).tokens).accounts 0)
  have hslips : grammarSlips (programDraft _ hlt).entries =
      ((parse source).grammarFaults.map Diagnostic.message).length := by
    rw [List.length_map, (perm_grammarFaults source).length_eq]
    exact haccounts.grammar
  have hroot : ast.root.problems.map Problem.message =
      (detailsFrom 0 ((parse source).grammarFaults.map Diagnostic.message)
        (programDraft _ hlt).entries).map Prod.snd := by
    rw [Tree.problems_eq hl.foreign, List.map_map, hl.datas_eq]
    exact messages_explainedFrom (plain_programDraft hlt) 0 0 _
  have hperm := perm_detailsFrom hslips 0
  rw [← hroot, haccounts.lacking] at hperm
  exact ((List.mergeSort_perm ..).map _).trans hperm

/-- The faults of a text are the problems of its syntax tree, and one more for each string that ends
with an escaped quote. -/
theorem perm_faults_problems (h : lower (parse source) level = .ok ast) :
    ((parse source).faults.map Diagnostic.message).Perm
      (ast.problems.map Problem.message ++
        List.replicate ((lex source).tokens.countP Token.endsEscaped)
          LexicalFault.unterminatedString.message) := by
  have hflaws := (perm_flaws (lex source).tokens).append_left
    ((parse source).grammarFaults.map Diagnostic.message)
  rw [← List.append_assoc] at hflaws
  exact ((perm_faults source).trans hflaws).trans ((perm_problems h).symm.append_right _)

/-- The problems of a syntax tree have the messages of the faults of its text just where no string
ends with an escaped quote. Where some do, as many reports of unfinished strings are lost, so a
text has no problem if it has no fault but those. -/
theorem map_message_problems (h : lower (parse source) level = .ok ast) :
    ((parse source).faults.map Diagnostic.message).Perm
        (ast.problems.map Problem.message ++
          List.replicate ((lex source).tokens.countP Token.endsEscaped)
            LexicalFault.unterminatedString.message) ∧
      (((parse source).faults.map Diagnostic.message).Perm (ast.problems.map Problem.message) ↔
        ∀ t ∈ (lex source).tokens, t.endsEscaped = false) ∧
      (ast.problems = [] ↔
        (parse source).faults.length = (lex source).tokens.countP Token.endsEscaped) := by
  have hperm := perm_faults_problems h
  have hlength := hperm.length_eq
  simp only [List.length_map, List.length_append, List.length_replicate] at hlength
  have hcount : (lex source).tokens.countP Token.endsEscaped = 0 ↔
      ∀ t ∈ (lex source).tokens, t.endsEscaped = false := by
    simp [List.countP_eq_zero]
  refine ⟨hperm, ?_, ?_⟩
  · rw [← hcount]
    constructor
    · intro hsame
      have hlen := hsame.length_eq
      simp only [List.length_map] at hlen
      omega
    · intro hzero
      simpa [hzero] using hperm
  · rw [← List.length_eq_zero_iff]
    omega

end Texts

/-- A string that ends with an escaped quote, closed by a semicolon on the next line. -/
def escapedQuote : String := "\"\\\"\n;"

private theorem lex_escapedQuote :
    (lex escapedQuote).tokens =
      [⟨.string, "\"\\\"", 0, 3⟩, ⟨.newline, "\n", 3, 4⟩, ⟨.semicolon, ";", 4, 5⟩] := by
  decide +kernel

private theorem grammarFaults_escapedQuote : (parse escapedQuote).grammarFaults = [] := by
  have hfactor : (Rule.ref .factor).Derives [.string] := Rule.derives_factor_iff.2 (.inr (.inl rfl))
  have hterm : (Rule.ref .term).Derives [.string] :=
    Rule.derives_term_iff.2 ⟨_, [], rfl, hfactor, .stop⟩
  have hexpr : (Rule.ref .expr).Derives [.string] :=
    Rule.derives_expr_iff.2 ⟨_, [], rfl, hterm, .stop⟩
  have hstatement : (Rule.ref .statement).Derives [.string, .semicolon] :=
    Rule.derives_statement_iff.2 (.inr (.inr (.inr ⟨_, hexpr, rfl⟩)))
  refine grammarFaults_eq_nil.2 (statements_clean (.more hstatement .stop) ?_).faults_eq
  rw [lex_escapedQuote]
  rfl

private theorem lower_escapedQuote :
    ∃ ast, lower (parse escapedQuote) .full = .ok ast ∧ ast.problems = [] := by
  obtain ⟨ast, hl⟩ := @exists_lower escapedQuote (by decide)
    (Nat.le_trans (nodeCount_parse_le _) (by decide)) .full
  have hlack : (lex escapedQuote).tokens.filterMap Token.lack? = [] := by
    rw [lex_escapedQuote]
    decide
  have hperm := perm_problems hl
  rw [grammarFaults_escapedQuote, hlack] at hperm
  exact ⟨ast, hl, List.map_eq_nil_iff.1 hperm.eq_nil⟩

/-- The lexer reports this string as unfinished, and its syntax tree has no problem. -/
theorem problems_escapedQuote :
    ∃ ast, lower (parse escapedQuote) .full = .ok ast ∧ ast.problems = [] ∧
      (parse escapedQuote).faults.map Diagnostic.message = ["unterminated string literal"] := by
  obtain ⟨ast, hl, hp⟩ := lower_escapedQuote
  have hflaws : (lex escapedQuote).tokens.filterMap Token.flaw? = [.unterminatedString] := by
    rw [lex_escapedQuote]
    decide
  have hperm := perm_faults escapedQuote
  rw [grammarFaults_escapedQuote, hflaws] at hperm
  exact ⟨ast, hl, hp, List.perm_singleton.1 hperm⟩

/-- The one report of this text is lost. -/
theorem map_message_problems_escapedQuote :
    ∃ ast, lower (parse escapedQuote) .full = .ok ast ∧
      ((parse escapedQuote).faults.map Diagnostic.message).Perm
          (ast.problems.map Problem.message ++
            List.replicate ((lex escapedQuote).tokens.countP Token.endsEscaped)
              LexicalFault.unterminatedString.message) ∧
        (((parse escapedQuote).faults.map Diagnostic.message).Perm
            (ast.problems.map Problem.message) ↔
          ∀ t ∈ (lex escapedQuote).tokens, t.endsEscaped = false) ∧
        (ast.problems = [] ↔ (parse escapedQuote).faults.length =
          (lex escapedQuote).tokens.countP Token.endsEscaped) := by
  obtain ⟨ast, hl, -⟩ := lower_escapedQuote
  exact ⟨ast, hl, map_message_problems hl⟩

end SourceModel.Calc
