import SourceModel.Proofs.Calc.Recovery

/-!
# Texts one after the other

A text that ends with a semicolon, whatever faults it has, is parsed in front of another text as it
is parsed alone, and so is the other text. The concrete tree has the statements of both, and the
faults of both are listed one after the other.
-/

namespace SourceModel.Calc

/-! ## Parts -/

/-- A part of a concrete tree with its bounds in the source. -/
structure Part where
  tree : Cst
  start : Nat
  stop : Nat
deriving Repr

def Part.moved (n : Nat) (p : Part) : Part := { p with start := p.start + n, stop := p.stop + n }

mutual
/-- All parts of a tree that starts at `offset`, in pre-order. -/
def Cst.parts (offset : Nat) : Cst → List Part
  | .token kind text => [⟨.token kind text, offset, offset + Text.size text⟩]
  | .node kind children =>
    ⟨.node kind children, offset, offset + Cst.widths children⟩ :: partsAmong offset children

def Cst.partsAmong (offset : Nat) : List Cst → List Part
  | [] => []
  | c :: cs => c.parts offset ++ partsAmong (offset + c.width) cs
end

def Cst.children : Cst → List Cst
  | .token _ _ => []
  | .node _ children => children

private theorem partsAmong_append (offset : Nat) (cs ds : List Cst) :
    Cst.partsAmong offset (cs ++ ds) =
      Cst.partsAmong offset cs ++ Cst.partsAmong (offset + Cst.widths cs) ds := by
  induction cs generalizing offset with
  | nil => rfl
  | cons c cs ih =>
    simp only [List.cons_append, Cst.partsAmong, ih, Cst.widths, Nat.add_assoc, List.append_assoc]

mutual
private theorem parts_moved (n offset : Nat) :
    ∀ c : Cst, c.parts (offset + n) = (c.parts offset).map (Part.moved n)
  | .token kind text => by
    simp only [Cst.parts, Part.moved, List.map_cons, List.map_nil, Nat.add_right_comm]
  | .node kind children => by
    have hchildren := partsAmong_moved n offset children
    simp only [Cst.parts, Part.moved, List.map_cons, hchildren, Nat.add_right_comm]

private theorem partsAmong_moved (n offset : Nat) : ∀ cs : List Cst,
    Cst.partsAmong (offset + n) cs = (Cst.partsAmong offset cs).map (Part.moved n)
  | [] => rfl
  | c :: cs => by
    have hc := parts_moved n offset c
    have hcs := partsAmong_moved n (offset + c.width) cs
    rw [Nat.add_right_comm] at hcs
    simp only [Cst.partsAmong, hc, hcs, List.map_append]
end

/-! ## Statements -/

section Texts

variable {a : String}

private theorem lastStop_of_closed {lo hi : Nat} {ts : List Token} (h : Closed ts)
    (ht : Tiles lo hi ts) : lastStop lo ts = hi := by
  rcases List.eq_nil_or_concat ts with rfl | ⟨us, s, rfl⟩
  · exact ht
  · rw [List.concat_eq_append] at h ht ⊢
    obtain ⟨mid, -, -, -, hstop⟩ := tiles_append.1 ht
    have hs : ¬ s.isTrivia :=
      significant_of_kind (h s (by simp)) (by decide)
    rw [lastStop_append, lastStop_cons hs]
    exact hstop

private theorem statements_append (h : Closed (lex a).tokens) (b : String) :
    (statements ⟨(lex (a ++ b)).tokens, 0⟩).items =
        (statements ⟨(lex a).tokens, 0⟩).items ++ (statements ⟨(lex b).tokens, 0⟩).items ∧
      (statements ⟨(lex (a ++ b)).tokens, 0⟩).faults =
        (statements ⟨(lex a).tokens, 0⟩).faults ++
          (statements ⟨(lex b).tokens, 0⟩).faults.map (Diagnostic.moved (Text.size a)) := by
  have hlast : (statements ⟨(lex a).tokens, 0⟩).after.lastStop = Text.size a := by
    obtain ⟨⟨ts, hr, hl, -⟩, hend⟩ := statements_takes ⟨(lex a).tokens, 0⟩
    rw [hend, List.append_nil] at hr
    rw [hl, ← hr]
    exact lastStop_of_closed h (tiles_lex a)
  have hboth : (⟨(lex a).tokens, 0⟩ : Cursor).followed 0
      ((lex b).tokens.map (Token.moved (Text.size a))) = ⟨(lex (a ++ b)).tokens, 0⟩ := by
    simp [Cursor.followed, lex_append h]
  have hbehind : (⟨(lex b).tokens, 0⟩ : Cursor).followed (Text.size a) [] =
      ⟨(lex b).tokens.map (Token.moved (Text.size a)), Text.size a⟩ := by
    simp [Cursor.followed]
  have hfront := @statements_followed 0 ((lex b).tokens.map (Token.moved (Text.size a)))
    ⟨(lex a).tokens, 0⟩ (.inr h)
  have hback := @statements_followed (Text.size a) [] ⟨(lex b).tokens, 0⟩ (.inl rfl)
  rw [hboth, hlast, Nat.add_zero, Diagnostic.moved_zero, List.map_id] at hfront
  rw [hbehind, (statements_nil _).1, (statements_nil _).2, List.append_nil,
    List.append_nil] at hback
  rwa [hback.1, hback.2] at hfront

private theorem start_statements_lt (h : Closed (lex a).tokens) :
    ∀ f ∈ (statements ⟨(lex a).tokens, 0⟩).faults, f.start < Text.size a := by
  intro f hf
  have htiles := tiles_lex a
  by_cases hne : (lex a).tokens = []
  · rw [hne, (statements_nil 0).2] at hf
    cases hf
  · have hle := (statements_reads (lex a).tokens).start_le_of_semicolon rfl htiles (Nat.le_refl _)
      (List.getLast?_eq_some_getLast hne) (h.kind_getLast hne) f hf
    have hlast := htiles.mem (List.getLast_mem hne)
    omega

/-! ## Faults of the lexer -/

private theorem start_lexFrom_lt (offset : Nat) (cs : List Char) :
    ∀ f ∈ (lexFrom offset cs).faults, f.start < offset + Text.byteCount cs := by
  fun_induction lexFrom offset cs with
  | case1 => simp
  | case2 offset c cs l stop token later faults ih =>
    have hpos := c.utf8Size_pos
    have hsize : Text.byteCount l.tail + Text.byteCount l.rest = Text.byteCount cs := by
      rw [← Text.byteCount_append, lexeme_append]
    intro f hf
    rcases List.mem_append.1 hf with hf | hf
    · obtain ⟨_, _, rfl⟩ := List.mem_map.1 hf
      simp only [Text.byteCount_cons]
      omega
    · have hlt := ih f hf
      simp only [stop, Text.byteCount_cons] at hlt ⊢
      omega

private theorem start_lex_lt (source : String) :
    ∀ f ∈ (lex source).faults, f.start < Text.size source := by
  have hlt := start_lexFrom_lt 0 source.toList
  rwa [Nat.zero_add] at hlt

private theorem isUnknownAmong_append_moved {n : Nat} {ts us : List Token} {f : Diagnostic}
    (hf : f.start < n) : isUnknownAmong (ts ++ us.map (Token.moved n)) f = isUnknownAmong ts f := by
  have hus : isUnknownAmong (us.map (Token.moved n)) f = false := by
    refine List.any_eq_false.2 fun t ht => ?_
    obtain ⟨u, -, rfl⟩ := List.mem_map.1 ht
    have hne : ¬ u.start + n = f.start := by omega
    simp [Token.moved, hne]
  rw [isUnknownAmong, List.any_append]
  exact (congrArg (isUnknownAmong ts f || ·) hus).trans (Bool.or_false _)

private theorem isUnknownAmong_moved {n : Nat} {ts us : List Token} (hts : ∀ t ∈ ts, t.start < n)
    (f : Diagnostic) :
    isUnknownAmong (ts ++ us.map (Token.moved n)) (f.moved n) = isUnknownAmong us f := by
  have hfront : isUnknownAmong ts (f.moved n) = false := by
    refine List.any_eq_false.2 fun t ht => ?_
    have hlt := hts t ht
    have hne : ¬ t.start = f.start + n := by omega
    simp [Diagnostic.moved, hne]
  have hback : isUnknownAmong (us.map (Token.moved n)) (f.moved n) = isUnknownAmong us f := by
    have hbeq : ∀ k m : Nat, (k + n == m + n) = (k == m) := by
      intro k m
      rw [Bool.eq_iff_iff, beq_iff_eq, beq_iff_eq, Nat.add_right_cancel_iff]
    simp only [isUnknownAmong, List.any_map, Function.comp_def, Token.moved, Diagnostic.moved, hbeq]
    rfl
  rw [isUnknownAmong, List.any_append]
  exact (congrArg₂ (· || ·) hfront hback).trans (Bool.false_or _)

private theorem lexicalFaults_append (h : Closed (lex a).tokens) (b : String) :
    lexicalFaults (a ++ b) =
      lexicalFaults a ++ (lexicalFaults b).map (Diagnostic.moved (Text.size a)) := by
  have htokens : ∀ t ∈ (lex a).tokens, t.start < Text.size a := by
    intro t ht
    have hmem := (tiles_lex a).mem ht
    omega
  rw [lexicalFaults, lex_append h, List.filter_append, List.filter_map]
  congr 1
  · refine List.filter_congr fun f hf => ?_
    exact congrArg (!·) (isUnknownAmong_append_moved (start_lex_lt a f hf))
  · refine congrArg (List.map _) (List.filter_congr fun f _ => ?_)
    exact congrArg (!·) (isUnknownAmong_moved htokens f)

/-! ## Both texts -/

/-- The faults of two texts, of which the first one ends with a semicolon. Those of the first text
start before those of the second one, and so they come first when all are sorted. -/
theorem faults_append (h : Closed (lex a).tokens) (b : String) :
    (parse (a ++ b)).faults =
      (parse a).faults ++ (parse b).faults.map (Diagnostic.moved (Text.size a)) := by
  have hlexical : ∀ f ∈ lexicalFaults a, f.start < Text.size a :=
    fun f hf => start_lex_lt a f (List.mem_filter.1 hf).1
  have hbehind : ∀ fs : List Diagnostic, ∀ f ∈ fs.map (Diagnostic.moved (Text.size a)),
      Text.size a ≤ f.start := by
    intro fs f hf
    obtain ⟨g, -, rfl⟩ := List.mem_map.1 hf
    exact Nat.le_add_left _ _
  have hsorted := @sortOn_map _ Diagnostic.start _ Diagnostic.start
    (Diagnostic.moved (Text.size a)) (fun f g => (Nat.add_le_add_iff_right).symm)
  rw [faults_parse, faults_parse, faults_parse, ← hsorted, List.map_append, lexicalFaults_append h,
    (statements_append h b).2]
  exact sortOn_append_cut hlexical (hbehind _) (start_statements_lt h) (hbehind _)

/-- A text behind a semicolon is parsed on its own. The tokens, the parts of the concrete tree and
the faults of both texts are those of the first one and, moved by its size, those of the second
one. -/
theorem parse_append (h : Closed (lex a).tokens) (b : String) :
    (lex (a ++ b)).tokens = (lex a).tokens ++ (lex b).tokens.map (Token.moved (Text.size a)) ∧
      (parse (a ++ b)).tree =
        .node .program ((parse a).tree.children ++ (parse b).tree.children) ∧
      Cst.partsAmong 0 (parse (a ++ b)).tree.children =
        Cst.partsAmong 0 (parse a).tree.children ++
          (Cst.partsAmong 0 (parse b).tree.children).map (Part.moved (Text.size a)) ∧
      (parse (a ++ b)).faults =
        (parse a).faults ++ (parse b).faults.map (Diagnostic.moved (Text.size a)) := by
  have hitems := (statements_append h b).1
  have hwidths : Cst.widths (parse a).tree.children = Text.size a :=
    (statements_reads (lex a).tokens).widths_eq.trans (widths_lex a)
  refine ⟨congrArg Lexed.tokens (lex_append h b), congrArg (Cst.node .program) hitems, ?_,
    faults_append h b⟩
  have hmoved := partsAmong_moved (Text.size a) 0 (parse b).tree.children
  rw [← hmoved, Nat.zero_add, ← hwidths]
  have hparts := partsAmong_append 0 (parse a).tree.children (parse b).tree.children
  rw [Nat.zero_add] at hparts
  rw [← hparts]
  exact congrArg (Cst.partsAmong 0) hitems

end Texts

/-- An open parenthesis does not reach over a semicolon, and a closing one does not reach back. -/
theorem parse_append_unclosed :
    Closed (lex "x = (1;").tokens ∧
      (lex ("x = (1;" ++ "2);")).tokens =
        (lex "x = (1;").tokens ++ (lex "2);").tokens.map (Token.moved 7) ∧
      (parse ("x = (1;" ++ "2);")).tree =
        .node .program ((parse "x = (1;").tree.children ++ (parse "2);").tree.children) ∧
      Cst.partsAmong 0 (parse ("x = (1;" ++ "2);")).tree.children =
        Cst.partsAmong 0 (parse "x = (1;").tree.children ++
          (Cst.partsAmong 0 (parse "2);").tree.children).map (Part.moved 7) ∧
      (parse ("x = (1;" ++ "2);")).faults =
        (parse "x = (1;").faults ++ (parse "2);").faults.map (Diagnostic.moved 7) := by
  have hclosed : Closed (lex "x = (1;").tokens := by
    have hlast : (lex "x = (1;").tokens.getLast? = some ⟨.semicolon, ";", 6, 7⟩ := by
      decide +kernel
    intro t ht
    rw [hlast] at ht
    cases ht
    rfl
  exact ⟨hclosed, parse_append hclosed "2);"⟩

end SourceModel.Calc
