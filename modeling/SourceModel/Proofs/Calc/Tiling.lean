import Mathlib.Logic.ExistsUnique
import SourceModel.Proofs.Calc.Reading

/-!
# Nothing of a text is lost

The tokens of a text lie side by side from its first byte to its last one, and the parser puts each
of them at one leaf of the concrete tree. So the tree gives the text back, whatever faults there
are.
-/

namespace SourceModel.Calc

/-- Whether tokens lie side by side between two offsets, none of them empty. -/
def Tiles (lo hi : Nat) : List Token → Prop
  | [] => lo = hi
  | t :: ts => t.start = lo ∧ t.start < t.stop ∧ Tiles t.stop hi ts

section Tiles

variable {lo hi : Nat} {t : Token} {ts us : List Token}

theorem Tiles.le (h : Tiles lo hi ts) : lo ≤ hi := by
  induction ts generalizing lo with
  | nil => exact Nat.le_of_eq h
  | cons t ts ih =>
    have hle := ih h.2.2
    have hlt := h.2.1
    have hlo := h.1
    omega

theorem tiles_append : Tiles lo hi (ts ++ us) ↔ ∃ mid, Tiles lo mid ts ∧ Tiles mid hi us := by
  induction ts generalizing lo with
  | nil => simp [Tiles]
  | cons t ts ih => simp [Tiles, ih, and_assoc]

theorem Tiles.mem (h : Tiles lo hi ts) (ht : t ∈ ts) :
    lo ≤ t.start ∧ t.start < t.stop ∧ t.stop ≤ hi := by
  induction ts generalizing lo with
  | nil => cases ht
  | cons u ts ih =>
    obtain ⟨hstart, hlt, hrest⟩ := h
    have hle := hrest.le
    rcases List.mem_cons.1 ht with rfl | ht
    · exact ⟨Nat.le_of_eq hstart.symm, hlt, hle⟩
    · obtain ⟨hlo, hlt', hhi⟩ := ih hrest ht
      exact ⟨by omega, hlt', hhi⟩

theorem Tiles.pairwise (h : Tiles lo hi ts) : ts.Pairwise fun t u => t.stop ≤ u.start := by
  induction ts generalizing lo with
  | nil => exact .nil
  | cons t ts ih => exact .cons (fun _ hu => (h.2.2.mem hu).1) (ih h.2.2)

theorem Tiles.existsUnique_mem {offset : Nat} (h : Tiles lo hi ts) (hlo : lo ≤ offset)
    (hhi : offset < hi) : ∃! t, t ∈ ts ∧ t.start ≤ offset ∧ offset < t.stop := by
  induction ts generalizing lo with
  | nil =>
    have hend : lo = hi := h
    omega
  | cons t ts ih =>
    obtain ⟨hstart, hlt, hrest⟩ := h
    by_cases hoffset : offset < t.stop
    · refine ⟨t, ⟨List.mem_cons_self, by omega, hoffset⟩, ?_⟩
      rintro u ⟨hu, hle, -⟩
      rcases List.mem_cons.1 hu with rfl | hu
      · rfl
      · have hlater := (hrest.mem hu).1
        omega
    · obtain ⟨u, ⟨hu, hle, hlt'⟩, hunique⟩ := ih hrest (by omega)
      refine ⟨u, ⟨List.mem_cons_of_mem t hu, hle, hlt'⟩, ?_⟩
      rintro v ⟨hv, hv'⟩
      rcases List.mem_cons.1 hv with rfl | hv
      · exact absurd hv'.2 hoffset
      · exact hunique v ⟨hv, hv'⟩

end Tiles

/-! ## Tokens of a text -/

theorem tiles_lexFrom (offset : Nat) (cs : List Char) :
    Tiles offset (offset + Text.byteCount cs) (lexFrom offset cs).tokens := by
  fun_induction lexFrom offset cs with
  | case1 => rfl
  | case2 offset c cs l stop token later faults ih =>
    have hsplit : Text.byteCount l.tail + Text.byteCount l.rest = Text.byteCount cs := by
      rw [← Text.byteCount_append, lexeme_append]
    have hpos : offset < stop :=
      Nat.lt_add_of_pos_right (Text.byteCount_pos (List.cons_ne_nil c l.tail))
    have hend : stop + Text.byteCount l.rest = offset + Text.byteCount (c :: cs) := by
      simp only [stop, Text.byteCount_cons]
      omega
    rw [hend] at ih
    exact ⟨rfl, hpos, ih⟩

theorem tiles_lex (source : String) : Tiles 0 (Text.size source) (lex source).tokens := by
  have h := tiles_lexFrom 0 source.toList
  rwa [Nat.zero_add] at h

theorem stop_lexFrom (offset : Nat) (cs : List Char) :
    ∀ t ∈ (lexFrom offset cs).tokens, t.stop = t.start + Text.size t.text := by
  fun_induction lexFrom offset cs with
  | case1 => simp
  | case2 offset c cs l stop token later faults ih =>
    refine List.forall_mem_cons.2 ⟨?_, ih⟩
    simp only [token, stop, Text.size_ofList]

/-- The bounds of a token cut its text off the source. The induction is on the characters that are
still to be read; `front` is what stands before them. -/
theorem slice?_lexFrom {offset : Nat} {front cs : List Char} (h : Text.byteCount front = offset) :
    ∀ t ∈ (lexFrom offset cs).tokens,
      Text.slice? (String.ofList (front ++ cs)) t.start t.stop = some t.text := by
  fun_induction lexFrom offset cs generalizing front with
  | case1 => simp
  | case2 offset c cs l stop token later faults =>
    rename_i ih
    have hsplit : l.tail ++ l.rest = cs := lexeme_append c cs
    intro t ht
    rcases List.mem_cons.1 ht with rfl | ht
    · refine Text.slice?_eq_some_iff.2 ⟨front, l.rest, ?_, h, by rw [Text.size_ofList]⟩
      rw [String.toList_ofList, String.toList_ofList, List.cons_append, hsplit]
    · have hfront : Text.byteCount (front ++ c :: l.tail) = stop := by
        rw [Text.byteCount_append, h]
      have hslice := ih hfront t ht
      rwa [List.append_assoc, List.cons_append, hsplit] at hslice

theorem slice?_lex (source : String) :
    ∀ t ∈ (lex source).tokens, Text.slice? source t.start t.stop = some t.text := by
  have h := @slice?_lexFrom 0 [] source.toList rfl
  rwa [List.nil_append, String.ofList_toList] at h

theorem join_lexFrom (offset : Nat) (cs : List Char) :
    String.join ((lexFrom offset cs).tokens.map Token.text) = String.ofList cs := by
  fun_induction lexFrom offset cs with
  | case1 => rfl
  | case2 offset c cs l stop token later faults ih =>
    have hsplit : l.tail ++ l.rest = cs := lexeme_append c cs
    simp only [later] at ih ⊢
    rw [List.map_cons, String.join_cons, ih, ← String.ofList_append, List.cons_append, hsplit]

/-! ## Leaves of a tree -/

def Token.content (t : Token) : TokenKind × String := (t.kind, t.text)

private theorem leavesAmong_append (cs ds : List Cst) :
    Cst.leavesAmong (cs ++ ds) = Cst.leavesAmong cs ++ Cst.leavesAmong ds := by
  induction cs with
  | nil => rfl
  | cons c cs ih => simp only [List.cons_append, Cst.leavesAmong, ih, List.append_assoc]

private theorem leavesAmong_leaves (ts : List Token) :
    Cst.leavesAmong (ts.map Token.leaf) = ts.map Token.content := by
  induction ts with
  | nil => rfl
  | cons t ts ih =>
    simp only [List.map_cons, Cst.leavesAmong, Token.leaf, Cst.leaves, ih, List.singleton_append]
    rfl

/-- A reading puts the tokens that it reads at the leaves of its items, each once and in order. -/
theorem Reads.leavesAmong_eq {p : Phrase} {stop : Nat} {ts : List Token} {is : List Cst}
    {fs : List Diagnostic} (h : Reads p stop ts is fs) :
    Cst.leavesAmong is = ts.map Token.content := by
  have hleaf : ∀ t : Token, t.leaf.leaves = [t.content] := fun _ => rfl
  induction h <;>
    simp_all [leavesAmong_append, leavesAmong_leaves, Cst.leavesAmong, Cst.leaves]

private theorem leaves_parse (source : String) :
    (parse source).tree.leaves = (lex source).tokens.map Token.content :=
  (statements_reads (lex source).tokens).leavesAmong_eq

/-- The tokens of a text lie side by side over all of it, and their bounds, which split no
character, cut their texts off it. They are the leaves of the concrete tree, which has the text. -/
theorem parse_lossless (source : String) :
    Tiles 0 (Text.size source) (lex source).tokens ∧
      (∀ t ∈ (lex source).tokens, Text.slice? source t.start t.stop = some t.text) ∧
      (parse source).tree.leaves = (lex source).tokens.map Token.content ∧
      (parse source).tree.text = source := by
  refine ⟨tiles_lex source, slice?_lex source, leaves_parse source, ?_⟩
  have htexts : (Prod.snd ∘ Token.content) = Token.text := rfl
  rw [Cst.text, leaves_parse, List.map_map, htexts, lex, join_lexFrom, String.ofList_toList]

end SourceModel.Calc
