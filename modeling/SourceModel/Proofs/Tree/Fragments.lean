import SourceModel.Proofs.Tree.Lines

/-!
# Fragments of the source

A fragment that is too long is printed without its middle. What is kept of it is a front part and
a back part, which have as many characters together as may be kept, one half each; the front part
has the odd one. Both are counted before control characters are replaced by their numbers, so the
limit is one for characters of the source.
-/

namespace SourceModel

namespace Fragment

def digit (n : Nat) : Char :=
  if n < 10 then Char.ofNat ('0'.toNat + n) else Char.ofNat ('A'.toNat + (n - 10))

/-- Whether a character is printed in a given way: as its number in two digits if it is a control
character, and as itself if not. -/
structure Escapes (c : Char) (printed : List Char) : Prop where
  control : c.toNat < 0x20 →
    printed = ['<', '0', 'x', digit (c.toNat / 16), digit (c.toNat % 16), '>']
  plain : 0x20 ≤ c.toNat → printed = [c]

private theorem escapes_escape (c : Char) : Escapes c (escape c) where
  control h := by
    have hnumbers : ∀ n : Fin 0x20,
        (Text.hexUpper 2 n).toList = [digit (n.val / 16), digit (n.val % 16)] := by decide
    rw [escape, if_pos h, String.toList_append, String.toList_append, hnumbers ⟨c.toNat, h⟩]
    rfl
  plain h := by rw [escape, if_neg (Nat.not_lt.2 h)]

/-- The parts of a fragment of which at most `max` characters are kept: `front` and `back` are, and
`middle` is left out. -/
structure Elides (cs : List Char) (max : Nat) (front middle back : List Char) : Prop where
  parts : cs = front ++ (middle ++ back)
  kept : front.length + back.length = min max cs.length
  whole : cs.length ≤ max → middle = []
  halves : max < cs.length → back.length ≤ front.length ∧ front.length ≤ back.length + 1

section Parts

variable {cs : List Char} {max : Nat}

private theorem elides_of_le (h : cs.length ≤ max) : Elides cs max cs [] [] where
  parts := by rw [List.append_nil, List.append_nil]
  kept := by rw [List.length_nil, Nat.add_zero, Nat.min_eq_right h]
  whole _ := rfl
  halves hlt := absurd h (Nat.not_le.2 hlt)

private theorem elides_of_lt (h : max < cs.length) :
    Elides cs max (cs.take (max - max / 2))
      ((cs.drop (max - max / 2)).take (cs.length - max)) (cs.drop (cs.length - max / 2)) := by
  have hfront : (cs.take (max - max / 2)).length = max - max / 2 := by
    rw [List.length_take]
    omega
  have hback : (cs.drop (cs.length - max / 2)).length = max / 2 := by
    rw [List.length_drop]
    omega
  refine ⟨?_, by omega, fun hle => absurd hle (Nat.not_le.2 h), fun _ => by omega⟩
  have hdrop : cs.drop (cs.length - max / 2) =
      (cs.drop (max - max / 2)).drop (cs.length - max) := by
    rw [List.drop_drop]
    congr 1
    omega
  rw [hdrop, List.take_append_drop, List.take_append_drop]

end Parts

/-- A fragment is printed without control characters. It is the printed front part and the printed
back part of the text, with an ellipsis in between just if something is left out there. -/
theorem elides_render (text : String) (max : Nat) :
    (∀ c, Escapes c (escape c)) ∧ (∀ c ∈ (render text max).toList, 0x20 ≤ c.toNat) ∧
      ∃ front middle back, Elides text.toList max front middle back ∧
        (render text max).toList = front.flatMap escape ++
          (if middle = [] then [] else ['.', '.', '.']) ++ back.flatMap escape := by
  refine ⟨escapes_escape, fun c hc => ?_, ?_⟩
  · rw [render, String.toList_ofList] at hc
    exact space_le_of_mem_renderChars hc
  · rw [render, String.toList_ofList, renderChars]
    split
    · rename_i hle
      refine ⟨_, _, _, elides_of_le hle, ?_⟩
      simp
    · rename_i hlt
      have helides := elides_of_lt (Nat.lt_of_not_le hlt)
      have hmiddle : (text.toList.drop (max - max / 2)).take (text.toList.length - max) ≠ [] := by
        rw [← List.length_pos_iff, List.length_take, List.length_drop]
        omega
      exact ⟨_, _, _, helides, by rw [if_neg hmiddle]; rfl⟩

/-- Of an odd number of characters the front part has one more. -/
example : render "é\t34567" 3 = "é<0x09>...7" := by decide

end Fragment

end SourceModel
