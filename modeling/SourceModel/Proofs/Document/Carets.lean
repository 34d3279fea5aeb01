import SourceModel.Document.Pair

/-!
# Carets

A caret stands between two characters, and what is found there is what is found from the character
before it or, if that is nothing, from the one behind it. Inside of a character nothing is found.
-/

namespace SourceModel

open Text (byteCount)

namespace Text

variable {text : String} {offset : Nat} {c : Char}

/-- Whether a text can be cut at an offset. -/
def IsBoundary (text : String) (offset : Nat) : Prop :=
  ∃ front back, text.toList = front ++ back ∧ byteCount front = offset

theorem isBoundary_iff : IsBoundary text offset ↔ (splitBytes? offset text.toList).isSome := by
  simp only [IsBoundary, Option.isSome_iff_exists, Prod.exists, splitBytes?_eq_some_iff]

instance (text : String) (offset : Nat) : Decidable (IsBoundary text offset) :=
  decidable_of_iff _ isBoundary_iff.symm

private theorem splitBytes?_eq_none (h : ¬ IsBoundary text offset) :
    splitBytes? offset text.toList = none := by
  rwa [isBoundary_iff, Option.not_isSome_iff_eq_none] at h

theorem charFrom?_eq_some_iff :
    charFrom? text offset = some c ↔
      ∃ front back, text.toList = front ++ c :: back ∧ byteCount front = offset := by
  simp only [charFrom?, Option.bind_eq_bind, Option.bind_eq_some_iff, Prod.exists,
    splitBytes?_eq_some_iff, List.head?_eq_some_iff]
  constructor
  · rintro ⟨front, _, ⟨htext, hfront⟩, back, rfl⟩
    exact ⟨front, back, htext, hfront⟩
  · rintro ⟨front, back, htext, hfront⟩
    exact ⟨front, _, ⟨htext, hfront⟩, back, rfl⟩

theorem append_inj_of_byteCount {front back front' back' : List Char}
    (h : front ++ back = front' ++ back') (hcount : byteCount front = byteCount front') :
    front = front' ∧ back = back' := by
  have hcut : splitBytes? (byteCount front) (front ++ back) = some (front, back) :=
    splitBytes?_eq_some_iff.2 ⟨rfl, rfl⟩
  rw [splitBytes?_eq_some_iff.2 ⟨h, hcount.symm⟩, Option.some.injEq, Prod.mk.injEq] at hcut
  exact ⟨hcut.1.symm, hcut.2.symm⟩

theorem le_of_isBoundary {front back : List Char} (htext : text.toList = front ++ c :: back)
    (h : IsBoundary text offset) (hlt : byteCount front < offset) :
    byteCount front + c.utf8Size ≤ offset := by
  obtain ⟨front', back', htext', rfl⟩ := h
  rw [htext] at htext'
  rcases List.append_eq_append_iff.1 htext' with ⟨middle, rfl, hback⟩ | ⟨middle, rfl, -⟩
  · cases middle with
    | nil => simp at hlt
    | cons c' middle =>
      obtain ⟨rfl, -⟩ := List.cons.inj hback
      simp only [byteCount_append, byteCount_cons]
      omega
  · rw [byteCount_append] at hlt
    omega

end Text

/-- What is found at the carets of a text, where `from?` tells what is found from the character that
starts at an offset. -/
structure FindsAtCarets {α : Type} (text : String) (from? found? : Nat → Option α) : Prop where
  start : found? 0 = from? 0
  behind : ∀ front c back, text.toList = front ++ c :: back →
    found? (byteCount front + c.utf8Size) =
      (from? (byteCount front)).or (from? (byteCount front + c.utf8Size))
  inside : ∀ caret, ¬ Text.IsBoundary text caret → found? caret = none

namespace CharPairMatcher

variable {m : CharPairMatcher} {d : TextDocument}

private theorem matchFrom_eq_none_of_not_isBoundary {offset : Nat}
    (h : ¬ Text.IsBoundary d.text offset) : m.matchFrom d offset = none := by
  simp [matchFrom, Text.splitBytes?_eq_none h]

theorem matchAt_zero : m.matchAt d 0 = m.matchFrom d 0 := by
  simp [matchAt, Text.charTo?, Text.splitBytes?]

theorem matchAt_behind {front back : List Char} {c : Char}
    (htext : d.text.toList = front ++ c :: back) :
    m.matchAt d (byteCount front + c.utf8Size) =
      (m.matchFrom d (byteCount front)).or (m.matchFrom d (byteCount front + c.utf8Size)) := by
  have hchar : Text.charTo? d.text (byteCount front + c.utf8Size) = some c :=
    Text.charTo?_eq_some_iff.2 ⟨front, back, htext, rfl⟩
  simp only [matchAt, hchar, Option.bind_eq_bind, Option.bind_some, Nat.add_sub_cancel]

theorem matchAt_eq_none_of_not_isBoundary {caret : Nat} (h : ¬ Text.IsBoundary d.text caret) :
    m.matchAt d caret = none := by
  simp [matchAt, Text.charTo?, Text.splitBytes?_eq_none h,
    matchFrom_eq_none_of_not_isBoundary h]

theorem findsAtCarets (m : CharPairMatcher) (d : TextDocument) :
    FindsAtCarets d.text (m.matchFrom d) (m.matchAt d) where
  start := matchAt_zero
  behind _ _ _ := matchAt_behind
  inside _ := matchAt_eq_none_of_not_isBoundary

end CharPairMatcher

end SourceModel
