import SourceModel.Calc.Template
import SourceModel.Proofs.Tree.Building
import SourceModel.Proofs.Tree.Foreign

/-!
# Trees of templates are built

The words of a template lie one behind the other between its marks, so its tree is refused only if
there are too many words.
-/

namespace SourceModel.Calc

open SourceModel.Tree (NestedIn sizes)
open TreeBuilder (within within_bind within_of_le ok_bind maxNodes)

/-! ## Words -/

/-- Words lie one behind the other between two offsets. -/
def WordsIn (lo hi : Nat) : List (Nat × List Char) → Prop
  | [] => lo ≤ hi
  | (pos, word) :: later => lo ≤ pos ∧ WordsIn (pos + Text.byteCount word) hi later

private theorem WordsIn.le {lo hi : Nat} {words : List (Nat × List Char)}
    (h : WordsIn lo hi words) : lo ≤ hi := by
  induction words generalizing lo with
  | nil => exact h
  | cons w words ih =>
    have hlo := h.1
    have hle := ih h.2
    omega

private theorem WordsIn.mono {lo lo' hi : Nat} {words : List (Nat × List Char)}
    (h : WordsIn lo hi words) (hle : lo' ≤ lo) : WordsIn lo' hi words := by
  cases words with
  | nil => exact Nat.le_trans hle h
  | cons w words => exact ⟨Nat.le_trans hle h.1, h.2⟩

theorem wordsIn_wordsFrom (pos : Nat) (cs : List Char) :
    WordsIn pos (pos + Text.byteCount cs) (wordsFrom pos cs) := by
  fun_induction wordsFrom pos cs with
  | case1 => exact Nat.le_refl _
  | case2 pos c cs next hblank ih =>
    rw [Text.byteCount_cons, ← Nat.add_assoc]
    exact ih.mono (Nat.le_add_right _ _)
  | case3 pos c cs next hblank hnil ih =>
    rw [hnil] at ih
    rw [Text.byteCount_cons, ← Nat.add_assoc]
    exact ⟨Nat.le_refl _, ih⟩
  | case4 pos c cs next hblank word later hcons ih =>
    rw [hcons] at ih
    rw [Text.byteCount_cons, ← Nat.add_assoc]
    refine ⟨Nat.le_refl _, ?_⟩
    rw [Text.byteCount_cons, ← Nat.add_assoc]
    exact ih.2
  | case5 pos c cs next hblank start word later hcons hne ih =>
    rw [hcons] at ih
    rw [Text.byteCount_cons, ← Nat.add_assoc]
    exact ⟨Nat.le_refl _, ih⟩

private theorem length_wordsFrom_le (pos : Nat) (cs : List Char) :
    (wordsFrom pos cs).length ≤ cs.length := by
  fun_induction wordsFrom pos cs with
  | case1 => exact Nat.le_refl _
  | case2 pos c cs next hblank ih => exact Nat.le_succ_of_le ih
  | case3 pos c cs next hblank hnil ih => simp
  | case4 pos c cs next hblank word later hcons ih =>
    rw [hcons] at ih
    exact Nat.le_succ_of_le ih
  | case5 pos c cs next hblank start word later hcons hne ih =>
    rw [hcons] at ih
    exact Nat.succ_le_succ ih

/-! ## Trees -/

def wordLeaf (w : Nat × List Char) : Tree :=
  .leaf
    { kind := Kind.templateWord
      region := (Region.ofBounds? w.1 (w.1 + Text.byteCount w.2)).toOption.getD default
      text := some (String.ofList w.2) }

def addWord (b : TreeBuilder) (w : Nat × List Char) : Except Fault TreeBuilder := do
  let region ← Region.ofBounds? w.1 (w.1 + Text.byteCount w.2)
  let (_, b) ← TreeBuilder.textLeaf b Kind.templateWord region (String.ofList w.2)
  return b

theorem wordLeaf_region (pos : Nat) (word : List Char) (h : pos + Text.byteCount word < naOffset) :
    Region.ofBounds? pos (pos + Text.byteCount word) = .ok (wordLeaf (pos, word)).region := by
  have hr : Region.ofBounds? pos (pos + Text.byteCount word) = .ok ⟨pos, _, h⟩ :=
    Region.ofBounds?_eq_ok_iff.2 ⟨rfl, rfl⟩
  simp [wordLeaf, Tree.leaf, Tree.region, Tree.data, hr, Except.toOption]

private theorem nested_wordLeaf (w : Nat × List Char) : (wordLeaf w).Nested := Tree.nested_leaf _

private theorem nestedIn_words {lo hi : Nat} {words : List (Nat × List Char)}
    (h : WordsIn lo hi words) (hhi : hi < naOffset) : NestedIn lo hi (words.map wordLeaf) := by
  induction words generalizing lo with
  | nil => exact h
  | cons w words ih =>
    have hle := h.2.le
    obtain ⟨ho, ht⟩ := Region.ofBounds?_eq_ok_iff.1 (wordLeaf_region w.1 w.2 (by omega))
    refine ⟨?_, nested_wordLeaf w, ?_⟩
    · rw [ho]
      exact h.1
    · rw [ht]
      exact ih h.2

private theorem foldlM_addWord {b : TreeBuilder} {lo hi : Nat} {words : List (Nat × List Char)}
    (hb : b.Accepts lo) (h : WordsIn lo hi words) (hhi : hi < naOffset) :
    words.foldlM addWord b = within (b.size + words.length) (b.addAll (words.map wordLeaf)) := by
  induction words generalizing b lo with
  | nil =>
    rw [List.map_nil, TreeBuilder.addAll_nil]
    exact (within_of_le hb.size_le).symm
  | cons w words ih =>
    obtain ⟨pos, word⟩ := w
    have hle := h.2.le
    have hr := wordLeaf_region pos word (by omega)
    obtain ⟨ho, ht⟩ := Region.ofBounds?_eq_ok_iff.1 hr
    have hstep : addWord b (pos, word) = within (b.size + 1) (b.addAll [wordLeaf (pos, word)]) := by
      have hlo : lo ≤ (wordLeaf (pos, word)).region.offset := by
        rw [ho]
        exact h.1
      simp only [addWord, hr, TreeBuilder.textLeaf]
      change (b.addLeaf (wordLeaf (pos, word)).data >>= fun p => pure p.2) = _
      rw [TreeBuilder.addLeaf_eq hb hlo]
      exact within_bind (Nat.le_refl _) fun hn => (within_of_le hn).symm
    have hnest : NestedIn lo (pos + Text.byteCount word) [wordLeaf (pos, word)] :=
      ⟨by rw [ho]; exact h.1, nested_wordLeaf _, Nat.le_of_eq ht⟩
    rw [List.foldlM_cons, hstep]
    refine within_bind (by simp only [List.length_cons]; omega) fun hn => ?_
    have hsize : (b.addAll [wordLeaf (pos, word)]).size = b.size + 1 :=
      TreeBuilder.size_addAll hb.openNodes_ne_nil
    have hall : b.addAll ((⟨pos, word⟩ :: words).map wordLeaf) =
        (b.addAll [wordLeaf (pos, word)]).addAll (words.map wordLeaf) := by
      rw [← TreeBuilder.addAll_append]
      rfl
    rw [ih (hb.addAll hnest hn) h.2, hsize, hall, List.length_cons, Nat.add_assoc, Nat.add_comm 1]

def wordsTree (region : Region) (words : List (Nat × List Char)) : Tree :=
  .node
    { kind := Kind.templateBody, region, status := TreeBuilder.statusOver (words.map wordLeaf) }
    (words.map wordLeaf) none

def buildWords (start stop : Nat) (words : List (Nat × List Char)) : Except Fault Ast := do
  let (_, opened) ← (TreeBuilder.new templateLanguage).startNode Kind.templateBody start
  let filled ← words.foldlM addWord opened
  let (closed, b) := filled.finishNode stop
  let _ ← closed
  b.finish

private theorem buildWords_eq (region : Region) {words : List (Nat × List Char)}
    (h : WordsIn region.offset region.stop words) :
    buildWords region.offset region.stop words =
      within (1 + words.length) ⟨templateLanguage, wordsTree region words⟩ := by
  have hstop := region.stop_lt_naOffset
  have hstart : (TreeBuilder.new templateLanguage).startNode Kind.templateBody region.offset = _ :=
    TreeBuilder.startNode_new templateLanguage Kind.templateBody region.opening rfl rfl
  have haccepts := TreeBuilder.accepts_root templateLanguage
    { kind := Kind.templateBody, region := region.opening } rfl
  have hfold := foldlM_addWord haccepts h hstop
  have hroot := TreeBuilder.finishNode_root templateLanguage Kind.templateBody region
    region.opening (nestedIn_words h hstop) rfl
  rw [buildWords, hstart, ok_bind]
  change (words.foldlM addWord ((TreeBuilder.new templateLanguage).opened _) >>= _) = _
  rw [hfold, TreeBuilder.size_root]
  refine within_bind (Nat.le_refl _) fun hn => ?_
  rw [hroot]
  exact (within_of_le hn).symm

/-- The words between the marks of a template that starts at `offset`. -/
def chunkWords (offset : Nat) (chunk : String) : List (Nat × List Char) :=
  wordsFrom (offset + (templateInterior chunk).1)
    ((Text.slice? chunk (templateInterior chunk).1 (templateInterior chunk).2).getD "").toList

private theorem templateInterior_le (chunk : String) :
    (templateInterior chunk).1 ≤ (templateInterior chunk).2 ∧
      (templateInterior chunk).2 ≤ Text.size chunk := by
  unfold templateInterior
  by_cases hc : isClosedTemplate chunk = true
  · have hsize : 4 ≤ Text.size chunk := by
      simp only [isClosedTemplate, Bool.and_eq_true, decide_eq_true_eq] at hc
      exact hc.2
    simp only [hc, if_true]
    omega
  · simp only [hc, Bool.false_eq_true, if_false]
    omega

private theorem size_slice?_le {text middle : String} {start stop : Nat}
    (h : Text.slice? text start stop = some middle) : start + Text.size middle = stop := by
  obtain ⟨_, _, -, -, hstop⟩ := Text.slice?_eq_some_iff.1 h
  exact hstop

private theorem wordsIn_chunkWords (offset : Nat) (chunk : String) :
    WordsIn (offset + (templateInterior chunk).1) (offset + (templateInterior chunk).2)
      (chunkWords offset chunk) := by
  have hle := (templateInterior_le chunk).1
  unfold chunkWords
  cases hs : Text.slice? chunk (templateInterior chunk).1 (templateInterior chunk).2 with
  | none => exact Nat.add_le_add_left hle offset
  | some middle =>
    have hsize := size_slice?_le hs
    have hwords := wordsIn_wordsFrom (offset + (templateInterior chunk).1) middle.toList
    rwa [Nat.add_assoc, show _ + Text.byteCount middle.toList = _ from hsize] at hwords

theorem length_chunkWords_le (offset : Nat) (chunk : String) :
    (chunkWords offset chunk).length ≤ Text.size chunk := by
  have hle := templateInterior_le chunk
  refine Nat.le_trans (length_wordsFrom_le _ _) ?_
  cases hs : Text.slice? chunk (templateInterior chunk).1 (templateInterior chunk).2 with
  | none => exact Nat.zero_le _
  | some middle =>
    have hsize := size_slice?_le hs
    have hlen := Text.length_le_byteCount middle.toList
    have hbytes : Text.byteCount middle.toList = Text.size middle := rfl
    simp only [Option.getD_some]
    omega

def chunkRegion (offset : Nat) (chunk : String) (h : offset + Text.size chunk < naOffset) :
    Region where
  offset := offset + (templateInterior chunk).1
  length := (templateInterior chunk).2 - (templateInterior chunk).1
  stop_lt := by
    have := templateInterior_le chunk
    omega

theorem chunkRegion_offset {offset : Nat} {chunk : String}
    (h : offset + Text.size chunk < naOffset) :
    (chunkRegion offset chunk h).offset = offset + (templateInterior chunk).1 := rfl

theorem chunkRegion_stop {offset : Nat} {chunk : String} (h : offset + Text.size chunk < naOffset) :
    (chunkRegion offset chunk h).stop = offset + (templateInterior chunk).2 := by
  have := templateInterior_le chunk
  simp only [chunkRegion, Region.stop_mk]
  omega

/-- The tree that covers what stands between the marks. -/
def chunkTree (offset : Nat) (chunk : String) (h : offset + Text.size chunk < naOffset) : Tree :=
  wordsTree (chunkRegion offset chunk h) (chunkWords offset chunk)

theorem region_chunkTree {offset : Nat} {chunk : String}
    (h : offset + Text.size chunk < naOffset) :
    (chunkTree offset chunk h).region = chunkRegion offset chunk h := rfl

theorem children_chunkTree {offset : Nat} {chunk : String}
    (h : offset + Text.size chunk < naOffset) :
    (chunkTree offset chunk h).children = (chunkWords offset chunk).map wordLeaf := rfl

/-- The tree of a template is refused only if there are too many words. -/
theorem templateTree_eq {offset : Nat} {chunk : String} (h : offset + Text.size chunk < naOffset) :
    templateTree offset chunk =
      within (1 + (chunkWords offset chunk).length)
        ⟨templateLanguage, chunkTree offset chunk h⟩ := by
  have hbuild := buildWords_eq (chunkRegion offset chunk h)
    (by rw [chunkRegion_stop h]; exact wordsIn_chunkWords offset chunk)
  rw [chunkRegion_stop h] at hbuild
  exact hbuild

theorem problems_chunkTree {offset : Nat} {chunk : String}
    (h : offset + Text.size chunk < naOffset) : (chunkTree offset chunk h).problems = [] := by
  have hwords : ∀ words : List (Nat × List Char), Tree.problemsAmong (words.map wordLeaf) = [] := by
    intro words
    induction words with
    | nil => rfl
    | cons w words ih =>
      rw [List.map_cons, Tree.problemsAmong, ih]
      rfl
  have hstatus : ∀ ts : List Tree, (TreeBuilder.statusOver ts).isError = false := by
    intro ts
    unfold TreeBuilder.statusOver
    split <;> rfl
  simp [chunkTree, wordsTree, Tree.problems, hwords, hstatus]

theorem chunkTree_region {offset : Nat} {chunk : String} (h : offset + Text.size chunk < naOffset) :
    offset ≤ (chunkTree offset chunk h).region.offset ∧
      (chunkTree offset chunk h).region.stop ≤ offset + Text.size chunk := by
  have hle := templateInterior_le chunk
  have hstop := chunkRegion_stop h
  refine ⟨Nat.le_add_right _ _, ?_⟩
  change (chunkRegion offset chunk h).stop ≤ _
  omega

end SourceModel.Calc
