import SourceModel.Proofs.Document.Partners
import SourceModel.Proofs.Document.SectionMatching
import Mathlib.Data.List.Find

/-!
# Carets between sections

A matcher by section looks on both sides of a caret, and so does each matcher that it asks. Where
partitions end between characters all of a character is of one type, and a matcher of another type
does not look at it. So what is found is what each of the two characters has under the brackets of
its own section.
-/

namespace SourceModel

open Text (byteCount)

/-- Whether the partitions of a name start and end between characters. -/
def TextDocument.CutsCharacters (d : TextDocument) (name : String) : Prop :=
  ∀ parts, d.partitionsOf? name = .ok parts →
    ∀ p ∈ parts, Text.IsBoundary d.text p.region.offset ∧ Text.IsBoundary d.text p.region.stop

namespace ContentSections

def type? (s : ContentSections) (d : TextDocument) (offset : Nat) : Option String :=
  (d.partitionAt? s.partitioning offset).toOption.map fun p => s.typeOf p.type

variable {s : ContentSections} {d : TextDocument} {type : String} {offset : Nat}

private theorem typeAt_eq (s : ContentSections) (d : TextDocument) (offset : Nat) :
    s.typeAt d offset = (s.type? d offset).getD errorType := by
  have hneg : ¬ (offset : Int) < 0 := by omega
  simp only [typeAt, type?, if_neg hneg, Int.toNat_natCast]
  cases d.partitionAt? s.partitioning offset <;> rfl

private theorem type?_inside {front back : List Char} {c : Char}
    (hd : d.CutsCharacters s.partitioning) (htext : d.text.toList = front ++ c :: back)
    (hlo : byteCount front ≤ offset) (hhi : offset < byteCount front + c.utf8Size) :
    s.type? d offset = s.type? d (byteCount front) := by
  have hsize : byteCount front + c.utf8Size ≤ d.size := by
    simp [TextDocument.size, Text.size, htext]
  have hlast : ¬ d.size < offset := by omega
  have hfirst : ¬ d.size < byteCount front := by omega
  unfold type? TextDocument.partitionAt?
  cases hparts : d.partitionsOf? s.partitioning with
  | error fault => rfl
  | ok parts =>
    have hfind : (parts.find? fun p => offset < p.region.stop) =
        parts.find? fun p => byteCount front < p.region.stop := by
      apply List.find?_congr
      intro p hp
      rw [decide_eq_decide]
      constructor
      · intro hlt
        omega
      · intro hlt
        have hle := Text.le_of_isBoundary htext (hd parts hparts p hp).2 hlt
        omega
    simp only [bind, Except.bind, if_neg hlast, if_neg hfirst, hfind]
    cases (parts.find? fun p => byteCount front < p.region.stop).or parts.getLast? <;> rfl

end ContentSections

namespace SectionPairMatcher

variable {sections : ContentSections} {pairs : List (String × List CharPair)} {d : TextDocument}
  {type : String} {offset caret : Nat}

/-- What is found from the character at an offset under the brackets of a section type. -/
def matchUnder (sections : ContentSections) (pairs : List (String × List CharPair))
    (d : TextDocument) (type : String) (offset : Nat) : Option PairMatch :=
  (fresh? sections pairs type).bind fun matcher => matcher.matchFrom d offset

def ownMatch (sections : ContentSections) (pairs : List (String × List CharPair))
    (d : TextDocument) (offset : Nat) : Option PairMatch :=
  (sections.type? d offset).bind fun type => matchUnder sections pairs d type offset

private theorem matchUnder_eq_none (h : sections.typeAt d offset ≠ type) :
    matchUnder sections pairs d type offset = none := by
  rw [matchUnder, fresh?]
  cases pairs.lookup type with
  | none => rfl
  | some brackets =>
    have hcounts : ({ pairs := brackets, sections, sectionType := type } :
        CharPairMatcher).counts d offset = false := by
      simp [CharPairMatcher.counts, h]
    exact CharPairMatcher.matchFrom_eq_none hcounts

section Rule

variable (hs : ∀ type, sections.typeOf type ≠ ContentSections.errorType)
include hs

private theorem ne_errorType_of_type? (h : sections.type? d offset = some type) :
    type ≠ ContentSections.errorType := by
  obtain ⟨p, -, rfl⟩ := Option.map_eq_some_iff.1 h
  exact hs p.type

private theorem matchIn_eq (offset caret : Nat) :
    matchIn sections pairs d offset caret =
      (sections.type? d offset).bind fun type =>
        (fresh? sections pairs type).bind fun matcher => matcher.matchAt d caret := by
  rw [matchIn, ContentSections.typeAt_eq]
  cases htype : sections.type? d offset with
  | none => rfl
  | some type => rw [Option.getD_some, if_neg (ne_errorType_of_type? hs htype), Option.bind_some]

/-- In the section of either character, each of them has what it has in its own section, or nothing
at all; so the order in which the two sections are asked does not matter. -/
theorem or_matchIn {front back : List Char} {c : Char} (hd : d.CutsCharacters sections.partitioning)
    (htext : d.text.toList = front ++ c :: back) (hcaret : caret = byteCount front + c.utf8Size) :
    (matchIn sections pairs d (caret - 1) caret).or (matchIn sections pairs d caret caret) =
      (ownMatch sections pairs d (byteCount front)).or (ownMatch sections pairs d caret) := by
  have hpos := c.utf8Size_pos
  have hbefore : sections.type? d (caret - 1) = sections.type? d (byteCount front) :=
    ContentSections.type?_inside hd htext (by omega) (by omega)
  have hmatch : ∀ type, ((fresh? sections pairs type).bind fun matcher => matcher.matchAt d caret) =
      (matchUnder sections pairs d type (byteCount front)).or
        (matchUnder sections pairs d type caret) := by
    intro type
    simp only [matchUnder, hcaret, CharPairMatcher.matchAt_behind htext]
    cases fresh? sections pairs type <;> rfl
  have helse : ∀ offset type, sections.type? d offset ≠ some type →
      type ≠ ContentSections.errorType → matchUnder sections pairs d type offset = none := by
    intro offset type hother htype
    apply matchUnder_eq_none
    rw [ContentSections.typeAt_eq]
    cases h : sections.type? d offset with
    | none => exact htype.symm
    | some other => simpa [h] using hother
  rw [matchIn_eq hs, matchIn_eq hs, hbefore]
  simp only [ownMatch, hmatch]
  cases hp : sections.type? d (byteCount front) with
  | none =>
    cases hc : sections.type? d caret with
    | none => rfl
    | some type =>
      have hne := ne_errorType_of_type? hs hc
      simp [helse (byteCount front) type (by simp [hp]) hne]
  | some type =>
    have hne := ne_errorType_of_type? hs hp
    cases hc : sections.type? d caret with
    | none => simp [helse caret type (by simp [hc]) hne]
    | some type' =>
      have hne' := ne_errorType_of_type? hs hc
      by_cases hsame : type = type'
      · subst hsame
        simp
      · simp [helse caret type (by simp [hc, Ne.symm hsame]) hne,
          helse (byteCount front) type' (by simp [hp, hsame]) hne']

end Rule

/-- Whatever has been asked before, the matcher finds at a caret what a fresh one would: the match
of the character before the caret under the brackets of its own section, or else that of the
character behind it under those of its own. -/
theorem findsAtCarets_after (sections : ContentSections) (pairs : List (String × List CharPair))
    (hs : ∀ type, sections.typeOf type ≠ ContentSections.errorType) (calls : List Call)
    (d : TextDocument) (hd : d.CutsCharacters sections.partitioning) :
    (∀ caret, (((ofPairs sections pairs).after calls).find d caret).1 =
        ((ofPairs sections pairs).find d caret).1) ∧
      FindsAtCarets d.text (ownMatch sections pairs d) fun caret =>
        (((ofPairs sections pairs).after calls).find d caret).1 := by
  have hfresh : Serves sections pairs (ofPairs sections pairs) := serves_ofPairs
  have hfind : ∀ caret, (((ofPairs sections pairs).after calls).find d caret).1 =
      (if caret = 0 then none else matchIn sections pairs d (caret - 1) caret).or
        (matchIn sections pairs d caret caret) := by
    intro caret
    exact ((hfresh.after calls).find caret).2
  have hnone : ∀ {offset caret}, ¬ Text.IsBoundary d.text caret →
      matchIn sections pairs d offset caret = none := by
    intro offset caret hcaret
    simp [matchIn_eq hs, CharPairMatcher.matchAt_eq_none_of_not_isBoundary hcaret]
  constructor
  · intro caret
    rw [hfind, (hfresh.find caret).2]
  · constructor
    · rw [hfind, if_pos rfl, Option.none_or, matchIn_eq hs]
      simp only [ownMatch, matchUnder, CharPairMatcher.matchAt_zero]
    · intro front c back htext
      have hpos := c.utf8Size_pos
      rw [hfind, if_neg (by omega)]
      exact or_matchIn hs hd htext rfl
    · intro caret hcaret
      rw [hfind, hnone hcaret, hnone hcaret]
      split <;> rfl

def bracketsByType : List (String × List CharPair) :=
  [("CODE", [⟨'(', ')'⟩]), ("TEXT", [⟨'«', '»'⟩])]

/-- At the border of two sections each character is matched in its own one. -/
theorem findsAtCarets_after_border :
    let sections := CharPairMatcher.codeBrackets.sections
    let d := CharPairMatcher.quotedBrackets
    let m := (ofPairs sections bracketsByType).after [.find d 1, .dispose, .find d 7, .find d 4]
    (∀ type, sections.typeOf type ≠ ContentSections.errorType) ∧
      d.CutsCharacters sections.partitioning ∧
      (m.find d 1).1 = some ⟨⟨0, 7, by decide⟩, .left⟩ ∧
      (m.find d 6).1 = some ⟨⟨1, 5, by decide⟩, .right⟩ ∧
      (m.find d 6).1 = (ownMatch sections bracketsByType d 4).or
        (ownMatch sections bracketsByType d 6) ∧
      (m.find d 5).1 = none := by
  intro sections d m
  have hs : ∀ type, sections.typeOf type ≠ ContentSections.errorType := by
    intro type
    by_cases htype : type = "TEXT"
    · subst htype
      decide
    · have hlookup : sections.typeOf type = "CODE" := by
        simp [sections, CharPairMatcher.codeBrackets, ContentSections.typeOf, List.lookup_cons,
          beq_false_of_ne htype]
      rw [hlookup]
      decide
  have hd : d.CutsCharacters sections.partitioning := by
    intro parts hparts p hp
    cases hparts
    revert p
    decide
  obtain ⟨-, hcarets⟩ := findsAtCarets_after sections bracketsByType hs
    [.find d 1, .dispose, .find d 7, .find d 4] d hd
  refine ⟨hs, hd, by decide, by decide, hcarets.behind ['(', '«', ')'] '»' [')'] (by decide), ?_⟩
  exact hcarets.inside _ (by decide)

end SectionPairMatcher

end SourceModel
