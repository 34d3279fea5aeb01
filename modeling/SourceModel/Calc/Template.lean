import SourceModel.Calc.Kinds
import SourceModel.Text.Blank
import SourceModel.Tree.Builder

/-!
# Trees of templates

The tree of a template is a body that covers what stands between the marks, with one leaf for each
word. A word is a longest run of characters that are not blank.
-/

namespace SourceModel.Calc

/-- The words of a text, each with the position of its first character. The text starts at `pos`.
A character joins the word that starts right behind it. -/
def wordsFrom (pos : Nat) : List Char → List (Nat × List Char)
  | [] => []
  | c :: cs =>
    let next := pos + c.utf8Size
    if Text.isBlank c then wordsFrom next cs
    else
      match wordsFrom next cs with
      | [] => [(pos, [c])]
      | (start, word) :: later =>
        if start = next then (pos, c :: word) :: later else (pos, [c]) :: (start, word) :: later

/-- Whether the characters of a template end with the closing mark. -/
def endsWithMark (chunk : String) : Bool := ['%', '}'].isSuffixOf chunk.toList

def isClosedTemplate (chunk : String) : Bool := endsWithMark chunk && 4 ≤ Text.size chunk

/-- The bounds, within a template, of what stands between its marks. -/
def templateInterior (chunk : String) : Nat × Nat :=
  let size := Text.size chunk
  (min size 2, if isClosedTemplate chunk then size - 2 else size)

def templateTree (offset : Nat) (chunk : String) : Except Fault Ast := do
  let (start, stop) := templateInterior chunk
  let interior := (Text.slice? chunk start stop).getD ""
  let (_, opened) ←
    TreeBuilder.startNode ⟨templateLanguage, [], none⟩ Kind.templateBody (offset + start)
  let filled ← (wordsFrom (offset + start) interior.toList).foldlM
    (fun b (pos, word) => do
      let region ← Region.ofBounds? pos (pos + Text.byteCount word)
      let (_, b) ← TreeBuilder.textLeaf b Kind.templateWord region (String.ofList word)
      return b)
    opened
  let (closed, b) := filled.finishNode (offset + stop)
  let _ ← closed
  b.finish

end SourceModel.Calc
