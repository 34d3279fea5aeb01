import SourceModel.Text.CodePoints

/-!
# Blank characters

The characters with the Unicode property `White_Space`.
-/

namespace SourceModel.Text

private def blankBounds : List Nat :=
  [9, 14, 32, 33, 133, 134, 160, 161, 5760, 5761, 8192, 8203, 8232, 8234, 8239, 8240, 8287, 8288,
   12288, 12289]

/-- Whether a character is white space: blanks, line breaks and the wide and narrow spaces. -/
def isBlank (c : Char) : Bool := inBounds blankBounds c

end SourceModel.Text
