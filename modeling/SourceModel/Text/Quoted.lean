import SourceModel.Text.Hex
import SourceModel.Text.Printable

/-!
# Quoted text

The quoted form of a text stands in double quotes and shows every character: what would not print
on its own is written as an escape.
-/

namespace SourceModel.Text

/-- How a character is written inside double quotes. -/
def quotedChar (c : Char) : String :=
  if c = '\x00' then "\\0"
  else if c = '\t' then "\\t"
  else if c = '\r' then "\\r"
  else if c = '\n' then "\\n"
  else if c = '"' then "\\\""
  else if c = '\\' then "\\\\"
  else if isJoining c || !isPrintable c then "\\u\x7b" ++ hex 1 c.toNat ++ "\x7d"
  else String.singleton c

def quoted (text : String) : String := "\"" ++ String.join (text.toList.map quotedChar) ++ "\""

end SourceModel.Text
