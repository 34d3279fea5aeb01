import SourceModel.Text.Hex

/-!
# JSON values in print

A value is printed over several lines. Every element of an array and every field of an object has a
line of its own, two blanks further in; empty arrays and objects have no lines inside.
-/

namespace SourceModel

/-- A value that can be printed as JSON. Fields are printed in their order. -/
inductive Json where
  | null
  | flag (b : Bool)
  | number (n : Nat)
  | text (s : String)
  | array (items : List Json)
  | object (fields : List (String × Json))

namespace Json

/-- How a character is written inside double quotes. -/
def escape (c : Char) : String :=
  if c = '"' then "\\\""
  else if c = '\\' then "\\\\"
  else if c = '\x08' then "\\b"
  else if c = '\x0c' then "\\f"
  else if c = '\n' then "\\n"
  else if c = '\r' then "\\r"
  else if c = '\t' then "\\t"
  else if c < ' ' then "\\u" ++ Text.hex 4 c.toNat
  else String.singleton c

/-- A text in double quotes. -/
def quote (s : String) : String := "\"" ++ String.join (s.toList.map escape) ++ "\""

/-- A line break, and `depth` units of indentation. -/
def newline (depth : Nat) : String := String.ofList ('\n' :: List.replicate (2 * depth) ' ')

/-- Printed elements between brackets that have the given depth. -/
def enclose (depth : Nat) (opening closing : String) (lines : List String) : String :=
  if lines.isEmpty then opening ++ closing
  else
    opening ++ newline (depth + 1) ++ ("," ++ newline (depth + 1)).intercalate lines ++
      newline depth ++ closing

mutual

/-- A value whose last line has the given depth. -/
def prettyAt (depth : Nat) : Json → String
  | null => "null"
  | flag b => toString b
  | number n => toString n
  | text s => quote s
  | array items => enclose depth "[" "]" (prettyItems (depth + 1) items)
  | object fields => enclose depth "\x7b" "\x7d" (prettyFields (depth + 1) fields)

/-- The elements of an array. -/
def prettyItems (depth : Nat) : List Json → List String
  | [] => []
  | item :: items => prettyAt depth item :: prettyItems depth items

def prettyFields (depth : Nat) : List (String × Json) → List String
  | [] => []
  | (key, value) :: fields =>
    (quote key ++ ": " ++ prettyAt depth value) :: prettyFields depth fields

end

/-- Printed form of a value. -/
def pretty (j : Json) : String := j.prettyAt 0

/-- A field that is left out unless there is a value. -/
def optionalField {α : Type} (key : String) (encode : α → Json) (a? : Option α) :
    List (String × Json) := a?.toList.map fun a => (key, encode a)

end Json

end SourceModel
