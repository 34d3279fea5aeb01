import SourceModel.Config.Setting
import SourceModel.Text.Reading
import SourceModel.Word

/-!
# Scalars in YAML

Every scalar can be read as a text. Only one without quotes can also be a flag, a size, or the sign
that nothing is set.
-/

namespace SourceModel.Yaml

open Text

/-- A size in a base, without a sign. -/
def sizeIn? (base : Nat) (digits : List Char) : Option Nat :=
  (natOfDigits? base digits).filter (· < wordLimit)

/-- A size in base ten, which has no leading zeros. -/
def decimal? (cs : List Char) : Option Nat :=
  if 1 < cs.length && cs.head? = some '0' then none else sizeIn? 10 cs

/-- The size that characters without quotes spell; a plus may stand in front. -/
def size? (cs : List Char) : Option Nat :=
  match if cs.head? = some '+' then cs.drop 1 else cs with
  | '0' :: 'x' :: digits => sizeIn? 16 digits
  | '0' :: 'o' :: digits => sizeIn? 8 digits
  | '0' :: 'b' :: digits => sizeIn? 2 digits
  | digits => decimal? digits

/-- The flag that a word without quotes spells. -/
def flag? (word : String) : Option Bool :=
  if word ∈ ["true", "True", "TRUE"] then some true
  else if word ∈ ["false", "False", "FALSE"] then some false
  else none

/-- Whether a word without quotes says that nothing is set. -/
def isUnsetWord (word : String) : Bool := word ∈ ["", "~", "null", "Null", "NULL"]

/-- A scalar. With a tag it sets something in any case. -/
def scalar (text : String) (isPlain isTagged : Bool) : Setting :=
  if isPlain then
    .scalar
      { isUnset := isUnsetWord text && !isTagged
        text? := some text
        flag? := flag? text
        size? := size? text.toList }
  else .ofText text

end SourceModel.Yaml
