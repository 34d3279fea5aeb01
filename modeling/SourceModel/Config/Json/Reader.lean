import SourceModel.Config.Setting
import SourceModel.Text.Reading

/-!
# Settings in JSON

The grammar is the strict one: no comments, no trailing commas, no byte order mark. An escape in a
string may name half of a surrogate pair; a string in which such a half stands alone is no text,
which is an error only where a text is wanted.
-/

namespace SourceModel.JsonText

open Text Reading

/-- Skips blanks and line breaks. -/
def blanks : Reading Unit := discard (span fun c => c = ' ' || c = '\t' || c = '\n' || c = '\r')

def escaped? : Char → Option Char
  | '"' => some '"'
  | '\\' => some '\\'
  | '/' => some '/'
  | 'b' => some '\x08'
  | 'f' => some '\x0c'
  | 'n' => some '\n'
  | 'r' => some '\r'
  | 't' => some '\t'
  | _ => none

/-- The numbers of the characters up to the closing quote, and what follows it. -/
def codesUntilQuote? : List Char → Option (List Nat × List Char)
  | [] => none
  | '"' :: cs => some ([], cs)
  | '\\' :: 'u' :: a :: b :: c :: d :: cs => do
    let code ← natOfDigits? 16 [a, b, c, d]
    let (codes, rest) ← codesUntilQuote? cs
    return (code :: codes, rest)
  | '\\' :: e :: cs => do
    let c ← escaped? e
    let (codes, rest) ← codesUntilQuote? cs
    return (c.toNat :: codes, rest)
  | c :: cs => do
    guard (' ' ≤ c)
    let (codes, rest) ← codesUntilQuote? cs
    return (c.toNat :: codes, rest)

/-- The characters with the given numbers. Two halves of a surrogate pair make one character; a
half that stands alone makes none. -/
def charsOfCodes? : List Nat → Option (List Char)
  | [] => some []
  | high :: low :: codes =>
    if 0xD800 ≤ high ∧ high < 0xDC00 ∧ 0xDC00 ≤ low ∧ low < 0xE000 then do
      let c ← charOfNat? (0x10000 + (high - 0xD800) * 0x400 + (low - 0xDC00))
      return c :: (← charsOfCodes? codes)
    else do return (← charOfNat? high) :: (← charsOfCodes? (low :: codes))
  | [code] => do return [← charOfNat? code]

/-- A string, none if its characters do not make up a text. -/
def string : Reading (Option String) := do
  expect "\""
  let codes ← StateT.mk codesUntilQuote?
  return (charsOfCodes? codes).map String.ofList

/-- A number. It is a size if it is written with digits only. -/
def number : Reading Setting := do
  let isNegative ← accept "-"
  let digits ← span1 Char.isDigit
  guard (digits.length = 1 || digits.head? != some '0')
  let hasFraction ← accept "."
  if hasFraction then discard (span1 Char.isDigit)
  let hasExponent ← if ← accept "e" then pure true else accept "E"
  if hasExponent then
    if !(← accept "+") then discard (accept "-")
    discard (span1 Char.isDigit)
  if isNegative || hasFraction || hasExponent then return .unreadable
  return (natOfDigits? 10 digits).elim .unreadable .ofNumber

mutual

def value : Nat → Reading Setting
  | 0 => failure
  | fuel + 1 => do
    match ← peek with
    | some '"' => return .scalar { text? := ← string }
    | some '[' =>
      expect "["
      blanks
      if ← accept "]" then return .list []
      return .list (← items fuel)
    | some '\x7b' =>
      expect "\x7b"
      blanks
      if ← accept "\x7d" then return .table []
      return .table (← members fuel)
    | some 't' =>
      expect "true"
      return .ofFlag true
    | some 'f' =>
      expect "false"
      return .ofFlag false
    | some 'n' =>
      expect "null"
      return .unset
    | _ => number

/-- The elements of an array and its closing bracket. -/
def items : Nat → Reading (List Setting)
  | 0 => failure
  | fuel + 1 => do
    blanks
    let item ← value fuel
    blanks
    if ← accept "]" then return [item]
    expect ","
    return item :: (← items fuel)

/-- The fields of an object and its closing brace. -/
def members : Nat → Reading (List (Option String × Setting))
  | 0 => failure
  | fuel + 1 => do
    blanks
    let key ← string
    blanks
    expect ":"
    blanks
    let v ← value fuel
    blanks
    if ← accept "\x7d" then return [(key, v)]
    expect ","
    return (key, v) :: (← members fuel)

end

def read? (text : String) : Option Setting :=
  whole (do
    blanks
    let v ← value (2 * text.length + 2)
    blanks
    return v) text

end SourceModel.JsonText
