import SourceModel.Config.Setting
import SourceModel.Text.Reading

/-!
# Scalars in TOML without quotes

Flags, numbers, dates and times are recognised by their form. A date or a time is a table of its own
to whoever wants a setting, so no field of a configuration takes one.
-/

namespace SourceModel.Toml

open Text Reading

/-- The digits of a number in which single underscores may stand between digits. -/
def joinedDigits? (base : Nat) (cs : List Char) : Option (List Char) :=
  let groups := ((String.ofList cs).splitOn "_").map String.toList
  if groups.all fun group => !group.isEmpty && group.all fun c => (digitValue? base c).isSome then
    some groups.flatten
  else none

/-- A whole number without a sign and without leading zeros. -/
def whole? (cs : List Char) : Option Nat := do
  let digits ← joinedDigits? 10 cs
  guard (digits.length = 1 || digits.head? != some '0')
  natOfDigits? 10 digits

/-- Splits a sign off, true for a minus. -/
def splitSign : List Char → Option Bool × List Char
  | '-' :: cs => (some true, cs)
  | '+' :: cs => (some false, cs)
  | cs => (none, cs)

/-- A whole number; in other bases than ten it has no sign. -/
def integer? : List Char → Option Setting
  | '0' :: 'x' :: cs => do return .ofNumber (← natOfDigits? 16 (← joinedDigits? 16 cs))
  | '0' :: 'o' :: cs => do return .ofNumber (← natOfDigits? 8 (← joinedDigits? 8 cs))
  | '0' :: 'b' :: cs => do return .ofNumber (← natOfDigits? 2 (← joinedDigits? 2 cs))
  | cs => do
    let (sign?, digits) := splitSign cs
    let n ← whole? digits
    return if sign? = some true && n != 0 then .unreadable else .ofNumber n

/-- Whether the characters are a number with a fraction or an exponent, or a name of a number that
is not finite. -/
def isFractional (cs : List Char) : Bool :=
  let unsigned := (splitSign cs).2
  if unsigned = "inf".toList || unsigned = "nan".toList then true
  else
    let significand := unsigned.takeWhile fun c => c != 'e' && c != 'E'
    let exponent := unsigned.drop significand.length
    let front := significand.takeWhile (· != '.')
    let fraction := significand.drop front.length
    let areDigits (cs : List Char) : Bool := (joinedDigits? 10 cs).isSome
    (!exponent.isEmpty || !fraction.isEmpty) && (whole? front).isSome &&
      (fraction.isEmpty || areDigits (fraction.drop 1)) &&
      (exponent.isEmpty || areDigits (splitSign (exponent.drop 1)).2)

/-- A number of exactly `width` digits. -/
def fixedDigits (width : Nat) : Reading Nat := do
  let some n := natOfDigits? 10 (← take width) | failure
  return n

def daysIn (year month : Nat) : Nat :=
  if month = 2 then if year % 4 = 0 ∧ (year % 100 ≠ 0 ∨ year % 400 = 0) then 29 else 28
  else if month = 4 ∨ month = 6 ∨ month = 9 ∨ month = 11 then 30
  else 31

/-- A day of the calendar. -/
def date : Reading Unit := do
  let year ← fixedDigits 4
  expect "-"
  let month ← fixedDigits 2
  expect "-"
  let day ← fixedDigits 2
  guard (1 ≤ month ∧ month ≤ 12 ∧ 1 ≤ day ∧ day ≤ daysIn year month)

/-- A time of the day; seconds and their fractions may be left out. -/
def time : Reading Unit := do
  guard ((← fixedDigits 2) < 24)
  expect ":"
  guard ((← fixedDigits 2) < 60)
  if ← accept ":" then
    guard ((← fixedDigits 2) ≤ 60)
    if ← accept "." then discard (span1 Char.isDigit)

/-- A distance from universal time, which may be left out. -/
def zone : Reading Unit := do
  if (← peek).isSome then
    let c ← next
    if c = '+' || c = '-' then
      guard ((← fixedDigits 2) ≤ 24)
      expect ":"
      guard ((← fixedDigits 2) < 60)
    else guard (c = 'Z' || c = 'z')

/-- A day with a time behind it. -/
def moment : Reading Unit := do
  date
  let c ← next
  guard (c = 'T' || c = 't' || c = ' ')
  time
  zone

/-- Whether the characters are a day of the calendar. -/
def isDate (cs : List Char) : Bool := (whole date (String.ofList cs)).isSome

/-- Whether the characters are a day, a time or both. -/
def isMoment (cs : List Char) : Bool :=
  let text := String.ofList cs
  isDate cs || (whole time text).isSome || (whole moment text).isSome

/-- The scalar that characters without quotes spell. -/
def scalar? (cs : List Char) : Option Setting :=
  if cs = "true".toList then some (.ofFlag true)
  else if cs = "false".toList then some (.ofFlag false)
  else if isMoment cs then some (.table [(some "date", .ofText (String.ofList cs))])
  else if isFractional cs then some .unreadable
  else integer? cs

end SourceModel.Toml
