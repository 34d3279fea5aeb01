/-!
# Reading a text from the front

A reading takes characters off the front of what is left of a text, or refuses the text. Readers of
formats are built from these steps.
-/

namespace SourceModel.Text

/-- A step that takes characters off the front of a text. -/
abbrev Reading := StateT (List Char) Option

namespace Reading

variable {α : Type}

/-- The next character, which stays in front. -/
def peek : Reading (Option Char) := return (← get).head?

/-- Whether the text goes on with `word`, which stays in front. -/
def isAhead (word : String) : Reading Bool := return word.toList.isPrefixOf (← get)

def next : Reading Char := do
  let c :: cs ← get | failure
  set cs
  return c

/-- Takes `word` if it is in front. -/
def accept (word : String) : Reading Bool := do
  if ← isAhead word then
    modify (·.drop word.length)
    return true
  else return false

/-- Takes `word`, which has to be in front. -/
def expect (word : String) : Reading Unit := do
  guard (← accept word)

def take (n : Nat) : Reading (List Char) := do
  let cs ← get
  guard (n ≤ cs.length)
  set (cs.drop n)
  return cs.take n

def span (belongs : Char → Bool) : Reading (List Char) :=
  modifyGet fun cs => (cs.takeWhile belongs, cs.dropWhile belongs)

/-- Takes at least one character of a class. -/
def span1 (belongs : Char → Bool) : Reading (List Char) := do
  let cs ← span belongs
  guard (!cs.isEmpty)
  return cs

/-- What a reading makes of a whole text. -/
def whole (read : Reading α) (text : String) : Option α :=
  match read.run text.toList with
  | some (a, []) => some a
  | _ => none

end Reading

/-- Value of a digit, with letters for the digits from ten on. -/
def digitValue? (base : Nat) (c : Char) : Option Nat :=
  let n :=
    if c.isDigit then c.toNat - '0'.toNat
    else if 'a' ≤ c ∧ c ≤ 'z' then c.toNat - 'a'.toNat + 10
    else if 'A' ≤ c ∧ c ≤ 'Z' then c.toNat - 'A'.toNat + 10
    else base
  if n < base then some n else none

/-- The number that the digits spell. There has to be at least one digit. -/
def natOfDigits? (base : Nat) (digits : List Char) : Option Nat :=
  if digits.isEmpty then none
  else digits.foldlM (fun n c => return n * base + (← digitValue? base c)) 0

/-- The character with a number, unless the number is that of half a surrogate pair or too large. -/
def charOfNat? (n : Nat) : Option Char := if n.isValidChar then some (Char.ofNat n) else none

end SourceModel.Text
