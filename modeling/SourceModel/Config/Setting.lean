import SourceModel.Word

/-!
# Settings

What the formats of configuration files have in common: scalars, lists and tables. A scalar may be
readable in several ways, as a text and as a number for instance; which of them counts depends on
the field that it is given for.
-/

namespace SourceModel

/-- The ways in which a scalar can be read. -/
structure Scalar where
  /-- Whether the scalar says that nothing is set. -/
  isUnset : Bool := false
  text? : Option String := none
  flag? : Option Bool := none
  /-- The value as a size, which fits into a word. -/
  size? : Option Nat := none
deriving DecidableEq, Repr, Inhabited

/-- A value of a configuration file. A key is none if it cannot be read as a text. -/
inductive Setting where
  | scalar (s : Scalar)
  | list (items : List Setting)
  | table (entries : List (Option String × Setting))
deriving Inhabited

namespace Setting

/-- The scalar that sets nothing. -/
def unset : Setting := .scalar { isUnset := true }

/-- A scalar that is a text and nothing else. -/
def ofText (s : String) : Setting := .scalar { text? := some s }

/-- A scalar that is a flag and nothing else. -/
def ofFlag (b : Bool) : Setting := .scalar { flag? := some b }

/-- A number as a scalar; only a small one is a size. -/
def ofNumber (n : Nat) : Setting := .scalar { size? := if n < wordLimit then some n else none }

/-- A scalar that no field accepts. -/
def unreadable : Setting := .scalar {}

/-- Whether the value says that nothing is set. -/
def isUnset : Setting → Bool
  | scalar s => s.isUnset
  | _ => false

end Setting

end SourceModel
