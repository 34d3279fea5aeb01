/-!
# Levels of detail

A front end can build a syntax tree in full, or only as far as an outline needs it.
-/

namespace SourceModel

/-- How much of a syntax tree is built. -/
inductive AstLevel where
  | minimal
  | full
deriving DecidableEq, Repr, Inhabited

namespace AstLevel

/-- The levels in order of detail. -/
def rank : AstLevel → Nat
  | minimal => 0
  | full => 1

instance : LE AstLevel := ⟨fun a b => a.rank ≤ b.rank⟩

instance (a b : AstLevel) : Decidable (a ≤ b) := inferInstanceAs (Decidable (a.rank ≤ b.rank))

instance : Max AstLevel := ⟨fun a b => if a ≤ b then b else a⟩

/-- Whether a tree of level `a` serves a request for level `b`. -/
def satisfies (a b : AstLevel) : Bool := b ≤ a

def display : AstLevel → String
  | minimal => "minimal"
  | full => "full"

def ofName? : String → Option AstLevel
  | "minimal" => some minimal
  | "full" => some full
  | _ => none

end AstLevel

end SourceModel
