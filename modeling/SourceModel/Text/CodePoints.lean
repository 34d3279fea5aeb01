/-!
# Sets of code points

A property of characters is a set of code points. It is stored by its boundaries: the first code
point of the set, the first one behind that run, the start of the next run, and so on.
-/

namespace SourceModel.Text

/-- Whether `n` lies in the set whose boundaries are `bounds`; `inside` says on which side of the
first boundary the walk starts. -/
def insideBounds (n : Nat) : Bool → List Nat → Bool
  | inside, [] => inside
  | inside, b :: bs => if n < b then inside else insideBounds n (!inside) bs

/-- Whether a character belongs to the set with the given boundaries. -/
def inBounds (bounds : List Nat) (c : Char) : Bool := insideBounds c.toNat false bounds

end SourceModel.Text
