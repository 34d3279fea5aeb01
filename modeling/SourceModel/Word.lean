/-!
# Machine words

Sizes and offsets are numbers of 64 bits, and numbers of nodes and elements are numbers of 32 bits.
-/

namespace SourceModel

/-- The least number that does not fit into 64 bits. -/
def wordLimit : Nat := 0x10000000000000000

/-- The least number that does not fit into 64 bits beside a sign. -/
def signedWordLimit : Nat := 0x8000000000000000

/-- The least number that does not fit into 32 bits. -/
def halfWordLimit : Nat := 0x100000000

end SourceModel
