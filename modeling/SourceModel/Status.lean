import SourceModel.Region
import SourceModel.Text.Hex

/-!
# Node status

A node carries a status word of 32 bits. The low half is a code that the language of the tree
gives out; above it are three marks and a part that is kept but has no meaning.
-/

namespace SourceModel

/-- Status of a node: the code of its language and the marks above it. -/
structure Status where
  code : BitVec 16 := 0
  /-- The node itself is in error. -/
  isError : Bool := false
  /-- The error follows from an earlier one. -/
  isSubsequent : Bool := false
  /-- Some node below is in error. -/
  hasErrorBelow : Bool := false
  reserved : BitVec 13 := 0
deriving DecidableEq, Repr

namespace Status

instance : Inhabited Status := ⟨{}⟩

def ok : Status := {}

def error (code : Nat) : Status := { code := BitVec.ofNat 16 code, isError := true }

/-- A status that is not an error, such as a class of warnings. -/
def codeOnly (code : Nat) : Status := { code := BitVec.ofNat 16 code }

def ofBits (word : Nat) : Status where
  code := BitVec.ofNat 16 word
  isError := word.testBit 16
  isSubsequent := word.testBit 17
  hasErrorBelow := word.testBit 18
  reserved := BitVec.ofNat 13 (word >>> 19)

def bits (s : Status) : Nat :=
  s.code.toNat + 0x10000 * s.isError.toNat + 0x20000 * s.isSubsequent.toNat +
    0x40000 * s.hasErrorBelow.toNat + 0x80000 * s.reserved.toNat

/-- Whether the status word is zero. -/
def isOk (s : Status) : Bool := s = ok

/-- Whether the node or some node below is in error. -/
def hasAnyError (s : Status) : Bool := s.isError || s.hasErrorBelow

/-- The bits of both words. -/
def union (s t : Status) : Status where
  code := s.code ||| t.code
  isError := s.isError || t.isError
  isSubsequent := s.isSubsequent || t.isSubsequent
  hasErrorBelow := s.hasErrorBelow || t.hasErrorBelow
  reserved := s.reserved ||| t.reserved

def markBelow (s : Status) : Status := { s with hasErrorBelow := true }

/-- Written form: the word in base sixteen with at least six digits. -/
def display (s : Status) : String := "0x" ++ Text.hex 6 s.bits

end Status

/-- What a status is about: a part of the node's region and a text. -/
structure StatusDetail where
  region : Region
  text : String
deriving DecidableEq, Repr, Inhabited

/-- Written form of a detail. -/
def StatusDetail.display (d : StatusDetail) : String := s!"{d.region.display} {d.text}"

end SourceModel
