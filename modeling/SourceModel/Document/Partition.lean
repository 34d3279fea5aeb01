import SourceModel.Region

/-!
# Partitions

A partitioner cuts a text into typed parts. The parts have to lie side by side from the start of the
text to its end; `Partitioner.cut?` gives them only if they do.
-/

namespace SourceModel

structure Partition where
  region : Region
  type : String
deriving DecidableEq, Repr, Inhabited

/-- Written form of a partition. -/
def Partition.display (p : Partition) : String := s!"{p.region.display} {p.type}"

/-- A way to cut texts, known by its name. -/
structure Partitioner where
  name : String
  partition : String → List Partition

namespace Partitioner

/-- What is wrong with the parts of a text. -/
inductive Defect where
  | misplaced (offset expected : Nat)
  | wrongSize (stop size : Nat)
deriving DecidableEq, Repr

def Defect.message (name : String) : Defect → String
  | misplaced offset expected =>
    s!"partitioning '{name}' has a gap or overlap at {offset} (expected {expected})"
  | wrongSize stop size => s!"partitioning '{name}' covers {stop} of {size} bytes"

/-- The offset behind the last one of parts that lie side by side from `start` on. -/
def endOf (start : Nat) : List Partition → Except Defect Nat
  | [] => .ok start
  | p :: ps =>
    if p.region.offset = start then endOf p.region.stop ps
    else .error (.misplaced p.region.offset start)

/-- What is wrong with the parts of a text of the given size. -/
def defect? (size : Nat) (parts : List Partition) : Option Defect :=
  match endOf 0 parts with
  | .error defect => some defect
  | .ok stop => if stop = size then none else some (.wrongSize stop size)

def cut? (p : Partitioner) (text : String) : Except Fault (List Partition) :=
  let parts := p.partition text
  match defect? (Text.size text) parts with
  | some defect => .error (.contract (defect.message p.name))
  | none => .ok parts

/-- The part of a text between two offsets, if there is such a region. -/
def part? (start stop : Nat) (type : String) : Except Fault Partition := do
  return ⟨← Region.ofBounds? start stop, type⟩

/-- The partitioner that cuts a text into the longest runs of characters of one type. -/
def byType (name : String) (typeOf : Char → String) : Partitioner where
  name
  partition text :=
    let runs := text.toList.splitBy fun c d => typeOf c == typeOf d
    (runs.foldl (fun (start, parts) run =>
      let stop := start + Text.byteCount run
      (stop, parts ++ (part? start stop (run.head?.elim "" typeOf)).toOption.toList))
      (0, [])).2

end Partitioner

end SourceModel
