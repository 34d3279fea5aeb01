import SourceModel.Document.Partition
import SourceModel.Text.Quoted

/-!
# Text documents

A document has a text, the stamp of its revision, and the partitions of its text under every
partitioner that is registered. An edit takes place only if all partitioners accept the new text.
-/

namespace SourceModel

/-- A document. Of several partitioners of one name the last one counts. -/
structure TextDocument where
  text : String
  stamp : Nat := 1
  partitioners : List Partitioner := []
  partitions : List (String × List Partition) := []
deriving Inhabited

namespace TextDocument

def size (d : TextDocument) : Nat := Text.size d.text

def isEmpty (d : TextDocument) : Bool := d.text.isEmpty

/-- Puts the partitions of a name in the place of earlier ones, or at the end. -/
def putPartitions (name : String) (parts : List Partition) :
    List (String × List Partition) → List (String × List Partition)
  | [] => [(name, parts)]
  | entry :: rest =>
    if entry.1 = name then (name, parts) :: rest else entry :: putPartitions name parts rest

/-- The partitions of a text under several partitioners. -/
def partitionAll (text : String) (partitioners : List Partitioner) :
    Except Fault (List (String × List Partition)) :=
  partitioners.foldlM
    (fun entries p => do
      let parts ← p.cut? text
      return putPartitions p.name parts entries)
    []

/-- Registers a partitioner, which has to accept the text. -/
def addPartitioner (d : TextDocument) (p : Partitioner) : Except Fault TextDocument := do
  let parts ← p.cut? d.text
  return { d with
    partitioners := d.partitioners ++ [p]
    partitions := putPartitions p.name parts d.partitions }

/-- The next revision, which has the given text. -/
def setText (d : TextDocument) (text : String) : Except Fault TextDocument := do
  let partitions ← partitionAll text d.partitioners
  return { d with text, stamp := d.stamp + 1, partitions }

/-- The next revision, in which a region is replaced by the given text. -/
def replace (d : TextDocument) (region : Region) (text : String) : Except Fault TextDocument :=
  match Text.replace? d.text region.offset region.stop text with
  | none => .error (.badLocation region.offset region.length)
  | some text => d.setText text

/-- All partitions of a name in document order. -/
def partitionsOf? (d : TextDocument) (name : String) : Except Fault (List Partition) :=
  match d.partitions.lookup name with
  | some parts => .ok parts
  | none => .error (.contract s!"unknown partitioning '{name}'")

/-- The partition of a name at an offset. The end of the text belongs to the last partition. -/
def partitionAt? (d : TextDocument) (name : String) (offset : Nat) : Except Fault Partition := do
  let parts ← d.partitionsOf? name
  if d.size < offset then throw (.badLocation offset 0)
  match (parts.find? fun p => offset < p.region.stop).or parts.getLast? with
  | some p => return p
  | none => throw (.badLocation offset 0)

def get? (d : TextDocument) (region : Region) : Except Fault String :=
  match region.slice? d.text with
  | some text => .ok text
  | none => .error (.badLocation region.offset region.length)

/-- The character that starts at an offset. -/
def charAt? (d : TextDocument) (offset : Nat) : Except Fault Char :=
  match Text.charFrom? d.text offset with
  | some c => .ok c
  | none => .error (.badLocation offset 1)

/-- Written form of a document that names its parts. -/
def inspect (d : TextDocument) : String :=
  let names := ", ".intercalate (d.partitions.map fun entry => Text.quoted entry.1)
  "TextDocument \x7b len: " ++ toString d.size ++ ", stamp: " ++ toString d.stamp ++
    ", partitionings: [" ++ names ++ "] \x7d"

end TextDocument

end SourceModel
