import SourceModel.Fault
import SourceModel.Text.Hex

/-!
# Model elements

The elements of a source model have a type and a name. A type is a code of twelve bits, of which
the upper four give the category. A name has one or more segments.
-/

namespace SourceModel

inductive ElementCategory where
  | bundle
  | source
  | importItem
  | classItem
  | method
  | variableItem
  | embedded
  | other (code : Nat)
deriving DecidableEq, Repr, Inhabited

def ElementCategory.name : ElementCategory → String
  | bundle => "bundle"
  | source => "source"
  | importItem => "import"
  | classItem => "class"
  | method => "method"
  | variableItem => "variable"
  | embedded => "embedded"
  | other _ => "other"

structure ElementType where
  code : Fin 4096
deriving DecidableEq, Repr, Inhabited

namespace ElementType

def sourceUnit : ElementType := ⟨0x200⟩

def declaration : ElementType := ⟨0x600⟩

/-- A part in another language. -/
def embeddedPart : ElementType := ⟨0x800⟩

/-- The type with a code, which must not exceed twelve bits. -/
def ofCode? (code : Nat) : Except Fault ElementType :=
  if h : code < 4096 then .ok ⟨⟨code, h⟩⟩
  else .error (.contract s!"element type 0x{Text.hex 1 code} exceeds 12 bits")

def categoryCode (t : ElementType) : Nat := t.code / 256

/-- The part of the code that a language gives out within a category. -/
def subtype (t : ElementType) : Nat := t.code % 256

/-- The type of the same category with another subtype. -/
def withSubtype (t : ElementType) (subtype : Fin 256) : ElementType :=
  ⟨⟨t.categoryCode * 256 + subtype, by
    have := t.code.isLt
    unfold categoryCode
    omega⟩⟩

def category (t : ElementType) : ElementCategory :=
  match t.categoryCode with
  | 1 => .bundle
  | 2 => .source
  | 3 => .importItem
  | 4 => .classItem
  | 5 => .method
  | 6 => .variableItem
  | 8 => .embedded
  | code => .other code

/-- Whether two types belong to one category. -/
def sameCategory (s t : ElementType) : Bool := s.categoryCode == t.categoryCode

def compare (s t : ElementType) : Ordering := Ord.compare s.code t.code

/-- Written form of a type: three digits in base sixteen. -/
def display (t : ElementType) : String := Text.hex 3 t.code

end ElementType

/-- How a name segment names its part. -/
inductive SegmentKind where
  | default
  | member
  | index
deriving DecidableEq, Repr, Inhabited

/-- Name of the way in which a segment names its part. -/
def SegmentKind.name : SegmentKind → String
  | default => "default"
  | member => "member"
  | index => "index"

structure NameSegment where
  kind : SegmentKind
  text : String
deriving DecidableEq, Repr, Inhabited

/-- Name of an element: its first segment and the others. -/
structure ElementName where
  first : NameSegment
  more : List NameSegment := []
deriving DecidableEq, Repr, Inhabited

namespace ElementName

/-- The name with the given segments, of which there has to be one. -/
def ofSegments? : List NameSegment → Except Fault ElementName
  | [] => .error (.contract "element name needs at least one segment")
  | first :: more => .ok { first, more }

def simple (text : String) : ElementName := { first := ⟨.default, text⟩ }

def segments (n : ElementName) : List NameSegment := n.first :: n.more

def child (n : ElementName) (segment : NameSegment) : ElementName :=
  { n with more := n.more ++ [segment] }

def last (n : ElementName) : NameSegment := n.more.getLastD n.first

/-- Written form of a name: the texts of the segments with points between them. -/
def display (n : ElementName) : String := ".".intercalate (n.segments.map NameSegment.text)

end ElementName

end SourceModel
