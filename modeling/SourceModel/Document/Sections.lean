import SourceModel.Document

/-!
# Content sections

Editor commands tell apart only a few types of section. Every partition type belongs to one of them;
a type without an entry of its own belongs to the primary one.
-/

namespace SourceModel

structure ContentSections where
  partitioning : String
  primary : String
  secondary : List String := []
  byPartition : List (String × String) := []
deriving DecidableEq, Repr, Inhabited

namespace ContentSections

/-- Section type of an offset that belongs to no section. -/
def errorType : String := "__error"

def withSecondary (s : ContentSections) (type : String) : ContentSections :=
  if s.secondary.contains type then s else { s with secondary := s.secondary ++ [type] }

/-- Lets a partition type belong to a section type in place of the one so far. -/
def mapPartition (s : ContentSections) (partitionType sectionType : String) : ContentSections :=
  { s with byPartition := (partitionType, sectionType) :: s.byPartition }

def typeOf (s : ContentSections) (partitionType : String) : String :=
  (s.byPartition.lookup partitionType).getD s.primary

def typeAt (s : ContentSections) (d : TextDocument) (offset : Int) : String :=
  if offset < 0 then errorType
  else
    match d.partitionAt? s.partitioning offset.toNat with
    | .ok p => s.typeOf p.type
    | .error _ => errorType

/-- All types, the primary one first. -/
def types (s : ContentSections) : List String := s.primary :: s.secondary

def isKnown (s : ContentSections) (type : String) : Bool := s.types.contains type

end ContentSections

end SourceModel
