import SourceModel.Region

/-!
# Name accesses

A name access is one place in the source where an identifier is written. The accesses of a unit are
grouped by the exact text of the identifier. The places of a name are in source order, and so are
the names by their first places.
-/

namespace SourceModel

/-- A place where an identifier is written. -/
structure NameAccess where
  label : String
  /-- Number of the node that uses or defines the name. -/
  node : Nat
  /-- Number of the node of the identifier itself. -/
  nameNode : Nat
  region : Region
  isWrite : Bool
deriving DecidableEq, Repr, Inhabited

def NameAccess.isRead (a : NameAccess) : Bool := !a.isWrite

/-- Source order of places: by the offset of the name, then by its length. -/
def NameAccess.compare (a b : NameAccess) : Ordering :=
  (Ord.compare a.region.offset b.region.offset).then (Ord.compare a.region.length b.region.length)

/-- The accesses of a unit, grouped by name. -/
structure NameAccessSet where
  groups : List (String × List NameAccess) := []
deriving DecidableEq, Repr, Inhabited

namespace NameAccessSet

/-- Puts an access at the end of the group of its label. -/
def insert (a : NameAccess) : List (String × List NameAccess) → List (String × List NameAccess)
  | [] => [(a.label, [a])]
  | (label, as) :: rest =>
    if label = a.label then (label, as ++ [a]) :: rest else (label, as) :: insert a rest

/-- The groups of a list of accesses, each in the order of the list. -/
def group (accesses : List NameAccess) : List (String × List NameAccess) :=
  accesses.foldl (fun groups a => insert a groups) []

/-- Whether the first place of a group does not come behind that of the other. -/
def startsNoLater (g h : String × List NameAccess) : Bool :=
  match g.2, h.2 with
  | a :: _, b :: _ => a.compare b != .gt
  | _, _ => true

/-- The accesses of a list, grouped and in source order. -/
def ofList (accesses : List NameAccess) : NameAccessSet where
  groups := ((group accesses).map fun (label, as) =>
    (label, as.mergeSort fun a b => a.compare b != .gt)).mergeSort startsNoLater

/-- The names in the order of their first places. -/
def names (s : NameAccessSet) : List String := s.groups.map Prod.fst

def size (s : NameAccessSet) : Nat := s.groups.length

def allOf (s : NameAccessSet) (label : String) : List NameAccess := (s.groups.lookup label).getD []

def coReferences (s : NameAccessSet) (a : NameAccess) : List NameAccess := s.allOf a.label

/-- The first access whose name touches `offset`, by name and then by place. -/
def accessAt? (s : NameAccessSet) (offset : Nat) : Option NameAccess :=
  (s.groups.flatMap Prod.snd).find? fun a => a.region.touches offset

end NameAccessSet

end SourceModel
