import SourceModel.Attachment

/-!
# Attachment tables

A table keeps the attachments of many owners. An owner has an entry only while something is
attached to it.
-/

namespace SourceModel

/-- Attachments of the owners that have any, in the order in which they got their entry. -/
structure AttachmentTable (κ : Type) (ν : Type := AttachmentValue) (τ : Type := AttachmentKind)
    where
  entries : List (κ × Attachments ν τ) := []
deriving DecidableEq, Repr, Inhabited

namespace AttachmentTable

variable {κ ν τ : Type} [BEq κ]

def owned (table : AttachmentTable κ ν τ) (key : κ) : Attachments ν τ :=
  (table.entries.lookup key).getD {}

/-- The table in which `key` owns `as`; there is no entry for an owner of nothing. -/
def put (table : AttachmentTable κ ν τ) (key : κ) (as : Attachments ν τ) :
    AttachmentTable κ ν τ :=
  if as.isEmpty then ⟨table.entries.filter fun entry => !(entry.1 == key)⟩
  else if table.entries.any fun entry => entry.1 == key then
    ⟨table.entries.map fun entry => if entry.1 == key then (entry.1, as) else entry⟩
  else ⟨table.entries ++ [(key, as)]⟩

variable [DecidableEq τ]

/-- The owners of some object of a kind. -/
def keysWith (table : AttachmentTable κ ν τ) (kind : τ) : List κ :=
  (table.entries.filter fun entry => entry.2.has kind).map Prod.fst

variable [Kinded ν τ]

def add (table : AttachmentTable κ ν τ) (key : κ) (a : Attachment ν) : AttachmentTable κ ν τ :=
  table.put key ((table.owned key).add a)

/-- Takes an object off an owner and says whether it was attached there. -/
def remove (table : AttachmentTable κ ν τ) (key : κ) (a : Attachment ν) :
    Bool × AttachmentTable κ ν τ :=
  let (removed, as) := (table.owned key).remove a
  (removed, table.put key as)

end AttachmentTable

end SourceModel
