import SourceModel.Status

/-!
# Attachments

An owner carries a list of attached objects in the order in which they were attached, and beside
it an index by the kind of object. An object is known by its identity, and the same object may be
attached several times. Removal takes the first place of the object out of the ordered list and
every place of it out of the index. What objects hold and of which kinds they are is up to the
client; this program attaches texts, numbers, flags and status details.
-/

namespace SourceModel

inductive AttachmentKind where
  | text
  | number
  | flag
  | detail
deriving DecidableEq, Repr, Inhabited

/-- Content of an attached object. -/
inductive AttachmentValue where
  | text (value : String)
  | number (value : Int)
  | flag (value : Bool)
  | detail (value : StatusDetail)
deriving DecidableEq, Repr, Inhabited

/-- Contents that are told apart by their kinds. -/
class Kinded (ν : Type) (τ : outParam Type) where
  kind : ν → τ

/-- The kind of object that a content belongs to. -/
def AttachmentValue.kind : AttachmentValue → AttachmentKind
  | text _ => .text
  | number _ => .number
  | flag _ => .flag
  | detail _ => .detail

instance : Kinded AttachmentValue AttachmentKind := ⟨AttachmentValue.kind⟩

/-- An object that can be attached. Two are the same object if their identities are equal. -/
structure Attachment (ν : Type := AttachmentValue) where
  identity : Nat
  value : ν
deriving DecidableEq, Repr, Inhabited

section Attachment

variable {ν τ : Type}

def Attachment.kind [Kinded ν τ] (a : Attachment ν) : τ := Kinded.kind a.value

def Attachment.isSame (a b : Attachment ν) : Bool := a.identity == b.identity

end Attachment

/-- The attached objects of one owner: all of them in order, and those of each kind. -/
structure Attachments (ν : Type := AttachmentValue) (τ : Type := AttachmentKind) where
  ordered : List (Attachment ν) := []
  byKind : List (τ × List (Attachment ν)) := []
deriving DecidableEq, Repr, Inhabited

namespace Attachments

variable {ν τ : Type}

/-- Number of places in the ordered list. -/
def size (as : Attachments ν τ) : Nat := as.ordered.length

def isEmpty (as : Attachments ν τ) : Bool := as.ordered.isEmpty

section Index

variable [DecidableEq τ]

/-- The index entry of a kind. -/
def bucket (as : Attachments ν τ) (kind : τ) : List (Attachment ν) :=
  (as.byKind.lookup kind).getD []

/-- The contents of a kind, looked up in the index. -/
def all (as : Attachments ν τ) (kind : τ) : List ν :=
  (as.bucket kind).map Attachment.value

/-- The first content of a kind, looked up in the index. -/
def first? (as : Attachments ν τ) (kind : τ) : Option ν :=
  (as.bucket kind).head?.map Attachment.value

/-- Whether the index has an entry for a kind. -/
def has (as : Attachments ν τ) (kind : τ) : Bool := (as.byKind.lookup kind).isSome

variable [Kinded ν τ]

/-- Index with `a` at the end of its kind's entry. -/
def indexAdd (a : Attachment ν) :
    List (τ × List (Attachment ν)) → List (τ × List (Attachment ν))
  | [] => [(a.kind, [a])]
  | (kind, as) :: rest =>
    if kind = a.kind then (kind, as ++ [a]) :: rest else (kind, as) :: indexAdd a rest

/-- Index without `a`; an entry that becomes empty is dropped. -/
def indexRemove (a : Attachment ν) :
    List (τ × List (Attachment ν)) → List (τ × List (Attachment ν))
  | [] => []
  | (kind, as) :: rest =>
    if kind = a.kind then
      match as.filter fun b => !b.isSame a with
      | [] => rest
      | kept => (kind, kept) :: rest
    else (kind, as) :: indexRemove a rest

/-- Attaches an object at the end. -/
def add (as : Attachments ν τ) (a : Attachment ν) : Attachments ν τ where
  ordered := as.ordered ++ [a]
  byKind := indexAdd a as.byKind

/-- Takes an object off and says whether it was attached. -/
def remove (as : Attachments ν τ) (a : Attachment ν) : Bool × Attachments ν τ :=
  if as.ordered.any fun b => b.isSame a then
    (true, { ordered := as.ordered.eraseP fun b => b.isSame a, byKind := indexRemove a as.byKind })
  else (false, as)

end Index

def detail? (as : Attachments) : Option StatusDetail :=
  match as.first? .detail with
  | some (.detail d) => some d
  | _ => none

end Attachments

end SourceModel
