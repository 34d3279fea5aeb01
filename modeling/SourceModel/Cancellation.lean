import SourceModel.Fault

/-!
# Cancellation

A client may cancel a rebuild while it is under way. The flag that says so belongs to the state of
the client and is checked between the phases of the rebuild. All tokens of one flag agree.
-/

namespace SourceModel

/-- A view of one flag in the state of a client. -/
structure CancellationToken (σ : Type) where
  isCancelled : σ → Bool

/-- Stops an operation, named by its phase, once the flag is raised. -/
def CancellationToken.check {σ : Type} (t : CancellationToken σ) (phase : String) (state : σ) :
    Except Fault Unit :=
  if t.isCancelled state then .error (.cancelled phase) else .ok ()

/-- Flags, numbered from zero. -/
structure CancellationFlags where
  raised : List Bool := []
deriving DecidableEq, Repr, Inhabited

namespace CancellationFlags

/-- Adds a flag that is not raised, and gives its number. -/
def create (f : CancellationFlags) : Nat × CancellationFlags :=
  (f.raised.length, ⟨f.raised ++ [false]⟩)

/-- Raises a flag for good. -/
def cancel (f : CancellationFlags) (flag : Nat) : CancellationFlags := ⟨f.raised.set flag true⟩

def isCancelled (f : CancellationFlags) (flag : Nat) : Bool := f.raised[flag]?.getD false

/-- The token of a flag, where `flags` reads the flags off the state of a client. -/
def token {σ : Type} (flags : σ → CancellationFlags) (flag : Nat) : CancellationToken σ :=
  ⟨fun state => (flags state).isCancelled flag⟩

end CancellationFlags

end SourceModel
