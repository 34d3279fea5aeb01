/-!
# Faults

Everything that can go wrong in the library, as causes. The wording of each cause is in
`Fault.message`; a cause belongs to one kind, and a client may retry after some kinds only.
-/

namespace SourceModel

/-- A cause of failure. -/
inductive Fault where
  /-- A node was asked for a child that it does not have. -/
  | noChild (index count : Nat)
  /-- A region breaks the rules for regions. -/
  | invalidRegion (offset length : Nat) (reason : String)
  /-- A caller broke an interface contract. -/
  | contract (message : String)
  /-- The unit has to be connected first. -/
  | notConnected (unit : String)
  /-- A result belongs to another revision of the content. -/
  | staleStamp (unit : String) (expected found : Nat)
  /-- The model could not be brought up to date. -/
  | syncFailed (unit message : String)
  /-- The operation saw its cancellation token. -/
  | cancelled (phase : String)
  /-- A position lies outside the document or inside a character. -/
  | badLocation (offset length : Nat)
  /-- A front end could not read the source. -/
  | parse (message : String)
  /-- A configuration cannot be read. -/
  | config (message : String)
  /-- A file cannot be read or written. -/
  | io (path source : String)
  /-- The library contradicts itself. -/
  | internal (message : String)
deriving DecidableEq, Repr, Inhabited

/-- The groups of causes. -/
inductive FaultKind where
  | contract
  | sync
  | cancelled
  | location
  | parse
  | config
  | io
  | internal
deriving DecidableEq, Repr, Inhabited

def FaultKind.name : FaultKind → String
  | contract => "contract"
  | sync => "sync"
  | cancelled => "cancelled"
  | location => "location"
  | parse => "parse"
  | config => "config"
  | io => "io"
  | internal => "internal"

namespace Fault

/-- The group of a cause. -/
def kind : Fault → FaultKind
  | noChild .. | invalidRegion .. | contract _ => .contract
  | notConnected _ | staleStamp .. | syncFailed .. => .sync
  | cancelled _ => .cancelled
  | badLocation .. => .location
  | parse _ => .parse
  | config _ => .config
  | io .. => .io
  | internal _ => .internal

def name : Fault → String
  | noChild .. => "ChildIndexOutOfBounds"
  | invalidRegion .. => "InvalidRegion"
  | contract _ => "ContractViolation"
  | notConnected _ => "NotConnected"
  | staleStamp .. => "StaleStamp"
  | syncFailed .. => "SyncFailed"
  | cancelled _ => "Cancelled"
  | badLocation .. => "BadLocation"
  | parse _ => "Parse"
  | config _ => "ConfigError"
  | io .. => "IoError"
  | internal _ => "InternalError"

/-- Whether the caller can go on by connecting, fetching or trying again. -/
def isRecoverable (fault : Fault) : Bool :=
  match fault.kind with
  | .sync | .cancelled | .location | .parse => true
  | .contract | .config | .io | .internal => false

/-- Wording of a cause. -/
def message : Fault → String
  | noChild index count => s!"Child index {index} out of bounds for node with {count} children"
  | invalidRegion offset length reason => s!"Invalid region [{offset}, +{length}): {reason}"
  | contract message => s!"Contract violation: {message}"
  | notConnected unit => s!"Source unit '{unit}' is not connected"
  | staleStamp unit expected found =>
    s!"Stale stamp for '{unit}': expected {expected}, found {found}"
  | syncFailed unit message => s!"Synchronization of '{unit}' failed: {message}"
  | cancelled phase => s!"Operation cancelled during {phase}"
  | badLocation offset length => s!"Bad location {offset} (document length {length})"
  | parse message => s!"Parse error: {message}"
  | config message => s!"Configuration error: {message}"
  | io path source => s!"IO error for path '{path}': {source}"
  | internal message => s!"Internal error: {message}"

/-- Whether the operation was stopped by its cancellation token. -/
def isCancelled (fault : Fault) : Bool := fault.kind = .cancelled

end Fault

end SourceModel
