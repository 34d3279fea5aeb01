import SourceModel.Document.Sections

/-!
# Dispatch by section

A dispatcher keeps one handler for each section type. A handler is created when its type is first
asked for, unless the client declines the type, and is released each time its type stops being the
active one. Creation and release may act on a state `σ` of the client.
-/

namespace SourceModel

/-- How a client creates and releases its handlers. A handler may change when it is released. -/
structure HandlerFactory (σ η : Type) where
  create : String → StateM σ (Option η)
  release : η → StateM σ η

/-- What happens to a handler. -/
inductive HandlerEvent where
  | created (type : String)
  | released (type : String)
deriving DecidableEq, Repr, Inhabited

/-- Written form of an event. -/
def HandlerEvent.display : HandlerEvent → String
  | created type => s!"create {type}"
  | released type => s!"release {type}"

/-- The factory whose handlers are the section types themselves. It declines some types, and records
every request and every release. -/
def HandlerFactory.recording (declined : List String) :
    HandlerFactory (List HandlerEvent) String where
  create type := do
    modify (· ++ [.created type])
    return if declined.contains type then none else some type
  release type := do
    modify (· ++ [.released type])
    return type

/-- The handlers of a client by section type; none stands for a type that the client declined. -/
structure SectionDispatcher (σ η : Type) where
  sections : ContentSections
  factory : HandlerFactory σ η
  handlers : List (String × Option η) := []
  active? : Option String := none

namespace SectionDispatcher

variable {σ η α : Type}

/-- Whether the client has been asked for a handler of a type. -/
def isCached (d : SectionDispatcher σ η) (type : String) : Bool := (d.handlers.lookup type).isSome

def handler? (d : SectionDispatcher σ η) (type : String) : Option η := (d.handlers.lookup type).join

def putHandler (d : SectionDispatcher σ η) (type : String) (handler : Option η) :
    SectionDispatcher σ η :=
  { d with handlers := (type, handler) :: d.handlers.filter fun entry => entry.1 != type }

/-- Releases the active handler. -/
def deactivate (d : SectionDispatcher σ η) : StateM σ (SectionDispatcher σ η) := do
  match d.active? with
  | none => return d
  | some type =>
    let inactive := { d with active? := none }
    match d.handler? type with
    | none => return inactive
    | some handler => return inactive.putHandler type (some (← d.factory.release handler))

def activate (d : SectionDispatcher σ η) (type : String) : StateM σ (SectionDispatcher σ η) := do
  if d.active? = some type then return d
  return { ← d.deactivate with active? := some type }

/-- Asks the client for a handler of a type, unless that has been done. -/
def ensureHandler (d : SectionDispatcher σ η) (type : String) :
    StateM σ (SectionDispatcher σ η) := do
  if d.isCached type then return d
  return d.putHandler type (← d.factory.create type)

/-- Activates the section at an offset and lets its handler act. There is no result if the offset
belongs to no section or its type has no handler. -/
def useHandlerAt (d : SectionDispatcher σ η) (document : TextDocument) (offset : Int)
    (act : η → α × η) : StateM σ (Option α × SectionDispatcher σ η) := do
  let type := d.sections.typeAt document offset
  if type = ContentSections.errorType then return (none, ← d.deactivate)
  let d ← (← d.activate type).ensureHandler type
  match d.handler? type with
  | none => return (none, d)
  | some handler =>
    let (result, handler) := act handler
    return (some result, d.putHandler type (some handler))

def handlerAt (d : SectionDispatcher σ η) (document : TextDocument) (offset : Int) :
    StateM σ (Option η × SectionDispatcher σ η) :=
  d.useHandlerAt document offset fun handler => (handler, handler)

/-- Releases the active handler and drops all handlers. -/
def dispose (d : SectionDispatcher σ η) : StateM σ (SectionDispatcher σ η) := do
  return { ← d.deactivate with handlers := [] }

end SectionDispatcher

end SourceModel
