import SourceModel.Attachment.Table
import SourceModel.FrontEnd
import SourceModel.SourceUnit.Info
import SourceModel.Text.Quoted

/-!
# Source units

A source unit has a text, either its own or that of a shared document, and is used through
connections. While there is a connection, the unit keeps the last syntax tree and the last model
that were built. A request that asks for an up-to-date result gets what is kept if it has the
current stamp and the requested level; otherwise it is built anew. What is kept is given up together
with the document when the last connection is closed.
-/

namespace SourceModel

/-- How models are built. -/
structure ModelOptions where
  /-- Least level of the syntax tree of a model. -/
  astLevel : AstLevel := .full
  buildNames : Bool := true
deriving DecidableEq, Repr, Inhabited

/-- Where the text of a unit comes from. -/
inductive Backing (σ : Type) where
  | document (provider : DocumentProvider σ)
  | detached (content : SourceContent)

/-- A source unit of a client with state `σ`. -/
structure SourceUnit (σ : Type) where
  id : String
  frontEnd : FrontEnd σ
  backing : Backing σ
  options : ModelOptions := {}
  connections : Nat := 0
  document? : Option (SharedDocument σ) := none
  astInfo? : Option AstInfo := none
  modelInfo? : Option ModelInfo := none
  /-- Number of syntax trees built so far. -/
  astCount : Nat := 0
  /-- Number of models built so far. -/
  modelCount : Nat := 0
  /-- What clients have attached to models, by serial number. -/
  modelAttachments : AttachmentTable Nat := {}

/-- A unit together with the state of its client. -/
structure Session (σ : Type) where
  unit : SourceUnit σ
  client : σ

/-- A call of a unit. A call that fails keeps what it changed before. -/
abbrev UnitM (σ : Type) := ExceptT Fault (StateM (Session σ))

namespace SourceUnit

variable {σ α : Type}

def modelType (u : SourceUnit σ) : String := u.frontEnd.modelType

/-- Whether the unit has a text of its own. -/
def isDetached (u : SourceUnit σ) : Bool := u.backing matches .detached _

def isConnected (u : SourceUnit σ) : Bool := 0 < u.connections

/-- Written form of a unit that names its parts. -/
def inspect (u : SourceUnit σ) : String :=
  "SourceUnit \x7b id: " ++ Text.quoted u.id ++ ", model_type_id: " ++ Text.quoted u.modelType ++
    ", detached: " ++ toString u.isDetached ++ ", connections: " ++ toString u.connections ++
    " \x7d"

def attachmentsOf (u : SourceUnit σ) (info : ModelInfo) : Attachments :=
  u.modelAttachments.owned info.serial

def attach (u : SourceUnit σ) (info : ModelInfo) (a : Attachment) : SourceUnit σ :=
  { u with modelAttachments := u.modelAttachments.add info.serial a }

/-- The text of the unit as it is now. -/
def currentContent (u : SourceUnit σ) (state : σ) : Except Fault SourceContent :=
  if u.connections = 0 then .error (.notConnected u.id)
  else
    match u.backing, u.document? with
    | .detached content, _ => .ok content
    | .document _, some document => .ok (document.content state)
    | .document _, none => .error (.notConnected u.id)

/-- The fault that a failed rebuild reports. -/
def rebuildFault (u : SourceUnit σ) (fault : Fault) : Fault :=
  if fault.isCancelled then fault else .syncFailed u.id fault.message

/-! ## Calls -/

def self : UnitM σ (SourceUnit σ) := return (← get).unit

def update (f : SourceUnit σ → SourceUnit σ) : UnitM σ Unit :=
  modify fun session => { session with unit := f session.unit }

def perform (act : StateM σ α) : UnitM σ α := do
  let session ← get
  let (result, client) := act.run session.client
  set { session with client }
  return result

/-- Lets the client act; a fault of the client is reported as `report` says. -/
def attempt (report : Fault → Fault) (act : StateM σ (Except Fault α)) : UnitM σ α := do
  match ← perform act with
  | .ok result => return result
  | .error fault => throw (report fault)

/-- Opens a connection. The first one acquires the document. -/
def connect : UnitM σ Unit := do
  let u ← self
  if u.connections = 0 then
    if let .document provider := u.backing then
      let document ← attempt (fun fault => .syncFailed u.id fault.message) (provider.acquire u.id)
      update fun u => { u with document? := some document }
  update fun u => { u with connections := u.connections + 1 }

/-- Closes a connection. The last one gives up the document and all that is kept. -/
def disconnect : UnitM σ Unit := do
  let u ← self
  if u.connections = 0 then
    throw (.contract s!"disconnect of '{u.id}' without matching connect")
  if u.connections = 1 then
    update fun u => { u with
      connections := 0
      document? := none
      astInfo? := none
      modelInfo? := none }
    if let .document provider := u.backing then perform (provider.release u.id)
  else update fun u => { u with connections := u.connections - 1 }

/-- Runs calls under a connection of their own, which is closed also if they fail. -/
def withConnection (calls : UnitM σ α) : UnitM σ α := do
  connect
  let result : Except Fault α ← tryCatch (Except.ok <$> calls) fun fault => pure (.error fault)
  tryCatch disconnect fun _ => pure ()
  match result with
  | .ok a => return a
  | .error fault => throw fault

/-- The shared document, none for a detached unit. -/
def document : UnitM σ (Option (SharedDocument σ)) := do
  let u ← self
  if u.connections = 0 then throw (.notConnected u.id)
  return u.document?

/-- The text as it is now. -/
def content : UnitM σ SourceContent := do
  let session ← get
  session.unit.currentContent session.client

def stamp : UnitM σ Nat := return (← content).stamp

/-- Replaces the text of a detached unit and gives the new stamp. -/
def setContent (text : String) : UnitM σ Nat := do
  let u ← self
  if u.connections = 0 then throw (.notConnected u.id)
  match u.backing with
  | .detached content =>
    let stamp := content.stamp + 1
    update fun u => { u with backing := .detached ⟨stamp, text⟩ }
    return stamp
  | .document _ =>
    throw (.contract s!"'{u.id}' is document backed, edit the document instead")

/-- Refuses every stamp but that of the text as it is now. -/
def verifyStamp (found : Nat) : UnitM σ Unit := do
  let current ← stamp
  if current != found then throw (.staleStamp (← self).id current found)

/-- Checks a token before a phase of a rebuild. -/
def checkPhase (token : CancellationToken σ) (phase : String) : UnitM σ Unit := do
  token.check phase (← get).client

/-- Parses a text and keeps the tree. -/
def rebuildAst (content : SourceContent) (level : AstLevel) (token : CancellationToken σ) :
    UnitM σ AstInfo := do
  let u ← self
  checkPhase token "parse"
  let ast ← attempt u.rebuildFault (u.frontEnd.parse content level token)
  let info : AstInfo := { serial := u.astCount, stamp := content.stamp, level, ast }
  update fun u => { u with astInfo? := some info, astCount := u.astCount + 1 }
  return info

/-- The syntax tree of a text: the one that is kept if it serves, otherwise a new one. -/
def syncAst (content : SourceContent) (level : AstLevel) (token : CancellationToken σ) :
    UnitM σ AstInfo := do
  match (← self).astInfo?.filter (·.serves content.stamp level) with
  | some info => return info
  | none => rebuildAst content level token

/-- Derives the model of a text from its syntax tree and keeps it. -/
def rebuildModel (content : SourceContent) (astInfo : AstInfo) (token : CancellationToken σ) :
    UnitM σ ModelInfo := do
  let u ← self
  checkPhase token "structure"
  let outline ← attempt u.rebuildFault (u.frontEnd.buildOutline u.id content astInfo.ast)
  checkPhase token "name access"
  let accesses ←
    if u.options.buildNames then perform (u.frontEnd.nameAccesses content astInfo.ast) else pure []
  checkPhase token "problems"
  let info : ModelInfo :=
    { serial := u.modelCount
      astInfo
      outline
      names := .ofList accesses
      problems := astInfo.ast.problems }
  update fun u => { u with modelInfo? := some info, modelCount := u.modelCount + 1 }
  return info

/-- The syntax tree of the unit at a level. Without `sync` it is the one that is kept, if it has the
level; it may be out of date then. There is none without a connection. -/
def getAst (level : AstLevel) (sync : Bool) (token : CancellationToken σ) :
    UnitM σ (Option AstInfo) := do
  let u ← self
  if u.connections = 0 then return none
  if !sync then return u.astInfo?.filter (·.level.satisfies level)
  return some (← syncAst (← content) level token)

/-- The model of the unit at a level, under the same rules. -/
def getModel (level : AstLevel) (sync : Bool) (token : CancellationToken σ) :
    UnitM σ (Option ModelInfo) := do
  let u ← self
  if u.connections = 0 then return none
  if !sync then return u.modelInfo?.filter (·.astInfo.level.satisfies level)
  let content ← content
  match u.modelInfo?.filter (·.serves content.stamp level) with
  | some info => return some info
  | none =>
    let astInfo ← syncAst content (max level u.options.astLevel) token
    return some (← rebuildModel content astInfo token)

end SourceUnit

end SourceModel
