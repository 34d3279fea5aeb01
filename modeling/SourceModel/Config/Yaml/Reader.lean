import SourceModel.Config.Yaml.Scalar
import SourceModel.Config.Yaml.Tokens

/-!
# Settings in YAML

A text holds one document. The value of an anchor is known to what stands behind its node; inside
the node it is there, but cannot be read.
-/

namespace SourceModel.Yaml

structure NodeState where
  tokens : List Token
  anchors : List (String × Setting) := []
  handles : List String := ["!", "!!", ""]

abbrev NodeReading := StateT NodeState Option

/-- The next token, which stays in front. -/
def peek : NodeReading (Option Token) := return (← get).tokens.head?

def skip : NodeReading Unit := modify fun s => { s with tokens := s.tokens.drop 1 }

/-- Takes a token if it is in front. -/
def accept (t : Token) : NodeReading Bool := do
  if (← peek) = some t then
    skip
    return true
  else return false

/-- Whether one of the tokens, or the end, is in front. -/
def isAhead (ts : List Token) : NodeReading Bool := return (← peek).all ts.contains

/-- What stands for a value that is left out. -/
def emptyNode : Setting := scalar "" true false

/-- The anchor and the tag in front of a node, each at most once and in any order. -/
def properties : Nat → Option String → Option String → NodeReading (Option String × Option String)
  | 0, anchor?, tag? => return (anchor?, tag?)
  | fuel + 1, anchor?, tag? => do
    match ← peek, anchor?, tag? with
    | some (.anchor name), none, _ =>
      skip
      properties fuel (some name) tag?
    | some (.tag handle), _, none =>
      skip
      properties fuel anchor? (some handle)
    | _, _, _ => return (anchor?, tag?)

/-- Names a value. -/
def setAnchor (anchor? : Option String) (v : Setting) : NodeReading Unit :=
  anchor?.forM fun name => modify fun s => { s with anchors := (name, v) :: s.anchors }

def keyText? : Setting → Option String
  | .scalar s => s.text?
  | _ => none

mutual

/-- A node. In brackets there are no blocks; behind a key of a block, the elements of a sequence
need not be indented. -/
def node (inBlock isBehindKey : Bool) : Nat → NodeReading Setting
  | 0 => failure
  | fuel + 1 => do
    if let some (.alias name) ← peek then
      skip
      let some v := (← get).anchors.lookup name | failure
      return v
    let (anchor?, tag?) ← properties 2 none none
    guard (tag?.all (← get).handles.contains)
    setAnchor anchor? .unreadable
    let v ← match ← peek with
      | some (.scalar text isPlain) => do
        skip
        pure (scalar text isPlain tag?.isSome)
      | some .flowSequenceStart => do
        skip
        pure (.list (← flowItems true fuel))
      | some .flowMappingStart => do
        skip
        pure (.table (← flowEntries true fuel))
      | t => do
        if t = some .blockEntry && isBehindKey then pure (.list (← looseItems fuel))
        else if t = some .blockSequenceStart && inBlock then
          skip
          pure (.list (← blockItems fuel))
        else if t = some .blockMappingStart && inBlock then
          skip
          pure (.table (← blockEntries fuel))
        else
          guard (anchor?.isSome || tag?.isSome)
          pure (scalar "" true tag?.isSome)
    setAnchor anchor? v
    return v

/-- A node that may be left out in front of certain tokens. -/
def optionalNode (inBlock isBehindKey : Bool) (ends : List Token) : Nat → NodeReading Setting
  | 0 => failure
  | fuel + 1 => do
    if (← peek).any ends.contains then return emptyNode
    node inBlock isBehindKey fuel

/-- The value of an entry, if there is a colon. -/
def entryValue (inBlock : Bool) (ends : List Token) : Nat → NodeReading Setting
  | 0 => failure
  | fuel + 1 => do
    if ← accept .value then optionalNode inBlock inBlock ends fuel
    else return emptyNode

/-- The elements of a block sequence. -/
def blockItems : Nat → NodeReading (List Setting)
  | 0 => failure
  | fuel + 1 => do
    if ← accept .blockEnd then return []
    guard (← accept .blockEntry)
    let item ← optionalNode true false [.blockEntry, .blockEnd] fuel
    return item :: (← blockItems fuel)

/-- The elements of a sequence that is not indented. -/
def looseItems : Nat → NodeReading (List Setting)
  | 0 => failure
  | fuel + 1 => do
    if ← accept .blockEntry then
      let item ← optionalNode true false [.blockEntry, .key, .value, .blockEnd] fuel
      return item :: (← looseItems fuel)
    else return []

def blockEntries : Nat → NodeReading (List (Option String × Setting))
  | 0 => failure
  | fuel + 1 => do
    if ← accept .blockEnd then return []
    guard (← accept .key)
    let key ← optionalNode true true [.key, .value, .blockEnd] fuel
    let v ← entryValue true [.key, .value, .blockEnd] fuel
    return (keyText? key, v) :: (← blockEntries fuel)

/-- The elements of a sequence in brackets. An element may be a mapping of one entry. -/
def flowItems (isFirst : Bool) : Nat → NodeReading (List Setting)
  | 0 => failure
  | fuel + 1 => do
    if ← accept .flowSequenceEnd then return []
    if !isFirst then
      guard (← accept .flowEntry)
      if ← accept .flowSequenceEnd then return []
    let item ←
      if ← accept .key then do
        let key ← optionalNode false false [.value, .flowEntry, .flowSequenceEnd] fuel
        let v ← entryValue false [.flowEntry, .flowSequenceEnd] fuel
        pure (.table [(keyText? key, v)])
      else node false false fuel
    return item :: (← flowItems false fuel)

/-- The entries of a mapping in braces. An entry may lack a value. -/
def flowEntries (isFirst : Bool) : Nat → NodeReading (List (Option String × Setting))
  | 0 => failure
  | fuel + 1 => do
    if ← accept .flowMappingEnd then return []
    if !isFirst then
      guard (← accept .flowEntry)
      if ← accept .flowMappingEnd then return []
    let (key, v) ←
      if ← accept .key then do
        let key ← optionalNode false false [.value, .flowEntry, .flowMappingEnd] fuel
        pure (key, ← entryValue false [.flowEntry, .flowMappingEnd] fuel)
      else do pure (← node false false fuel, emptyNode)
    return (keyText? key, v) :: (← flowEntries false fuel)

end

/-- The directives in front of a document: at most one version, and each handle once. -/
def directives : Nat → Bool → NodeReading Unit
  | 0, _ => failure
  | fuel + 1, isVersionKnown => do
    match ← peek with
    | some (.version major minor) =>
      guard (!isVersionKnown && major = 1 && (minor = 1 || minor = 2))
      skip
      directives fuel true
    | some (.tagHandle handle) =>
      let s ← get
      guard (!(s.handles.take (s.handles.length - 3)).contains handle)
      set { s with handles := handle :: s.handles }
      skip
      directives fuel isVersionKnown
    | _ => return

/-- Takes the marks at the end of a document. -/
def documentEnds : Nat → NodeReading Unit
  | 0 => pure ()
  | fuel + 1 => do if ← accept .documentEnd then documentEnds fuel

def document (fuel : Nat) : NodeReading Setting := do
  let v ←
    if ← isAhead [] then pure (.table [])
    else
      let isMarked : Bool := match ← peek with
        | some (.version ..) | some (.tagHandle _) | some .documentStart => true
        | _ => false
      if isMarked then
        directives fuel false
        guard (← accept .documentStart)
        match ← peek with
        | none | some (.version ..) | some (.tagHandle _) | some .documentStart
        | some .documentEnd => pure emptyNode
        | _ => node true false fuel
      else node true false fuel
  documentEnds fuel
  guard (← isAhead [])
  return v

def read? (text : String) : Option Setting := do
  let tokens ← tokens? text
  let (v, _) ← (document (3 * tokens.length + 4)).run { tokens }
  return v

end SourceModel.Yaml
