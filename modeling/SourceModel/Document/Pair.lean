import SourceModel.Document.Dispatcher

/-!
# Matching brackets

A bracket is matched with its partner inside one section type: characters of other sections are
skipped. The partner of an opening character is the first closing character behind it for which the
brackets in between are balanced, and the partner of a closing one is found in the same way before
it. At a caret the character before it is tried first, then the one behind it.
-/

namespace SourceModel

/-- An opening character and the closing one that belongs to it. -/
structure CharPair where
  opening : Char
  closing : Char
deriving DecidableEq, Repr, Inhabited

/-- Whether a search found out to the right from an opening character, or to the left from a
closing one. -/
inductive PairAnchor where
  | left
  | right
deriving DecidableEq, Repr, Inhabited

/-- A matched pair: the region from the opening to the closing character. -/
structure PairMatch where
  region : Region
  anchor : PairAnchor
deriving DecidableEq, Repr, Inhabited

namespace CharPair

def has (pair : CharPair) (c : Char) : Bool := c == pair.opening || c == pair.closing

/-- Offset of the closing partner among the characters from `offset` on, when `depth` inner pairs
are open. -/
def closingFrom (pair : CharPair) (counts : Nat → Bool) (depth offset : Nat) :
    List Char → Option Nat
  | [] => none
  | c :: cs =>
    let next := offset + c.utf8Size
    if !(pair.has c && counts offset) then pair.closingFrom counts depth next cs
    else if c = pair.opening then pair.closingFrom counts (depth + 1) next cs
    else
      match depth with
      | 0 => some offset
      | depth + 1 => pair.closingFrom counts depth next cs

/-- Offset of the opening partner among the characters before `stop`, last one first, when `depth`
inner pairs are open. -/
def openingBefore (pair : CharPair) (counts : Nat → Bool) (depth stop : Nat) :
    List Char → Option Nat
  | [] => none
  | c :: cs =>
    let start := stop - c.utf8Size
    if !(pair.has c && counts start) then pair.openingBefore counts depth start cs
    else if c = pair.closing then pair.openingBefore counts (depth + 1) start cs
    else
      match depth with
      | 0 => some start
      | depth + 1 => pair.openingBefore counts depth start cs

end CharPair

/-- The brackets of one section type, and the match that was found last. -/
structure CharPairMatcher where
  pairs : List CharPair
  sections : ContentSections
  sectionType : String
  last? : Option PairMatch := none
deriving DecidableEq, Repr, Inhabited

namespace CharPairMatcher

/-- Whether an offset belongs to a section of the matcher's type. -/
def counts (m : CharPairMatcher) (d : TextDocument) (offset : Nat) : Bool :=
  m.sections.typeAt d offset = m.sectionType

/-- The match between two offsets. -/
def matched? (start stop : Nat) (anchor : PairAnchor) : Option PairMatch :=
  (Region.ofBounds? start stop).toOption.map fun region => ⟨region, anchor⟩

/-- The match of the character that starts at an offset. A character that opens some pair is not
looked at as a closing one. -/
def matchFrom (m : CharPairMatcher) (d : TextDocument) (offset : Nat) : Option PairMatch := do
  let (front, rest) ← Text.splitBytes? offset d.text.toList
  let c ← rest.head?
  if !m.counts d offset then none
  else if let some pair := m.pairs.find? fun pair => pair.opening == c then do
    let closing ← pair.closingFrom (m.counts d) 0 (offset + c.utf8Size) (rest.drop 1)
    matched? offset (closing + pair.closing.utf8Size) .left
  else do
    let pair ← m.pairs.find? fun pair => pair.closing == c
    let opening ← pair.openingBefore (m.counts d) 0 offset front.reverse
    matched? opening (offset + pair.closing.utf8Size) .right

def matchAt (m : CharPairMatcher) (d : TextDocument) (caret : Nat) : Option PairMatch :=
  let before := do
    let c ← Text.charTo? d.text caret
    m.matchFrom d (caret - c.utf8Size)
  before.or (m.matchFrom d caret)

/-- Looks for the match at a caret and keeps it. -/
def find (m : CharPairMatcher) (d : TextDocument) (caret : Nat) :
    Option PairMatch × CharPairMatcher :=
  let found := m.matchAt d caret
  (found, { m with last? := found })

/-- Forgets the last match. -/
def release (m : CharPairMatcher) : CharPairMatcher := { m with last? := none }

def factory (sections : ContentSections) (pairs : List (String × List CharPair)) :
    HandlerFactory Unit CharPairMatcher where
  create type :=
    pure ((pairs.lookup type).map fun pairs => { pairs, sections, sectionType := type })
  release m := pure m.release

end CharPairMatcher

/-- Brackets by section type. -/
structure SectionPairMatcher where
  dispatcher : SectionDispatcher Unit CharPairMatcher

namespace SectionPairMatcher

/-- The matcher for the given brackets of each section type. -/
def ofPairs (sections : ContentSections) (pairs : List (String × List CharPair)) :
    SectionPairMatcher :=
  ⟨{ sections, factory := CharPairMatcher.factory sections pairs }⟩

/-- Asks the matcher of the section at an offset for the match at a caret. -/
def findIn (m : SectionPairMatcher) (d : TextDocument) (offset caret : Nat) :
    Option PairMatch × SectionPairMatcher :=
  let ((found, dispatcher), _) :=
    (m.dispatcher.useHandlerAt d offset fun matcher => matcher.find d caret).run ()
  (found.join, ⟨dispatcher⟩)

/-- Looks for the match at a caret: in the section before it, then in the one behind it. -/
def find (m : SectionPairMatcher) (d : TextDocument) (caret : Nat) :
    Option PairMatch × SectionPairMatcher :=
  let (before, m) := if caret = 0 then (none, m) else m.findIn d (caret - 1) caret
  match before with
  | some found => (some found, m)
  | none => m.findIn d caret caret

def dispose (m : SectionPairMatcher) : SectionPairMatcher := ⟨(m.dispatcher.dispose.run ()).1⟩

end SectionPairMatcher

end SourceModel
