import SourceModel.Tree.Visitor
import SourceModel.Text.Hex

/-!
# Printing trees

A print has one line for each node: the bounds of the node, its kind, its status if there is
something to say, and its part of the source. Parts that are too long lose their middle, and
control characters are written as numbers. A line is indented by one unit for every node above it.
Children come before the foreign tree.

Only a refusal of the sink ends a print early.
-/

namespace SourceModel

structure PrinterOptions where
  /-- Parts of the source with more characters than this lose their middle. -/
  maxFragmentSize : Nat := 40
  /-- What a line is indented by for each node above. -/
  indent : String := "  "
  /-- Whether foreign trees are printed. -/
  includeForeign : Bool := true
deriving DecidableEq, Repr, Inhabited

namespace Fragment

/-- A character as it is printed: control characters show their number. -/
def escape (c : Char) : List Char :=
  if c.toNat < 0x20 then ("<0x" ++ Text.hexUpper 2 c.toNat ++ ">").toList else [c]

/-- The characters as they are printed, without the middle if there are more than `max`. -/
def renderChars (cs : List Char) (max : Nat) : List Char :=
  if cs.length ≤ max then cs.flatMap escape
  else
    let tail := max / 2
    let head := max - tail
    (cs.take head).flatMap escape ++ "...".toList ++ (cs.drop (cs.length - tail)).flatMap escape

/-- A part of the source as it is printed. -/
def render (text : String) (max : Nat) : String := String.ofList (renderChars text.toList max)

end Fragment

/-- Where the lines of a print go. A line can be refused, and so can the request to pass on what has
been written. -/
structure LineSink (ω : Type) where
  write : String → ExceptT String (StateM ω) Unit
  /-- Passes on what has been written. -/
  flush : ExceptT String (StateM ω) Unit := pure ()

/-- The sink that keeps every line. -/
def LineSink.all : LineSink String := { write := fun line => modify (· ++ line) }

/-- The sink that refuses a line if more than `limit` bytes would have been written with it. -/
def LineSink.limited (limit? : Option Nat) (refusal : String) : LineSink String where
  write line := do
    let written := (← get) ++ line
    if limit?.any (· < Text.size written) then throw refusal
    set written

/-- State of a print: what has been written, and the number of nodes above the next line. -/
structure PrintState (ω : Type) where
  written : ω
  depth : Nat := 0
deriving DecidableEq, Repr

/-- An action of the printer. It fails with the text of the sink's refusal. -/
abbrev PrintM (ω : Type) := ExceptT String (StateM (PrintState ω))

namespace Printer

variable {ω : Type}

/-- The line of a node that has `depth` nodes above it. -/
def line (source : String) (options : PrinterOptions) (depth : Nat) (t : Tree) : String :=
  let indent := String.join (List.replicate depth options.indent)
  let status := if t.status.isOk then "" else " !" ++ t.status.display
  let fragment :=
    match t.region.slice? source with
    | some text => Fragment.render text options.maxFragmentSize
    | none => "<out of bounds>"
  s!"{indent}{t.region.display} {t.kind.name}{status}: {fragment}\n"

/-- Runs an action of the sink. -/
def toSink (action : ExceptT String (StateM ω) Unit) : PrintM ω Unit := ExceptT.mk fun state =>
  let (outcome, written) := action.run state.written
  (outcome.mapError fun refusal => s!"failed to write AST dump: {refusal}", { state with written })

def writeLine (sink : LineSink ω) (source : String) (options : PrinterOptions) (t : Tree) :
    PrintM ω Unit := do
  toSink (sink.write (line source options (← get).depth t))

/-- Runs an action one level deeper. The level is left again whatever the outcome. -/
def deeper (action : PrintM ω Unit) : PrintM ω Unit := do
  modify fun state => { state with depth := state.depth + 1 }
  let outcome ← (liftM (m := StateM (PrintState ω)) action.run : PrintM ω (Except String Unit))
  modify fun state => { state with depth := state.depth - 1 }
  match outcome with
  | .ok () => pure ()
  | .error failure => throw failure

def visitor (sink : LineSink ω) (source : String) (options : PrinterOptions) :
    Visitor (PrintM ω) :=
  ⟨fun node intoChildren intoForeign => do
    writeLine sink source options node.tree
    deeper do
      intoChildren
      if options.includeForeign then intoForeign⟩

/-- Prints a node and what lies below it. -/
def print (sink : LineSink ω) (source : String) (options : PrinterOptions) (node : Ast.Node) :
    PrintM ω Unit := do
  (visitor sink source options).accept node
  toSink sink.flush

end Printer

def Ast.print (ast : Ast) (source : String) (options : PrinterOptions) : String :=
  ((Printer.print LineSink.all source options ast.rootNode).run { written := "" }).2.written

end SourceModel
