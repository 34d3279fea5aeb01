/-!
# Arguments of a command line

Arguments are options, the names of commands, and operands. A command has options of its own
besides the general ones; the options in front of the name of a command belong to the level above.
Behind two dashes all arguments are operands.

An option with one dash has one letter; several letters without values may share the dash. A value
stands behind its option, or is joined to it by an equals sign, or follows the letter directly.
-/

namespace SourceModel.CommandLine

/-- Why reading the arguments ends early. -/
inductive Stop where
  /-- The arguments make no sense. -/
  | usage
  | help
  | version
deriving DecidableEq, Repr

inductive OptionAction where
  /-- The option is there or not. -/
  | flag
  /-- The option may be there several times. -/
  | count
  /-- The option has a value, which has to be accepted. -/
  | value (accepts : String → Bool)
  /-- Nothing else counts. -/
  | stop (why : Stop)

structure OptionSpec where
  name : String
  letter? : Option Char := none
  action : OptionAction
  /-- Whether a value may begin with the minus sign of a number. -/
  takesNegative : Bool := false

/-- How many operands a command has. -/
inductive Operands where
  | none
  | one
  | many
deriving DecidableEq, Repr

/-- What may stand on a level of the command line. -/
structure Level where
  options : List OptionSpec
  commands : List String := []
  operands : Operands := .none

/-- What has been found on a level: options with their values, and operands. -/
structure Found where
  options : List (String × String) := []
  operands : List String := []
deriving DecidableEq, Repr

namespace Found

def value? (f : Found) (name : String) : Option String := f.options.lookup name

def has (f : Found) (name : String) : Bool := (f.value? name).isSome

/-- Adds an option. Only options that count may be there already. -/
def addOption (f : Found) (o : OptionSpec) (value : String) : Except Stop Found :=
  let added := { f with options := f.options ++ [(o.name, value)] }
  match o.action with
  | .flag => if f.has o.name then .error .usage else .ok added
  | .count => .ok added
  | .value accepts => if f.has o.name || !accepts value then .error .usage else .ok added
  | .stop why => .error why

/-- Adds an operand, which must not be empty, if there is room for it. -/
def addOperand (f : Found) (room : Operands) (operand : String) : Except Stop Found :=
  let isFull := match room with
    | .none => true
    | .one => !f.operands.isEmpty
    | .many => false
  if isFull || operand.isEmpty then .error .usage
  else .ok { f with operands := f.operands ++ [operand] }

end Found

def OptionSpec.wantsValue (o : OptionSpec) : Bool := o.action matches .value _

/-- Whether an argument looks like a negative number. -/
def isNegativeNumber (arg : String) : Bool :=
  match arg.toList with
  | '-' :: c :: cs => c.isDigit && cs.all Char.isDigit
  | _ => false

/-- Whether an argument looks like an option. A single dash does not. -/
def isOptionLike (arg : String) : Bool := arg.startsWith "-" && arg != "-"

/-- Whether an argument can be the value of the option in front of it. -/
def OptionSpec.takes (o : OptionSpec) (arg : String) : Bool :=
  !isOptionLike arg || (o.takesNegative && isNegativeNumber arg)

namespace Level

/-- The options that letters behind one dash name. The last one may still want a value. -/
def addLetters (l : Level) (f : Found) : List Char → Except Stop (Found × Option OptionSpec)
  | [] => .ok (f, none)
  | c :: cs =>
    match l.options.find? (·.letter? == some c) with
    | none => .error .usage
    | some o =>
      if o.wantsValue then
        if cs.isEmpty then .ok (f, some o)
        else do
          let value := if cs.head? = some '=' then cs.drop 1 else cs
          return (← f.addOption o (String.ofList value), none)
      else do l.addLetters (← f.addOption o "") cs

/-- The option that a name behind two dashes, and perhaps a value, stand for. It may still want a
value. -/
def addName (l : Level) (f : Found) (arg : String) : Except Stop (Found × Option OptionSpec) :=
  let cs := arg.toList
  let name := String.ofList (cs.takeWhile (· != '='))
  match l.options.find? (·.name == name), cs.drop name.length with
  | none, _ => .error .usage
  | some o, [] =>
    if o.wantsValue then .ok (f, some o) else do return (← f.addOption o "", none)
  | some o, _ :: value =>
    if o.wantsValue then do return (← f.addOption o (String.ofList value), none)
    else .error .usage

def addArgument (l : Level) (f : Found) (arg : String) : Except Stop (Found × Option OptionSpec) :=
  if arg.startsWith "--" then l.addName f (String.ofList (arg.toList.drop 2))
  else l.addLetters f (arg.toList.drop 1)

/-- Reads the arguments of a level behind those that have been found. If a command follows, gives
its name and its arguments. `pending?` is an option that waits for its value. -/
def readFrom (l : Level) (f : Found) (pending? : Option OptionSpec) :
    List String → Except Stop (Found × Option (String × List String))
  | [] => if pending?.isSome then .error .usage else .ok (f, none)
  | arg :: args =>
    match pending? with
    | some o =>
      if o.takes arg then do l.readFrom (← f.addOption o arg) none args else .error .usage
    | none =>
      if l.commands.contains arg then .ok (f, some (arg, args))
      else if arg = "--" then do return (← args.foldlM (·.addOperand l.operands ·) f, none)
      else if isOptionLike arg then do
        let (f, pending?) ← l.addArgument f arg
        l.readFrom f pending? args
      else do l.readFrom (← f.addOperand l.operands arg) none args

def read (l : Level) (args : List String) :
    Except Stop (Found × Option (String × List String)) := l.readFrom {} none args

end Level

end SourceModel.CommandLine
