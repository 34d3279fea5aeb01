import SourceModel.CommandLine.Run

/-!
# The program

The command line on the files of the system.
-/

namespace SourceModel.CommandLine

/-- The fault that an error of the system stands for. The number of an error may have a minus sign.
-/
def FileFault.ofError : IO.Error → FileFault
  | .noFileOrDirectory .. => .notFound
  | .inappropriateType _ code details =>
    let number := min code (0 - code)
    if number = 21 then .isDirectory
    else if number = 20 then .notDirectory
    else .other details
  | e => .other (toString e)

/-- Runs an action on a file and gives its fault as a value. -/
def catchFault {α : Type} (action : IO α) : IO (Except FileFault α) := do
  match ← action.toBaseIO with
  | .ok a => return .ok a
  | .error e => return .error (.ofError e)

def systemFiles : FileAccess IO where
  read path := do
    match ← catchFault (IO.FS.readBinFile path) with
    | .error fault => return .error fault
    | .ok bytes =>
      match String.fromUTF8? bytes with
      | some text => return .ok text
      | none => return .error .invalidText
  isPresent path := return (← catchFault (IO.FS.realPath path)).isOk
  isFile path := do
    let found ← catchFault do return (← (← IO.FS.realPath path).metadata).type
    return found matches .ok .file
  write path text := catchFault (IO.FS.writeFile path text)
  directory := return (← IO.currentDir).toString

end SourceModel.CommandLine

/-- Runs the program. -/
def main (args : List String) : IO UInt32 := do
  let exit ← SourceModel.CommandLine.run SourceModel.CommandLine.systemFiles args
  IO.print exit.output
  if let some message := exit.error? then IO.eprintln s!"error: {message}"
  return exit.code.toUInt32
