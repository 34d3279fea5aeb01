/-!
# Files and paths

The program reaches files through an interface, so that it can run on a file system as well as on a
tree of files in memory. Paths are texts whose parts are separated by slashes.
-/

namespace SourceModel.CommandLine

/-- Why a file cannot be read or written. -/
inductive FileFault where
  | notFound
  | isDirectory
  /-- The path leads through a file. -/
  | notDirectory
  /-- The bytes of the file are not a text. -/
  | invalidText
  | other (message : String)
deriving DecidableEq, Repr

def FileFault.message : FileFault → String
  | notFound => "No such file or directory (os error 2)"
  | isDirectory => "Is a directory (os error 21)"
  | notDirectory => "Not a directory (os error 20)"
  | invalidText => "stream did not contain valid UTF-8"
  | other message => message

structure FileAccess (m : Type → Type) where
  /-- Reads a file as a text. -/
  read : String → m (Except FileFault String)
  /-- Whether a file or a directory is there. -/
  isPresent : String → m Bool
  /-- Whether a file is there. -/
  isFile : String → m Bool
  /-- Writes a file anew. -/
  write : String → String → m (Except FileFault Unit)
  /-- Path of the directory in which the program runs. -/
  directory : m String

/-! ## Paths -/

def pathParts (path : String) : List String := path.splitOn "/"

def joinPath (directory entry : String) : String :=
  if directory.endsWith "/" then directory ++ entry else directory ++ "/" ++ entry

/-- A directory and those above it, the nearest one first. -/
def enclosingDirectories (directory : String) : List String :=
  let parts := pathParts directory
  (List.range parts.length).map fun i =>
    let path := "/".intercalate (parts.take (parts.length - i))
    if path.isEmpty then "/" else path

/-- The name of a file at the end of a path, unless the path ends by going up. -/
def fileName? (path : String) : Option String :=
  ((pathParts path).filter fun part => part != "" && part != ".").getLast?.filter (· != "..")

/-- Splits a name at its last point, unless there is nothing in front of it. -/
def splitName (name : String) : String × Option String :=
  let behind := name.toList.reverse.takeWhile (· != '.')
  let front := name.toList.take (name.length - behind.length - 1)
  if behind.length = name.length || front.isEmpty then (name, none)
  else (String.ofList front, some (String.ofList behind.reverse))

def extension? (path : String) : Option String :=
  (fileName? path).bind fun name => (splitName name).2

def stem? (path : String) : Option String := (fileName? path).map fun name => (splitName name).1

end SourceModel.CommandLine
