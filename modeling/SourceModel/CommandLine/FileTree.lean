import SourceModel.CommandLine.Files

/-!
# Files in memory

A tree of files with a directory in which the program runs. A path is followed part by part; every
part but the last one has to lead to a directory.
-/

namespace SourceModel.CommandLine

/-- A place in a tree of files: the names on the way from the root. -/
abbrev Place := List String

/-- A tree of files. The contents of a file are none if they are not a text. -/
structure FileTree where
  /-- Name of the root in paths. -/
  root : String
  files : List (Place × Option String) := []
  directories : List Place := []
  /-- Place of the directory in which the program runs. -/
  current : Place := []

namespace FileTree

/-- The place that the parts of a path name if no directory has to be left that is not there. -/
def placeOf (parts : List String) : Place :=
  parts.foldl (fun place part =>
    if part = "" ∨ part = "." then place
    else if part = ".." then place.dropLast
    else place ++ [part]) []

/-- A tree of the given files and directories, in which the program runs at a path. -/
def ofFiles (root : String) (files : List (String × Option String)) (directories : List String)
    (current : String) : FileTree where
  root
  files := files.map fun (path, contents) => (placeOf (pathParts path), contents)
  directories := directories.map fun path => placeOf (pathParts path)
  current := placeOf (pathParts current)

def hasFile (t : FileTree) (place : Place) : Bool := t.files.any (·.1 == place)

/-- Whether there is a directory at a place. The directories above a file or a directory are there
too. -/
def hasDirectory (t : FileTree) (place : Place) : Bool :=
  place.isEmpty || place.isPrefixOf t.current || t.directories.any place.isPrefixOf ||
    t.files.any fun (p, _) => p != place && place.isPrefixOf p

def follow (t : FileTree) (place : Place) : List String → Except FileFault Place
  | [] => .ok place
  | part :: parts =>
    if t.hasFile place then .error .notDirectory
    else if !t.hasDirectory place then .error .notFound
    else if part = "" ∨ part = "." then t.follow place parts
    else if part = ".." then
      if place.isEmpty then .error .notFound else t.follow place.dropLast parts
    else t.follow (place ++ [part]) parts

/-- The place to which a path leads. Only a path that begins with the name of the root is absolute.
-/
def resolve (t : FileTree) (path : String) : Except FileFault Place :=
  match pathParts path with
  | part :: parts =>
    if part = t.root then t.follow [] parts
    else if part.isEmpty then .error .notFound
    else t.follow t.current (part :: parts)
  | [] => .error .notFound

/-- The contents of the file to which a path leads. -/
def read (t : FileTree) (path : String) : Except FileFault String := do
  let place ← t.resolve path
  match t.files.lookup place with
  | some (some text) => return text
  | some none => throw .invalidText
  | none => throw (if t.hasDirectory place then .isDirectory else .notFound)

/-- The tree with other contents of the file to which a path leads. -/
def write (t : FileTree) (path text : String) : Except FileFault FileTree := do
  let place ← t.resolve path
  if t.hasDirectory place then throw .isDirectory
  return { t with files := (place, some text) :: t.files.filter (·.1 != place) }

def access : FileAccess (StateM FileTree) where
  read path := return (← get).read path
  isPresent path := do
    let t ← get
    return ((t.resolve path).toOption.any fun place => t.hasFile place || t.hasDirectory place)
  isFile path := do
    let t ← get
    return ((t.resolve path).toOption.any t.hasFile)
  write path text := do
    match (← get).write path text with
    | .ok t =>
      set t
      return .ok ()
    | .error e => return .error e
  directory := do
    let t ← get
    return "/".intercalate (t.root :: t.current)

end FileTree

end SourceModel.CommandLine
