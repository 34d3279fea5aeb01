import SourceModel.CommandLine.OpenedFile
import SourceModel.Json

/-!
# Reports

What the commands print about files. Every report has a form for people, one line for each entry,
and most have one in JSON. Lines and columns are counted from one.
-/

namespace SourceModel.CommandLine

def textOfLines (lines : List String) : String := String.join (lines.map (· ++ "\n"))

def numberFields (fields : List (String × Nat)) : List (String × Json) :=
  fields.map fun (key, n) => (key, .number n)

/-! ## Names -/

def accessKind (a : NameAccess) : String := if a.isWrite then "write" else "read"

/-- An access as a line, with the kind filled up to the longest one. -/
def accessLine (c : SourceContent) (a : NameAccess) : String :=
  let (line, column) := c.lineColumn a.region.offset
  let kind := accessKind a
  let room := String.ofList (List.replicate (5 - kind.length) ' ')
  s!"  {kind}{room} {line}:{column} {a.region.display}"

def accessJson (c : SourceContent) (a : NameAccess) : Json :=
  let (line, column) := c.lineColumn a.region.offset
  .object (("kind", .text (accessKind a)) :: numberFields
    [("offset", a.region.offset), ("end", a.region.stop), ("line", line), ("column", column)])

abbrev NameGroups := List (String × List NameAccess)

/-- All names of a model, or those of the name at an offset, if there is one. -/
def nameGroups? (names : NameAccessSet) : Option Nat → Option NameGroups
  | none => some (names.names.map fun label => (label, names.allOf label))
  | some offset => (names.accessAt? offset).map fun a => [(a.label, names.coReferences a)]

def namesText (c : SourceContent) (groups : NameGroups) : String :=
  textOfLines (groups.flatMap fun (label, accesses) =>
    s!"{label} ({accesses.length})" :: accesses.map (accessLine c))

def namesJson (c : SourceContent) (groups : NameGroups) : Json :=
  .array (groups.map fun (label, accesses) =>
    .object [("name", .text label), ("accesses", .array (accesses.map (accessJson c)))])

/-! ## Outlines -/

def lineOfElement (c : SourceContent) (e : Element) : Nat := (c.lineColumn e.range.offset).1

def elementLine (c : SourceContent) (depth : Nat) (e : Element) : String :=
  String.ofList (List.replicate (2 * depth) ' ') ++
    s!"{e.name.display} ({e.type.category.name}) line {lineOfElement c e} {e.range.display}"

/-- The fields of an element in JSON, its children apart. -/
def elementFields (c : SourceContent) (e : Element) : List (String × Json) :=
  [("id", .text e.id), ("name", .text e.name.display), ("category", .text e.type.category.name)] ++
    numberFields
      [("offset", e.range.offset), ("end", e.range.stop), ("line", lineOfElement c e)]

/-- The element with number `i` and all below it as lines. -/
def outlineLines (c : SourceContent) (o : Outline) (depth i : Nat) : List String :=
  (o.get? i).toList.map (elementLine c depth) ++
    (o.childrenOf i).attach.flatMap fun ⟨j, _⟩ => outlineLines c o (depth + 1) j
termination_by o.size - i
decreasing_by
  rename_i h
  have := Outline.lt_of_mem_childrenOf h
  omega

/-- The element with number `i` and all below it as JSON. -/
def outlineJson (c : SourceContent) (o : Outline) (i : Nat) : Json :=
  let children := (o.childrenOf i).attach.map fun ⟨j, _⟩ => outlineJson c o j
  .object ((o.get? i).elim [] (elementFields c) ++
    if children.isEmpty then [] else [("children", .array children)])
termination_by o.size - i
decreasing_by
  rename_i h
  have := Outline.lt_of_mem_childrenOf h
  omega

/-! ## Sections -/

/-- The partitions of a document with their section types as lines. -/
def partitionsText (d : TextDocument) (partitioning : String) : Except Fault String := do
  let sections := Calc.sectionsIn partitioning
  return textOfLines ((← d.partitionsOf? partitioning).map fun p =>
    s!"{p.display} -> {sections.typeAt d p.region.offset}")

/-- The brackets that belong to an offset as a line. -/
def pairLine (d : TextDocument) (partitioning : String) (offset : Nat) : String :=
  match ((Calc.pairMatcherIn partitioning).find d offset).1 with
  | some found =>
    found.region.display ++ if found.anchor = .left then " left" else " right"
  | none => s!"no pair at offset {offset}"

/-! ## Problems -/

structure FileProblem where
  path : String
  content : SourceContent
  problem : Problem

def FileProblem.display (p : FileProblem) : String :=
  let (line, column) := p.content.lineColumn p.problem.region.offset
  s!"{p.path}:{line}:{column}: error: {p.problem.message}"

def FileProblem.toJson (p : FileProblem) : Json :=
  let (line, column) := p.content.lineColumn p.problem.region.offset
  .object (("file", .text p.path) ::
    numberFields
      [("offset", p.problem.region.offset), ("end", p.problem.region.stop), ("line", line),
        ("column", column), ("code", p.problem.status.code.toNat)] ++
    [("message", .text p.problem.message)])

/-- Problems as lines, with their number at the end. -/
def problemsText (problems : List FileProblem) (files : Nat) : String :=
  textOfLines (problems.map FileProblem.display ++
    [s!"{problems.length} problems in {files} files"])

end SourceModel.CommandLine
