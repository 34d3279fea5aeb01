import SourceModel.Json

/-!
# The schema of configurations

A JSON schema of the configuration format, from which editors offer names and check values.
-/

namespace SourceModel.Config.Schema

private def described (text : String) : List (String × Json) :=
  if text.isEmpty then [] else [("description", .text text)]

/-- A value of a basic type, which may also be null. -/
private def basic (type description : String) (more : List (String × Json) := []) : Json :=
  .object (described description ++ [("type", .array [.text type, .text "null"])] ++ more)

/-- A value with a definition of its own, which may also be null. -/
private def defined (name : String) : Json :=
  .object [("anyOf", .array
    [.object [("$ref", .text ("#/$defs/" ++ name))], .object [("type", .text "null")]])]

private def object (description : String) (properties : List (String × Json)) : Json :=
  .object (described description ++ [("type", .text "object"), ("properties", .object properties)])

private def printer : Json :=
  object "AST printer settings"
    [("maxFragmentSize", basic "integer" "Longer source fragments are elided in the middle"
        [("format", .text "uint"), ("minimum", .number 0)]),
      ("indent", basic "string" "Indentation unit per tree level"),
      ("includeForeign", basic "boolean" "Print foreign subtrees below embedding nodes")]

private def model : Json :=
  object "Model rebuild settings"
    [("astLevel", defined "AstLevel"), ("buildNameAccess", basic "boolean" "")]

private def level : Json :=
  .object
    [("description", .text "How much of the AST a front end builds"),
      ("oneOf", .array
        [.object [("type", .text "string"), ("enum", .array [.text "full"])],
          .object
            [("description", .text "Outline-relevant nodes only, no expression detail"),
              ("type", .text "string"), ("const", .text "minimal")]])]

private def sections : Json :=
  object "Content section settings"
    [("partitioning", basic "string" "Partitioning used for section lookups")]

private def properties : Json :=
  .object
    [("$schema", basic "string" "JSON schema reference for editor support"),
      ("printer", defined "PrinterConfiguration"),
      ("model", defined "ModelConfiguration"),
      ("sections", defined "SectionsConfiguration")]

def json : Json :=
  .object
    [("$schema", .text "https://json-schema.org/draft/2020-12/schema"),
      ("title", .text "LtkConfig"),
      ("description", .text "Root configuration"),
      ("type", .text "object"),
      ("properties", properties),
      ("$defs", .object
        [("PrinterConfiguration", printer),
          ("ModelConfiguration", model),
          ("AstLevel", level),
          ("SectionsConfiguration", sections)])]

end SourceModel.Config.Schema
