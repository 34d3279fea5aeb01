import SourceModel.Config

/-!
# Starter files

A starter file spells out every default, so that it can be changed where it should differ. There is
one for every format that a configuration can be written in.
-/

namespace SourceModel.Config

inductive StarterFormat where
  | json
  | toml
  | yaml
deriving DecidableEq, Repr, Inhabited

namespace StarterFormat

def ofName? : String → Option StarterFormat
  | "json" => some json
  | "toml" => some toml
  | "yaml" => some yaml
  | _ => none

def fileName : StarterFormat → String
  | json => ".ltkrc.json"
  | toml => ".ltkrc.toml"
  | yaml => "ltk.yaml"

private def textOfLines (lines : List String) : String := String.join (lines.map (· ++ "\n"))

def contents : StarterFormat → String
  | json => starter.toJson.pretty
  | toml => textOfLines
    ["[printer]",
      "maxFragmentSize = 40",
      "indent = \"  \"",
      "includeForeign = true",
      "",
      "[model]",
      "astLevel = \"full\"",
      "buildNameAccess = true",
      "",
      "[sections]"]
  | yaml => textOfLines
    ["printer:",
      "  maxFragmentSize: 40",
      "  indent: '  '",
      "  includeForeign: true",
      "model:",
      "  astLevel: full",
      "  buildNameAccess: true",
      "sections: \x7b\x7d"]

end StarterFormat

end SourceModel.Config
