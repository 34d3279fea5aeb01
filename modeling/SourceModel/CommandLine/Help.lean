/-!
# Help
-/

namespace SourceModel.CommandLine

def versionText : String := "ltk 0.1.0\n"

/-- What the program prints if it is asked for nothing. -/
def helpText : String :=
  String.join (List.map (· ++ "\n")
    ["LTK: inspect ASTs, source structure and name accesses of calc sources",
      "",
      "Usage: ltk [OPTIONS] [COMMAND]",
      "",
      "Commands:",
      "  dump      Print the AST of a calc file, one node per line",
      "  names     List name accesses grouped by name",
      "  outline   Show the source structure (outline) of a calc file",
      "  sections  Show the content-section partition of a calc file",
      "  check     Report syntax problems of calc files",
      "  config    Configuration file management",
      "  help      Print this message or the help of the given subcommand(s)",
      "",
      "Options:",
      "  -c, --config <CONFIG>",
      "          Path to configuration file (.ltkrc.json/.ltkrc.toml/ltk.yaml)",
      "  -v, --verbose...",
      "          Verbose output (can be used multiple times for increased verbosity)",
      "      --no-color",
      "          Disable colored output",
      "      --generate-completion <GENERATE_COMPLETION>",
      "          Generate completion script for specified shell " ++
        "[possible values: bash, elvish, fish, powershell, zsh]",
      "  -h, --help",
      "          Print help (see more with '--help')",
      "  -V, --version",
      "          Print version"])

end SourceModel.CommandLine
