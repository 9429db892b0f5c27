import TextDiagram.Command.Arguments

/-!
# What the user is told about arguments
-/

namespace TextDiagram.Command

def helpLines : List String :=
  ["Command-line arguments for the Diagrammar graph extractor",
    "",
    "Usage: diagrammar [OPTIONS] <INPUT>",
    "",
    "Arguments:",
    "  <INPUT>  Path to the input file",
    "",
    "Options:",
    "  -o, --output <OUTPUT>        Path to the output JSON file; stdout when omitted",
    "  -c, --config <CONFIG>        Path to configuration file (TOML)",
    "  -f, --format <FORMAT>        Output format, overriding the configuration file",
    "      --log-level <LOG_LEVEL>  Log level (off, error, warn, info, debug, trace)",
    "  -h, --help                   Print help",
    "  -V, --version                Print version"]

def UsageError.message : UsageError → String
  | missingInput => "error: no input file was given"
  | invalidValue => "error: an option has no value or an invalid one"
  | unneededValue => "error: a value was given to an option that takes none"
  | unknownArgument => "error: unexpected argument"
  | repeatedSetting => "error: an option was given more than once"
  | helpRequested => String.intercalate "\n" helpLines
  | versionRequested => "diagrammar 0.1.0"

end TextDiagram.Command
