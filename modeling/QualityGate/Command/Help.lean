import QualityGate.Command

/-!
Help texts.
-/
namespace QualityGate.Topic

def lines (ls : List String) : String := String.join (ls.map (· ++ "\n"))

def helpText : Topic → String
  | program =>
    lines
      ["AST rule gate for React + Tailwind projects",
       "",
       "Usage: brudi-gate [OPTIONS] <COMMAND>",
       "",
       "Commands:",
       "  run    Analyze a project and exit 1 when any error-severity rule fires",
       "  rules  List every rule with its severity, plus the active thresholds",
       "  help   Print this message or the help of the given subcommand(s)",
       "",
       "Options:",
       "  -v, --verbose  Debug logging on stderr (BRUDI_LOG overrides)",
       "  -h, --help     Print help",
       "  -V, --version  Print version"]
  | run =>
    lines
      ["Analyze a project and exit 1 when any error-severity rule fires",
       "",
       "Usage: brudi-gate run [OPTIONS] <PROJECT_DIR>",
       "",
       "Arguments:",
       "  <PROJECT_DIR>  Project root to analyze",
       "",
       "Options:",
       "      --json                 Print the full report as JSON",
       "  -v, --verbose              Debug logging on stderr (BRUDI_LOG overrides)",
       "      --format <FORMAT>      Output format (overridden by --json) [default: human] [possible values: human, json, sarif]",
       "      --severity <SEVERITY>  Which severities the human output lists [default: all] [possible values: error, warning, all]",
       "  -h, --help                 Print help"]
  | rules =>
    lines
      ["List every rule with its severity, plus the active thresholds",
       "",
       "Usage: brudi-gate rules [OPTIONS] [PROJECT_DIR]",
       "",
       "Arguments:",
       "  [PROJECT_DIR]  Project whose .brudirc.toml supplies the thresholds [default: .]",
       "",
       "Options:",
       "  -v, --verbose  Debug logging on stderr (BRUDI_LOG overrides)",
       "  -h, --help     Print help"]
  | help =>
    lines
      ["Print this message or the help of the given subcommand(s)",
       "",
       "Usage: brudi-gate help [COMMAND]...",
       "",
       "Arguments:",
       "  [COMMAND]...  Print help for the subcommand(s)"]

end QualityGate.Topic
