import SourceAudit.Command.Settings

/-!
# Usage and help

## What the command says about itself

Each of the two commands has a usage text and a help text.  A fault is reported behind the usage of
the command that has noticed it.
-/

namespace SourceAudit
namespace Command

def linesText (lines : List String) : String :=
  String.join (lines.map (· ++ "\n"))

def Scope.program : Scope → String
  | main => "cqa"
  | analyze => "cqa analyze"

def Scope.usage : Scope → String
  | main => linesText ["usage: cqa [-h] [--verbose] \x7banalyze\x7d ..."]
  | analyze =>
      linesText
        ["usage: cqa analyze [-h] (--path PATH | --stdin | --example)",
          "                   [--format \x7btable,json\x7d] [--output OUTPUT]",
          "                   [--allow-list \x7bcompat,extended\x7d]",
          "                   [--fail-on \x7blow,medium,high,critical\x7d]"]

def Scope.explanation : Scope → String
  | main =>
      linesText
        ["positional arguments:",
          "  \x7banalyze\x7d",
          "",
          "options:",
          "  -h, --help  show this help message and exit",
          "  --verbose   Enable debug logging."]
  | analyze =>
      linesText
        ["options:",
          "  -h, --help            show this help message and exit",
          "  --path PATH           Python file, or directory walked for *.py files.",
          "  --stdin               Read source text from standard input.",
          "  --example             Analyze the bundled example snippet.",
          "  --format \x7btable,json\x7d",
          "                        Output format.",
          "  --output OUTPUT       Optional output file path for raw JSON when --format",
          "                        json is used.",
          "  --allow-list \x7bcompat,extended\x7d",
          "                        Semantic scanner allow-list mode.",
          "  --fail-on \x7blow,medium,high,critical\x7d",
          "                        Exit with code 1 when any issue reaches this severity."]

def Scope.help (scope : Scope) : String :=
  scope.usage ++ "\n" ++ scope.explanation

def faultText (scope : Scope) (fault : UsageFault) : String :=
  scope.usage ++ scope.program ++ ": error: " ++ fault.message ++ "\n"

end Command
end SourceAudit
