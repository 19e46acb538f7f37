import ScopeLint.CommandLine.Options

/-!
# Usage

The texts that tell how to use the command line.
-/

namespace ScopeLint.CommandLine

/-- The name of the program. -/
def programName : String :=
  "glint"

/-- The levels, as usage shows them. -/
def levelChoices : String :=
  "\x7b" ++ String.intercalate "," (Level.all.map Level.word) ++ "\x7d"

/-- Lines, each ended by a line feed. -/
def unlines (lines : List String) : String :=
  String.join (lines.map (· ++ "\n"))

/-- How to call the program. -/
def usage : String :=
  unlines
    ["usage: " ++ programName ++ " [-h] [--no-color]",
     "             [--log-level " ++ levelChoices ++ "]",
     "             [--lexer-log-level " ++ levelChoices ++ "]",
     "             [--parser-log-level " ++ levelChoices ++ "]",
     "             [--semantic-log-level " ++ levelChoices ++ "]",
     "             [source]"]

/-- What the program does and what its arguments mean. -/
def help : String :=
  usage ++ unlines
    ["",
     "Report undefined names and unused bindings in a Gleam module.",
     "",
     "positional arguments:",
     "  source                Path to the source file to check (default: built-in",
     "                        demo module).",
     "",
     "options:",
     "  -h, --help            show this help message and exit",
     "  --no-color            Print diagnostics without ANSI colors.",
     "  --log-level " ++ levelChoices,
     "                        Set the default logging level (default: WARNING)",
     "  --lexer-log-level " ++ levelChoices,
     "                        Set the logging level for the lexer (default: --log-",
     "                        level)",
     "  --parser-log-level " ++ levelChoices,
     "                        Set the logging level for the parser (default: --log-",
     "                        level)",
     "  --semantic-log-level " ++ levelChoices,
     "                        Set the logging level for the semantic analyzer",
     "                        (default: --log-level)"]

/-- The text that tells a fault of the command line. -/
def usageFaultText (f : UsageFault) : String :=
  usage ++ programName ++ ": error: " ++ f.message ++ "\n"

end ScopeLint.CommandLine
