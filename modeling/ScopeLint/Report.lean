import ScopeLint.Diagnostic

/-!
# Reports

A report has a line for each diagnostic, in order, and a line that counts them. On a terminal the head of each line
and the whole count are coloured.
-/

namespace ScopeLint.Report

/-- The code that sets the attributes of a terminal. -/
def escape (attributes : String) : String :=
  "\x1b[" ++ attributes ++ "m"

/-- The text between the code of a style and the code that ends all styles, or the text alone. -/
def styled (color : Bool) (style text : String) : String :=
  if color then style ++ text ++ escape "0" else text

/-- The sign before a diagnostic. -/
def glyph : Severity → String
  | .warning => "⚠"
  | .error => "✖"

/-- The style of a diagnostic: yellow, or bold and bright red. -/
def style : Severity → String
  | .warning => escape "33"
  | .error => escape "1" ++ escape "91"

/-- The line of a diagnostic. -/
def line (color : Bool) (d : Diagnostic) : String :=
  styled color (style d.severity) (glyph d.severity ++ " " ++ d.severity.word) ++ ": " ++ d.message

/-- A count and its noun, in the plural unless it is one. -/
def counted (count : Nat) (noun : String) : String :=
  toString count ++ " " ++ noun ++ (if count = 1 then "" else "s")

/-- How many diagnostics have a severity. -/
def tally (severity : Severity) (ds : List Diagnostic) : Nat :=
  ds.countP (fun d => d.severity == severity)

/-- The line that counts diagnostics, in grey on a terminal. -/
def summary (color : Bool) (ds : List Diagnostic) : String :=
  styled color (escape "90") (counted (tally .warning ds) "warning" ++ ", " ++ counted (tally .error ds) "error")

/-- The lines of a report. -/
def lines (color : Bool) (ds : List Diagnostic) : List String :=
  ds.map (line color) ++ [summary color ds]

/-- The text of a report: its lines, each ended by a line feed. -/
def text (color : Bool) (ds : List Diagnostic) : String :=
  String.join ((lines color ds).map (· ++ "\n"))

end ScopeLint.Report
