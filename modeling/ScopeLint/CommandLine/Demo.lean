/-!
# The demo module

A module to check when no source is given. It holds a case of each kind of finding.
-/

namespace ScopeLint.CommandLine

/-- The text of the demo module. -/
def demoSource : String :=
  String.intercalate "\n"
    ["import gleam/io",
     "",
     "pub fn main() \x7b",
     "  let message = \"Hello, Joe!\"",
     "  let #(first, second) = #(1, 2)",
     "  first",
     "  message",
     "\x7d",
     "",
     "fn describe(value, unused_flag, _ignored) \x7b",
     "  let label = \"value\"",
     "  value",
     "\x7d",
     "",
     "pub fn scoped() \x7b",
     "  let outer = 10",
     "  outer",
     "  \x7b",
     "    -outer",
     "    let inner = 20",
     "    Nil",
     "  \x7d",
     "  inner",
     "\x7d",
     "",
     "fn countdown(n) \x7b",
     "  countdown",
     "  !n",
     "  total",
     "\x7d",
     "",
     "pub fn with_resource() \x7b",
     "  use file, _mode <- open(\"data.txt\")",
     "  let [head, ..rest] = [1, 2, 3]",
     "  #(file, head)",
     "\x7d",
     ""]

end ScopeLint.CommandLine
