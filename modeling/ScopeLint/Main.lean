import ScopeLint.CommandLine.Run

/-!
# The program

Reads the source that the command line names, runs the check, and writes what it answers.
-/

namespace ScopeLint

open CommandLine

/-- The system's number for the failure to read a directory like a file. -/
def directoryCode : UInt32 :=
  21

/-- What is found under a path. A path that goes through a file as if that were a directory leads to nothing. -/
def contentUnder (path : String) : IO PathContent := do
  try return .file (← IO.FS.readBinFile path).toList
  catch
    | .noFileOrDirectory .. => return .nothing
    | .inappropriateType _ code _ => return if code = directoryCode then .directory else .nothing
    | failure => throw failure

end ScopeLint

open ScopeLint ScopeLint.CommandLine in
/-- Runs the program on its arguments. -/
def main (arguments : List String) : IO UInt32 := do
  let content ← match sourceOf arguments with
    | some path => contentUnder path
    | none => pure .nothing
  let outcome := run arguments content
  IO.print outcome.stdout
  IO.eprint outcome.stderr
  return outcome.status.toUInt32
