import ScopeLint.Check.Visit
import ScopeLint.CommandLine.Demo
import ScopeLint.CommandLine.Usage
import ScopeLint.Grammar.Definition
import ScopeLint.Report
import ScopeLint.Text.Utf8
import ScopeLint.Token.Event

/-!
# Runs of the program

What the program answers for a command line: its exit status and what it writes on its two outputs. All that a run
needs from outside is what is found under the path of its source. Findings go to the standard output; log records
and failures go to the error output, in the order in which they arise.
-/

namespace ScopeLint.CommandLine

/-- What is found under a path. -/
inductive PathContent where
  | nothing
  | directory
  | file (bytes : List UInt8)
  deriving DecidableEq

/-- What a run leaves behind. -/
structure Outcome where
  status : Nat
  stdout : String
  stderr : String
  deriving DecidableEq

/-- Something that a run writes on its error output. -/
inductive Notice where
  | record (record : Record)
  | line (text : String)
  deriving DecidableEq

/-- The text of a notice; a record is left out if its stage is set to a higher level. -/
def Notice.text (o : Options) : Notice → String
  | record r => if o.shows r then r.line ++ "\n" else ""
  | line text => text ++ "\n"

/-- A record of the program itself. -/
def programRecord (level : Level) (message : String) : Notice :=
  .record ⟨.program, level, message⟩

/-- Why a run comes to no report. -/
inductive RunFailure where
  | syntactic (failure : ReadFailure)
  | analysis (failure : CheckFailure)
  | unreadable (message : String)

/-- The words for a failure to read a token list. -/
def readFailureMessage : ReadFailure → String
  | .fault f => f.message
  | .noToken => "no token"
  | .endless => "no end of input"

/-- What a run writes about its failure. -/
def RunFailure.notices : RunFailure → List Notice
  | syntactic failure =>
    let message := readFailureMessage failure
    [programRecord .critical ("ParseError: " ++ message), .line ("Error: " ++ message)]
  | analysis failure =>
    [programRecord .critical ("AnalysisError: " ++ failure.message), .line ("Error: " ++ failure.message)]
  | unreadable message =>
    let words := "An unexpected error occurred: " ++ message
    [programRecord .critical (words ++ "\n<traceback>"), .line words]

/-- The events of a stage, as notices. -/
def withNotices {ε α : Type} (record : ε → Record) (x : Logged ε α) : Logged Notice α :=
  ⟨x.events.map fun e => .record (record e), x.value⟩

/-- Checks a text: its tokens, its module, its diagnostics. -/
def checkText (text : List Char) : Logged Notice (Except RunFailure (List Diagnostic)) := do
  Logged.note (programRecord .info "Starting Lexing...")
  let tokens ← withNotices ScanEvent.record ⟨scanEvents text, tokenize text⟩
  Logged.note (programRecord .info "Starting Parsing...")
  match ← withNotices ReadEvent.record (Grammar.wholeModule.onTokens tokens) with
  | .error failure => return .error (.syntactic failure)
  | .ok (m, _) =>
    Logged.note (programRecord .info "Starting Semantic Analysis...")
    match ← withNotices CheckEvent.record m.check with
    | .error failure => return .error (.analysis failure)
    | .ok found => return .ok found

/-- The text of a file, or why it has none. -/
def sourceText (path : String) : PathContent → Except RunFailure (List Char)
  | .file bytes =>
    match Text.decodeUtf8 bytes with
    | .ok cs => .ok (Text.unifyLineEnds cs)
    | .error fault => .error (.unreadable fault.message)
  | .directory => .error (.unreadable ("[Errno 21] Is a directory: " ++ Text.quote path))
  | .nothing => .error (.unreadable ("[Errno 2] No such file or directory: " ++ Text.quote path))

/-- Checks the source that the options name, or the demo module. -/
def checkSource (o : Options) (content : PathContent) : Logged Notice (Except RunFailure (List Diagnostic)) :=
  match o.source with
  | none => do
    Logged.note (programRecord .info "No source file given, checking the demo module")
    checkText demoSource.toList
  | some path =>
    match sourceText path content with
    | .ok text => checkText text
    | .error failure => .silent (.error failure)

/-- The outcome of a check: the report, and a status that tells whether an error was found; or the failure. -/
def outcomeOf (o : Options) (checked : Logged Notice (Except RunFailure (List Diagnostic))) : Outcome :=
  let noticed (notices : List Notice) : String := String.join (notices.map (Notice.text o))
  match checked.value with
  | .ok found =>
    let status := if found.any (fun d => d.severity == .error) then 1 else 0
    ⟨status, Report.text o.color found, noticed checked.events⟩
  | .error failure => ⟨1, "", noticed (checked.events ++ failure.notices)⟩

/-- The outcome of a run with options, given what is found under the path of its source. -/
def runWith (o : Options) (content : PathContent) : Outcome :=
  match o.source, content with
  | some path, .nothing => ⟨1, "", "Error: Input file not found: " ++ path ++ "\n"⟩
  | _, _ => outcomeOf o (checkSource o content)

/-- The path under which a command line wants something to be found, if it asks for a check of a source. -/
def sourceOf (arguments : List String) : Option String :=
  match readArguments arguments with
  | .ok (.run o) => o.source
  | _ => none

/-- The outcome of a command line, given what is found under the path of its source. -/
def run (arguments : List String) (content : PathContent) : Outcome :=
  match readArguments arguments with
  | .error fault => ⟨2, "", usageFaultText fault⟩
  | .ok .help => ⟨0, help, ""⟩
  | .ok (.run o) => runWith o content

end ScopeLint.CommandLine
