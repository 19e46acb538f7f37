import ScopeLint.Log
import ScopeLint.Text.Digit
import ScopeLint.Text.Quoted

/-!
# Options

The arguments of the command line. Each argument is first told by its spelling alone (`Word.ofArgument`): a switch,
perhaps shortened and perhaps with a value behind an equals sign, or a plain word. Then the words are taken from
left to right (`readWords`). A switch shortened so far that it could be two fails at once; all other faults come up
when their word is taken, and words that nothing takes are refused in the end, together.
-/

namespace ScopeLint.CommandLine

/-- A switch of the command line. -/
inductive Switch where
  | help
  | noColor
  | level
  | stageLevel (stage : Stage)
  deriving DecidableEq

/-- The spellings of switches, in the order in which usage shows them. -/
def spellings : List (String × Switch) :=
  [("-h", .help), ("--help", .help), ("--no-color", .noColor), ("--log-level", .level),
   ("--lexer-log-level", .stageLevel .lexer), ("--parser-log-level", .stageLevel .parser),
   ("--semantic-log-level", .stageLevel .checker)]

namespace Switch

/-- All spellings of a switch, with slashes between them. -/
def title (s : Switch) : String :=
  String.intercalate "/" ((spellings.filter fun entry => entry.2 == s).map Prod.fst)

/-- A switch that sets a level takes the word for it. -/
def takesValue : Switch → Bool
  | help | noColor => false
  | level | stageLevel _ => true

end Switch

/-- What is wrong with a command line. -/
inductive UsageFault where
  | ambiguous (argument : String) (candidates : List String)
  | valueRefused (switch : Switch) (value : String)
  | valueMissing (switch : Switch)
  | noSuchLevel (switch : Switch) (value : String)
  | unrecognized (arguments : List String)
  deriving DecidableEq

/-- The words for a fault of a switch. -/
def aboutSwitch (s : Switch) (message : String) : String :=
  "argument " ++ s.title ++ ": " ++ message

/-- The words for a fault. -/
def UsageFault.message : UsageFault → String
  | ambiguous argument candidates =>
    "ambiguous option: " ++ argument ++ " could match " ++ String.intercalate ", " candidates
  | valueRefused s value => aboutSwitch s ("ignored explicit argument " ++ Text.quote value)
  | valueMissing s => aboutSwitch s "expected one argument"
  | noSuchLevel s value =>
    aboutSwitch s ("invalid choice: " ++ Text.quote value ++ " (choose from "
      ++ String.intercalate ", " (Level.all.map fun level => Text.quote level.word) ++ ")")
  | unrecognized arguments => "unrecognized arguments: " ++ String.intercalate " " arguments

/-- An argument, told by its spelling. -/
inductive Word where
  /-- A word that is no switch. -/
  | plain (text : String)
  /-- Two dashes, behind which every word is plain. -/
  | separator
  /-- A switch and the value in the same argument, if it has one. -/
  | switch (switch : Switch) (value : Option String)
  /-- The short spelling of the switch for help, with more letters behind it. -/
  | cluster (letters : List Char)
  /-- A word that is spelled like a switch and is none. -/
  | strange (text : String)
  deriving DecidableEq

/-- The part before the first equals sign and the part behind it, if there is one. -/
def splitAtEquals (cs : List Char) : List Char × Option (List Char) :=
  match cs.dropWhile (· != '=') with
  | [] => (cs, none)
  | _ :: value => (cs.takeWhile (· != '='), some value)

/-- The decimal digits behind a minus sign, with a point among them or before them but not behind them. -/
def isMinusNumber : List Char → Bool
  | '-' :: cs =>
    match cs.dropWhile Text.isDecimal with
    | [] => !cs.isEmpty
    | '.' :: fraction => !fraction.isEmpty && fraction.all Text.isDecimal
    | _ => false
  | _ => false

/-- A negative number, perhaps with a line feed behind it. -/
def isNegativeNumber (cs : List Char) : Bool :=
  isMinusNumber cs || (cs.getLast? == some '\n' && isMinusNumber cs.dropLast)

/-- The word for a spelling of a switch and the value behind it. -/
def Word.ofSpelling (s : Switch) (spelling : String) (value : Option (List Char)) : Word :=
  match spelling, value with
  | "-h", some letters => .cluster letters
  | _, _ => .switch s (value.map String.ofList)

/-- A word that starts with a dash and is no whole spelling of a switch. -/
def Word.unlisted (argument : String) : Word :=
  let cs := argument.toList
  if isNegativeNumber cs || cs.contains ' ' then .plain argument else .strange argument

/-- A word that starts with two dashes and is no whole spelling of a switch: what it starts may be one spelling. -/
def Word.shortened (argument : String) : Except UsageFault Word :=
  let (head, value) := splitAtEquals argument.toList
  match spellings.filter fun entry => head.isPrefixOf entry.1.toList with
  | [] => .ok (.unlisted argument)
  | [entry] => .ok (Word.ofSpelling entry.2 entry.1 value)
  | entries => .error (.ambiguous argument (entries.map Prod.fst))

/-- A word that is no whole spelling of a switch, told by the character behind its first dash. -/
def Word.ofDashed (argument : String) : List Char → Except UsageFault Word
  | '-' :: _ => Word.shortened argument
  | 'h' :: letters => .ok (.cluster letters)
  | _ => .ok (.unlisted argument)

/-- An argument before any separator, told by its spelling. -/
def Word.ofArgument (argument : String) : Except UsageFault Word :=
  match argument.toList with
  | '-' :: c :: cs =>
    let (head, value) := splitAtEquals argument.toList
    match spellings.lookup argument, spellings.lookup (String.ofList head) with
    | some found, _ => .ok (.switch found none)
    | none, some found => .ok (Word.ofSpelling found (String.ofList head) value)
    | none, none => Word.ofDashed argument (c :: cs)
  | _ => .ok (.plain argument)

/-- The arguments, told by their spellings; behind the first separator all are plain. -/
def wordsOf : List String → Except UsageFault (List Word)
  | [] => .ok []
  | argument :: rest =>
    if argument = "--" then .ok (.separator :: rest.map .plain)
    else do return (← Word.ofArgument argument) :: (← wordsOf rest)

/-- What the command line sets. -/
structure Options where
  source : Option String
  color : Bool
  level : Level
  stageLevels : List (Stage × Level)
  deriving DecidableEq

namespace Options

/-- Nothing was set. -/
def initial : Options :=
  ⟨none, true, .warning, []⟩

/-- The least level at which the records of a stage are shown; the last setting wins. -/
def threshold (o : Options) (stage : Stage) : Level :=
  (o.stageLevels.lookup stage).getD o.level

/-- The record is shown. -/
def shows (o : Options) (r : Record) : Bool :=
  decide ((o.threshold r.stage).rank ≤ r.level.rank)

/-- What a switch with a level sets. -/
def withLevel (o : Options) (s : Switch) (level : Level) : Options :=
  match s with
  | .level => { o with level := level }
  | .stageLevel stage => { o with stageLevels := (stage, level) :: o.stageLevels }
  | _ => o

end Options

/-- What a command line asks for. -/
inductive Request where
  | help
  | run (options : Options)
  deriving DecidableEq

/-- The words taken so far: what they set, whether the source was among them, and those that nothing takes, the
last one first. -/
structure Taken where
  options : Options
  sourceTaken : Bool
  refused : List String

/-- Sets a level by its word. -/
def Taken.withLevelWord (t : Taken) (s : Switch) (word : String) : Except UsageFault Taken :=
  match Level.ofWord? word with
  | some level => .ok { t with options := t.options.withLevel s level }
  | none => .error (.noSuchLevel s word)

/-- Takes a word that is no switch: the first one is the source. -/
def Taken.withPlain (t : Taken) (text : String) : Taken :=
  if t.sourceTaken then { t with refused := text :: t.refused }
  else { t with options := { t.options with source := some text }, sourceTaken := true }

/-- Takes words from left to right. A separator is dropped beside the source, and is refused where the source was
taken before. -/
def readWords (t : Taken) : List Word → Except UsageFault Request
  | [] => if t.refused.isEmpty then .ok (.run t.options) else .error (.unrecognized t.refused.reverse)
  | .plain text :: .separator :: rest =>
    if t.sourceTaken then readWords { t with refused := "--" :: text :: t.refused } rest
    else readWords (t.withPlain text) rest
  | .plain text :: rest => readWords (t.withPlain text) rest
  | .separator :: rest =>
    if t.sourceTaken then readWords { t with refused := "--" :: t.refused } rest else readWords t rest
  | .strange text :: rest => readWords { t with refused := text :: t.refused } rest
  | .cluster letters :: _ =>
    if letters ≠ [] ∧ letters.all (· == 'h') then .ok .help
    else .error (.valueRefused .help (String.ofList (letters.dropWhile (· == 'h'))))
  | .switch .help none :: _ => .ok .help
  | .switch .noColor none :: rest => readWords { t with options := { t.options with color := false } } rest
  | .switch s (some value) :: rest =>
    if s.takesValue then do readWords (← t.withLevelWord s value) rest else .error (.valueRefused s value)
  | .switch s none :: .plain value :: rest => do readWords (← t.withLevelWord s value) rest
  | .switch s none :: _ => .error (.valueMissing s)

/-- What the arguments of a command line ask for. -/
def readArguments (arguments : List String) : Except UsageFault Request := do
  readWords ⟨.initial, false, []⟩ (← wordsOf arguments)

end ScopeLint.CommandLine
