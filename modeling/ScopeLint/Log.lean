/-!
# Log records

Each stage of a check tells what it does in records, and each record has a level. A stage returns its records
beside its answer (`Logged`), in the order in which they arise; nothing that a stage decides can depend on the
records that it has written.
-/

namespace ScopeLint

/-- How much a record matters, the least first. -/
inductive Level where
  | debug
  | info
  | warning
  | error
  | critical
  deriving DecidableEq

namespace Level

/-- The place of a level in the order of levels. -/
def rank : Level → Nat
  | debug => 10
  | info => 20
  | warning => 30
  | error => 40
  | critical => 50

/-- The word for a level, in records and on the command line. -/
def word : Level → String
  | debug => "DEBUG"
  | info => "INFO"
  | warning => "WARNING"
  | error => "ERROR"
  | critical => "CRITICAL"

/-- All levels, the least first. -/
def all : List Level :=
  [debug, info, warning, error, critical]

/-- The level that a word names. -/
def ofWord? (word : String) : Option Level :=
  all.find? (fun level => level.word == word)

end Level

/-- The stages that write records. -/
inductive Stage where
  | program
  | lexer
  | parser
  | checker
  deriving DecidableEq

/-- The name that a stage signs its records with. -/
def Stage.name : Stage → String
  | .program => "glint.cli"
  | .lexer => "glint.lexer"
  | .parser => "glint.parser"
  | .checker => "semantic"

/-- One record of a stage. -/
structure Record where
  stage : Stage
  level : Level
  message : String
  deriving DecidableEq

/-- The line that shows a record: level, stage and message between colons. -/
def Record.line (r : Record) : String :=
  r.level.word ++ ":" ++ r.stage.name ++ ":" ++ r.message

/-- An answer together with the events that arose on the way to it, the first one first. -/
structure Logged (ε : Type) (α : Type) where
  events : List ε
  value : α

namespace Logged

variable {ε : Type} {α β : Type}

/-- The answer alone, without an event. -/
def silent (value : α) : Logged ε α :=
  ⟨[], value⟩

/-- One event and no answer. -/
def note (event : ε) : Logged ε Unit :=
  ⟨[event], ()⟩

/-- First the one, then what follows from its answer; the events in that order. -/
def andThen (x : Logged ε α) (f : α → Logged ε β) : Logged ε β :=
  ⟨x.events ++ (f x.value).events, (f x.value).value⟩

instance : Monad (Logged ε) where
  pure := silent
  bind := andThen

@[simp] theorem value_pure (a : α) : (pure a : Logged ε α).value = a := rfl

@[simp] theorem events_pure (a : α) : (pure a : Logged ε α).events = [] := rfl

@[simp] theorem value_bind (x : Logged ε α) (f : α → Logged ε β) : (x >>= f).value = (f x.value).value := rfl

@[simp] theorem events_bind (x : Logged ε α) (f : α → Logged ε β) :
    (x >>= f).events = x.events ++ (f x.value).events := rfl

@[simp] theorem value_note (event : ε) : (note event).value = () := rfl

@[simp] theorem events_note (event : ε) : (note event).events = [event] := rfl

end Logged

end ScopeLint
