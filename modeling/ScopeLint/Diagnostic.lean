import ScopeLint.Text.Quoted

/-!
# Diagnostics

What a check finds. A diagnostic has a severity and a message; it does not say where in the text it was found.
-/

namespace ScopeLint

/-- How bad a finding is. -/
inductive Severity where
  | warning
  | error
  deriving DecidableEq

/-- The word for a severity. -/
def Severity.word : Severity → String
  | warning => "warning"
  | error => "error"

/-- A finding. -/
structure Diagnostic where
  severity : Severity
  message : String
  deriving DecidableEq

namespace Diagnostic

/-- A name was referred to where no open scope binds it. -/
def undefined (name : String) : Diagnostic :=
  ⟨.error, "`" ++ name ++ "` not defined"⟩

/-- The scope of a name was closed and nothing had referred to it. -/
def unused (name : String) : Diagnostic :=
  ⟨.warning, "`" ++ name ++ "` never used"⟩

/-- The debug text of a diagnostic. -/
def describe (d : Diagnostic) : String :=
  (match d.severity with
    | .warning => "Warning("
    | .error => "Error(") ++ Text.quote d.message ++ ")"

end Diagnostic

end ScopeLint
