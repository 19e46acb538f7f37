import ScopeLint.Diagnostic
import ScopeLint.Scope.Binding

/-!
# Scope states

The open scopes at a moment of a check, the innermost first, with the diagnostics found so far. A name means the
binding of the innermost open scope that binds it.
-/

namespace ScopeLint

/-- Why a check has no answer. -/
inductive CheckFailure where
  /-- A scope was to be closed where none was open. -/
  | nothingToClose
  /-- A name was to be bound where no scope was open. -/
  | nowhereToDeclare (name : String)
  /-- There is no rule for a node of its kind. -/
  | noRule (kind : String) (anchor : Anchor)
  /-- A checker was used a second time. -/
  | alreadyUsed
  deriving DecidableEq

/-- A message with the place that it is about, if both its line and its column are known. -/
def messageAt (message : String) (anchor : Anchor) : String :=
  match anchor.line, anchor.column with
  | some line, some column => message ++ " (at " ++ toString line ++ ":" ++ toString column ++ ")"
  | _, _ => message

/-- The words for a failure. -/
def CheckFailure.message : CheckFailure → String
  | nothingToClose => "Attempted to pop a scope from an empty scope stack"
  | nowhereToDeclare name => "Attempted to declare '" ++ name ++ "' with no open scope"
  | noRule kind anchor => messageAt ("No analysis rule for node type: " ++ kind) anchor
  | alreadyUsed => "SemanticAnalyzer instances are single use"

/-- The open scopes, the innermost first, and the diagnostics found, the first one first. -/
structure ScopeState where
  scopes : List Scope
  diagnostics : List Diagnostic
  deriving DecidableEq

namespace ScopeState

/-- No scope is open and nothing was found. -/
def initial : ScopeState :=
  ⟨[], []⟩

/-- How many scopes are open. -/
def depth (s : ScopeState) : Nat :=
  s.scopes.length

/-- Opens a scope inside all others. -/
def push (s : ScopeState) : ScopeState :=
  { s with scopes := [] :: s.scopes }

/-- Closes the innermost scope. -/
def pop (s : ScopeState) : Except CheckFailure (Scope × ScopeState) :=
  match s.scopes with
  | [] => .error .nothingToClose
  | scope :: scopes => .ok (scope, { s with scopes := scopes })

/-- Binds a name in the innermost scope. -/
def declare (name : String) (visibility : Visibility) (s : ScopeState) : Except CheckFailure ScopeState :=
  match s.scopes with
  | [] => .error (.nowhereToDeclare name)
  | scope :: scopes => .ok { s with scopes := scope.declare name visibility :: scopes }

/-- Counts a reference in the innermost of some scopes that binds the name. -/
def referIn? (name : String) : List Scope → Option (Binding × List Scope)
  | [] => none
  | scope :: scopes =>
    match scope.refer? name with
    | some (found, scope) => some (found, scope :: scopes)
    | none => (referIn? name scopes).map fun (found, scopes) => (found, scope :: scopes)

/-- Counts a reference to a name, if an open scope binds it. -/
def refer? (name : String) (s : ScopeState) : Option (Binding × ScopeState) :=
  (referIn? name s.scopes).map fun (found, scopes) => (found, { s with scopes := scopes })

/-- Some open scope binds a name. -/
def binds (s : ScopeState) (name : String) : Bool :=
  s.scopes.any (fun scope => scope.binds name)

/-- Adds a diagnostic behind those found before. -/
def report (d : Diagnostic) (s : ScopeState) : ScopeState :=
  { s with diagnostics := s.diagnostics ++ [d] }

/-- Adds the diagnostics for the unused names of a scope that was closed. -/
def reportUnused (scope : Scope) (s : ScopeState) : ScopeState :=
  { s with diagnostics := s.diagnostics ++ scope.unusedNames.map Diagnostic.unused }

/-- Closes the innermost scope and, if asked to, reports its unused names. -/
def close (checked : Bool) (s : ScopeState) : Except CheckFailure ScopeState :=
  s.pop.map fun (scope, s) => if checked then s.reportUnused scope else s

end ScopeState

end ScopeLint
