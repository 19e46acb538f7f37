import ScopeLint.Log
import ScopeLint.Scope.State

/-!
# What checking tells

The events that arise while a module is checked.
-/

namespace ScopeLint

/-- Something that checking tells. A level is the number of scopes around a scope. -/
inductive CheckEvent where
  | ready
  | started (functions : Nat)
  | finished (diagnostics : Nat)
  | opened (level : Nat)
  | closed (level : Nat)
  | declared (name : String) (visibility : Visibility) (level : Nat)
  | unresolved (name : String)
  | referred (binding : Binding)
  | reported (diagnostic : Diagnostic)
  | scanned (description : String)
  | visited (kind : String) (hasRule : Bool)
  | skipped (kind : String)
  | functionStarted (name : String)
  | functionFinished (name : String)
  | parameterDiscarded (name : String)
  deriving DecidableEq

/-- How much an event of checking matters. -/
def CheckEvent.level : CheckEvent → Level
  | started _ | finished _ => .info
  | _ => .debug

/-- The words for an event of checking. -/
def CheckEvent.message : CheckEvent → String
  | ready => "SemanticAnalyzer initialized."
  | started functions => "Starting semantic analysis of " ++ toString functions ++ " function(s)"
  | finished diagnostics => "Semantic analysis finished with " ++ toString diagnostics ++ " diagnostic(s)"
  | opened level => "Entering new scope (level " ++ toString level ++ ")"
  | closed level => "Exiting scope (level " ++ toString level ++ ")"
  | declared name visibility level =>
    "Declaring '" ++ name ++ "' (" ++ visibility.word ++ ") in scope level " ++ toString level
  | unresolved name => "Lookup of '" ++ name ++ "' failed"
  | referred binding => "Marked '" ++ binding.name ++ "' as used: " ++ binding.describe
  | reported diagnostic => "Reporting " ++ diagnostic.describe
  | scanned description => "Checking for unused bindings in " ++ description ++ "..."
  | visited kind hasRule =>
    "Visiting " ++ kind ++ " node using " ++ (if hasRule then "visit_" ++ kind else "generic_visit")
  | skipped kind => kind ++ " is outside the checked subset, skipping"
  | functionStarted name => "Analyzing Function: " ++ name
  | functionFinished name => "Finished analyzing Function: " ++ name
  | parameterDiscarded name => "Parameter '" ++ name ++ "' is discarded, not binding it"

/-- The record of an event of checking. -/
def CheckEvent.record (e : CheckEvent) : Record :=
  ⟨.checker, e.level, e.message⟩

end ScopeLint
