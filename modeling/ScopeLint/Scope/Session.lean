import ScopeLint.Scope.State

/-!
# Scope sessions

A session drives a scope state step by step. Beside opening and closing scopes by hand it can enter a scope, to be
left later. Leaving closes whatever scope is then the innermost one, and reports its unused names if that was asked
for on entering; it makes no difference whether the scope is left because its work is done or because it failed.
-/

namespace ScopeLint

/-- A step of a session. -/
inductive ScopeStep where
  | push
  | pop
  | declare (name : String) (visibility : Visibility)
  | refer (name : String)
  | binds (name : String)
  | depth
  | report (diagnostic : Diagnostic)
  | enter (checked : Bool)
  | leave
  deriving DecidableEq

/-- What a step answers. -/
inductive ScopeAnswer where
  | done
  | scope (scope : Scope)
  | truth (truth : Bool)
  | count (count : Nat)
  deriving DecidableEq

/-- A scope state, and for each scope entered and not yet left, the latest first, whether to check it. -/
structure ScopeSession where
  state : ScopeState
  entered : List Bool
  deriving DecidableEq

namespace ScopeSession

/-- A session in which nothing was done. -/
def initial : ScopeSession :=
  ⟨.initial, []⟩

/-- What a step answers, and the session behind it. A step that fails changes no scope and no diagnostic. -/
def perform (s : ScopeSession) : ScopeStep → Except CheckFailure ScopeAnswer × ScopeSession
  | .push => (.ok .done, { s with state := s.state.push })
  | .pop =>
    match s.state.pop with
    | .ok (scope, state) => (.ok (.scope scope), { s with state := state })
    | .error failure => (.error failure, s)
  | .declare name visibility =>
    match s.state.declare name visibility with
    | .ok state => (.ok .done, { s with state := state })
    | .error failure => (.error failure, s)
  | .refer name =>
    match s.state.refer? name with
    | some (_, state) => (.ok (.truth true), { s with state := state })
    | none => (.ok (.truth false), s)
  | .binds name => (.ok (.truth (s.state.binds name)), s)
  | .depth => (.ok (.count s.state.depth), s)
  | .report d => (.ok .done, { s with state := s.state.report d })
  | .enter checked => (.ok .done, ⟨s.state.push, checked :: s.entered⟩)
  | .leave =>
    match s.entered with
    | [] => (.ok (.truth false), s)
    | checked :: entered =>
      match s.state.close checked with
      | .ok state => (.ok (.truth false), ⟨state, entered⟩)
      | .error failure => (.error failure, ⟨s.state, entered⟩)

end ScopeSession

end ScopeLint
