import ScopeLint.Check.Event

/-!
# Checking steps

A checking step works on a scope state, gives an answer or fails, and tells events. A step that fails still leaves
a state behind. A scope that a step runs in (`Checking.inScope`) is closed behind it in any case.
-/

namespace ScopeLint

/-- A step of a check. -/
def Checking (α : Type) : Type :=
  ScopeState → Logged CheckEvent (Except CheckFailure α × ScopeState)

namespace Checking

variable {α β : Type}

/-- The answer of a step and the state behind it, without the events. -/
def run (c : Checking α) (s : ScopeState) : Except CheckFailure α × ScopeState :=
  (c s).value

/-- Changes nothing. -/
def answer (a : α) : Checking α :=
  fun s => .silent (.ok a, s)

/-- Goes on behind a step that has not failed. -/
def andThen (c : Checking α) (f : α → Checking β) : Checking β :=
  fun s => (c s).andThen fun
    | (.ok a, s) => f a s
    | (.error failure, s) => .silent (.error failure, s)

instance : Monad Checking where
  pure := answer
  bind := andThen

/-- Fails. -/
def fail (failure : CheckFailure) : Checking α :=
  fun s => .silent (.error failure, s)

/-- Tells an event. -/
def note (event : CheckEvent) : Checking Unit :=
  fun s => ⟨[event], (.ok (), s)⟩

/-- The state. -/
def state : Checking ScopeState :=
  fun s => .silent (.ok s, s)

/-- Changes the state. -/
def change (f : ScopeState → ScopeState) : Checking Unit :=
  fun s => .silent (.ok (), f s)

/-- Changes the state by a function that may fail, and then changes nothing. -/
def attempt (f : ScopeState → Except CheckFailure ScopeState) : Checking Unit :=
  fun s =>
    match f s with
    | .ok t => .silent (.ok (), t)
    | .error failure => .silent (.error failure, s)

@[simp] theorem run_pure (a : α) (s : ScopeState) : (pure a : Checking α).run s = (.ok a, s) := rfl

theorem run_bind (c : Checking α) (f : α → Checking β) (s : ScopeState) :
    (c >>= f).run s =
      match c.run s with
      | (.ok a, t) => (f a).run t
      | (.error failure, t) => (.error failure, t) := by
  show (andThen c f s).value = _
  simp only [andThen, Logged.andThen, run]
  split <;> simp_all [Logged.silent]

@[simp] theorem run_fail (failure : CheckFailure) (s : ScopeState) :
    (fail failure : Checking α).run s = (.error failure, s) := rfl

@[simp] theorem run_note (event : CheckEvent) (s : ScopeState) : (note event).run s = (.ok (), s) := rfl

@[simp] theorem run_state (s : ScopeState) : state.run s = (.ok s, s) := rfl

@[simp] theorem run_attempt (f : ScopeState → Except CheckFailure ScopeState) (s : ScopeState) :
    (attempt f).run s =
      match f s with
      | .ok t => (.ok (), t)
      | .error failure => (.error failure, s) := by
  simp only [attempt, run]
  split <;> rfl

@[simp] theorem run_change (f : ScopeState → ScopeState) (s : ScopeState) : (change f).run s = (.ok (), f s) := rfl

/-- Adds a diagnostic. -/
def report (d : Diagnostic) : Checking Unit := do
  note (.reported d)
  change (.report d)

/-- Binds a name in the innermost scope. -/
def declare (name : String) (visibility : Visibility) : Checking Unit := do
  let s ← state
  attempt (ScopeState.declare name visibility)
  note (.declared name visibility (s.depth - 1))

/-- Counts a reference to a name, and says whether an open scope binds it. -/
def refer (name : String) : Checking Bool := do
  match (← state).refer? name with
  | some (binding, s) =>
    change fun _ => s
    note (.referred binding)
    return true
  | none =>
    note (.unresolved name)
    return false

/-- Closes the innermost scope and, if asked to, reports its unused names. -/
def close (description : String) (checked : Bool) : Checking Unit := do
  let s ← state
  attempt (ScopeState.close checked)
  note (.closed (s.depth - 1))
  if checked then
    note (.scanned description)
    (s.scopes.headD []).unusedNames.forM fun name => note (.reported (.unused name))

/-- Runs a step in a scope of its own. The scope is closed behind the step even if it fails; a failure to close the
scope hides the failure of the step. -/
def inScope (description : String) (checked : Bool) (c : Checking α) : Checking α := fun s =>
  let ran := (do note (.opened s.depth); change .push; c : Checking α) s
  let closed := close description checked ran.value.2
  let result := match closed.value.1 with
    | .ok () => ran.value.1
    | .error failure => .error failure
  ⟨ran.events ++ closed.events, (result, closed.value.2)⟩

@[simp] theorem run_report (d : Diagnostic) (s : ScopeState) : (report d).run s = (.ok (), s.report d) := rfl

theorem run_declare (name : String) (visibility : Visibility) (s : ScopeState) :
    (declare name visibility).run s =
      match s.declare name visibility with
      | .ok t => (.ok (), t)
      | .error failure => (.error failure, s) := by
  simp only [declare, run_bind, run_state, run_attempt, run_note]
  cases s.declare name visibility <;> rfl

theorem run_refer (name : String) (s : ScopeState) :
    (refer name).run s =
      match s.refer? name with
      | some (_, t) => (.ok true, t)
      | none => (.ok false, s) := by
  simp only [refer, run_bind, run_state]
  cases s.refer? name <;> rfl

private theorem run_forM_note (events : String → CheckEvent) (names : List String) (s : ScopeState) :
    (names.forM fun name => note (events name)).run s = (.ok (), s) := by
  induction names with
  | nil => rfl
  | cons name names ih => simpa [List.forM_cons, run_bind] using ih

theorem run_close (description : String) (checked : Bool) (s : ScopeState) :
    (close description checked).run s =
      match s.close checked with
      | .ok t => (.ok (), t)
      | .error failure => (.error failure, s) := by
  simp only [close, run_bind, run_state, run_attempt]
  cases s.close checked with
  | error failure => rfl
  | ok t =>
    cases checked with
    | false => rfl
    | true =>
      simp only [run_note, reduceIte, run_bind]
      exact run_forM_note (fun name => .reported (.unused name)) _ t

/-- A step in a scope of its own works on the state with one more scope, which is closed behind it. -/
theorem run_inScope (description : String) (checked : Bool) (c : Checking α) (s : ScopeState) :
    (inScope description checked c).run s =
      match (c.run s.push).2.close checked with
      | .ok u => ((c.run s.push).1, u)
      | .error failure => (.error failure, (c.run s.push).2) := by
  have hran : (do note (.opened s.depth); change .push; c : Checking α).run s = c.run s.push := by
    simp [run_bind]
  simp only [run] at hran ⊢
  simp only [inScope, hran]
  have hclose := run_close description checked (c s.push).value.2
  simp only [run] at hclose
  rw [hclose]
  cases (c s.push).value.2.close checked <;> rfl

end Checking

end ScopeLint
