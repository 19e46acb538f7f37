import ScopeLint.Grammar.Cursor
import ScopeLint.Grammar.Event
import ScopeLint.Grammar.Fault

/-!
# Readings

A reading starts from a cursor and gives an answer with the cursor behind what it has read, or fails; on the way it
tells events. The rules of the grammar are readings, made of the few below: looking at the current token, passing
over it, failing at it, and repeating a round until it says that it was the last (`Reading.collect`).
-/

namespace ScopeLint

/-- A reading of a token list from a cursor on. -/
def Reading (α : Type) : Type :=
  Cursor → Logged ReadEvent (Except ReadFailure (α × Cursor))

namespace Reading

variable {α β : Type}

/-- The answer of a reading, or its failure, without the events. -/
def run (r : Reading α) (c : Cursor) : Except ReadFailure (α × Cursor) :=
  (r c).value

/-- Reads nothing. -/
def answer (a : α) : Reading α :=
  fun c => .silent (.ok (a, c))

/-- Reads on behind what a reading has read. -/
def andThen (r : Reading α) (f : α → Reading β) : Reading β :=
  fun c => (r c).andThen fun
    | .ok (a, d) => f a d
    | .error failure => .silent (.error failure)

instance : Monad Reading where
  pure := answer
  bind := andThen

/-- Fails. -/
def failing (failure : ReadFailure) : Reading α :=
  fun _ => .silent (.error failure)

/-- Tells an event. -/
def note (event : ReadEvent) : Reading Unit :=
  fun c => ⟨[event], .ok ((), c)⟩

/-- The cursor. -/
def cursor : Reading Cursor :=
  fun c => .silent (.ok (c, c))

@[simp] theorem run_pure (a : α) (c : Cursor) : (pure a : Reading α).run c = .ok (a, c) := rfl

theorem run_bind (r : Reading α) (f : α → Reading β) (c : Cursor) :
    (r >>= f).run c = (r.run c).bind fun answer => (f answer.1).run answer.2 := by
  show (andThen r f c).value = _
  simp only [andThen, Logged.andThen, run]
  split <;> simp_all [Except.bind, Logged.silent]

@[simp] theorem run_failing (failure : ReadFailure) (c : Cursor) :
    (failing failure : Reading α).run c = .error failure := rfl

@[simp] theorem run_note (event : ReadEvent) (c : Cursor) : (note event).run c = .ok ((), c) := rfl

@[simp] theorem run_cursor (c : Cursor) : cursor.run c = .ok (c, c) := rfl

/-- The current token. -/
def current : Reading Token :=
  return (← cursor).current

/-- Fails with a cause at the current token. -/
def fail (cause : FaultCause) : Reading α := do
  let c ← cursor
  failing (.fault ⟨cause, c.current, c.index⟩)

/-- Fails with a cause at the token before the current one. -/
def failBefore (cause : FaultCause) : Reading α := do
  let c ← cursor
  failing (.fault ⟨cause, c.previous, c.index - 1⟩)

/-- Whether the current token is of a kind. -/
def sees (kind : TokenKind) : Reading Bool :=
  return (← current).is kind none

/-- Whether the current token is of a kind and has a value. -/
def seesWord (kind : TokenKind) (value : String) : Reading Bool :=
  return (← current).is kind (some value)

/-- Whether the token behind the current one is of a kind. -/
def seesNext (kind : TokenKind) : Reading Bool :=
  return (← cursor).next?.any (fun t => t.is kind none)

/-- Passes over the current token. -/
def advance : Reading Token :=
  fun c => .silent (.ok (c.current, c.advance))

/-- Passes over the current token if it is of a kind, and says whether it was. -/
def accepts (kind : TokenKind) : Reading Bool := do
  if ← sees kind then
    let _ ← advance
    return true
  else return false

/-- Passes over the current token if it is of a kind and has a value, and says whether it was so. -/
def acceptsWord (kind : TokenKind) (value : String) : Reading Bool := do
  if ← seesWord kind value then
    let _ ← advance
    return true
  else return false

/-- What a reading reads behind a mark, if the mark is accepted. -/
def behind (mark : Reading Bool) (r : Reading α) : Reading (Option α) := do
  if ← mark then return some (← r) else return none

/-- Passes over the token that has to stand here. An invalid token is told as such, whatever was expected. -/
def expect (expectation : Expectation) : Reading Token := do
  let t ← current
  if t.kind = .invalid then fail .invalidToken
  else if t.is expectation.kind expectation.value then advance
  else fail (.missing expectation)

/-- The value of a token, which has to have one. -/
def valueOf (t : Token) : Reading String :=
  match t.value with
  | some value => return value
  | none => failing .noToken

/-- Tells that a rule is entered, and with what it is left. -/
def traced (rule : Rule) (product : α → Product) (r : Reading α) : Reading α := do
  note (.entered rule)
  let a ← r
  note (.left rule (product a))
  return a

@[simp] theorem run_traced (rule : Rule) (product : α → Product) (r : Reading α) (c : Cursor) :
    (traced rule product r).run c = r.run c := by
  simp only [traced, run_bind, run_note, run_pure, Except.bind]
  cases r.run c <;> rfl

/-- What a round of a repeated reading says: there was nothing more to read, or it has read the last item, or it
has read an item and there may be more. -/
inductive Round (α : Type) where
  | stop
  | last (item : α)
  | more (item : α)

/-- Reads items round by round, for a number of rounds at most. -/
def collectFor (round : Reading (Round α)) : Nat → Reading (List α)
  | 0 => failing .endless
  | rounds + 1 => do
    match ← round with
    | .stop => return []
    | .last item => return [item]
    | .more item => return item :: (← collectFor round rounds)

/-- Reads items round by round. Every round that reads an item passes over a token, so the rounds come to an end
unless the list has none. -/
def collect (round : Reading (Round α)) : Reading (List α) := do
  collectFor round (← cursor).reach

/-- Items up to a closing brace, which is not read; the end of the input before it is a fault. -/
def upToBrace (unfinished : FaultCause) (item : Reading α) : Reading (List α) :=
  collect do
    if ← sees .rightBrace then return .stop
    else if ← sees .endOfInput then fail unfinished
    else return .more (← item)

/-- Items with commas between them up to a closing token, which is not read. A comma may stand behind the last
item. -/
def commaList (item : Reading α) (closing : TokenKind) : Reading (List α) :=
  collect do
    if ← sees closing then return .stop
    else
      let a ← item
      if ← accepts .comma then return .more a else return .last a

/-- One item or more, read by the second reading where the separator was accepted. -/
def separated (first : Reading α) (separator : Reading Bool) (item : Reading α) : Reading (List α) := do
  let a ← first
  let rest ← collect do
    if ← separator then return .more (← item) else return .stop
  return a :: rest

end Reading

end ScopeLint
