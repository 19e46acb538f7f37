import ScopeLint.Token.Basic
import ScopeLint.Tree.Node

/-!
# Cursors

A cursor stands on one token of a list that is not empty. It moves forward only, and it stays on the last token
for ever: a list goes on as if its last token were repeated without end.
-/

namespace ScopeLint

/-- A token list with a token of it singled out: the tokens before it, the nearest first, and those behind it. -/
structure Cursor where
  before : List Token
  current : Token
  after : List Token
  deriving DecidableEq

namespace Cursor

/-- The cursor on the first token, if there is one. -/
def ofTokens? : List Token → Option Cursor
  | [] => none
  | t :: ts => some ⟨[], t, ts⟩

/-- The whole list. -/
def tokens (c : Cursor) : List Token :=
  c.before.reverse ++ c.current :: c.after

/-- How many tokens stand before the cursor. -/
def index (c : Cursor) : Nat :=
  c.before.length

/-- The cursor one token further on. -/
def advance (c : Cursor) : Cursor :=
  match c.after with
  | [] => c
  | t :: ts => ⟨c.current :: c.before, t, ts⟩

/-- The token behind the current one. -/
def next? (c : Cursor) : Option Token :=
  c.after.head?

/-- The token before the current one, or the current one if it is the first. -/
def previous (c : Cursor) : Token :=
  c.before.head?.getD c.current

/-- A number of steps that no reading from here can need more than: one for each token ahead, one for the current
token, and one to spare. -/
def reach (c : Cursor) : Nat :=
  c.after.length + 2

theorem tokens_advance (c : Cursor) : c.advance.tokens = c.tokens := by
  obtain ⟨before, current, after⟩ := c
  cases after <;> simp [advance, tokens]

end Cursor

/-- Where a token stands. -/
def Token.anchor (t : Token) : Anchor :=
  ⟨some t.line, some t.column⟩

end ScopeLint
