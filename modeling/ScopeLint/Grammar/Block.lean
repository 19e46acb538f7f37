import ScopeLint.Grammar.Ascription
import ScopeLint.Grammar.Pattern

/-!
# Statements and blocks

The rules for statements, for blocks, and for the parameters of functions. Statements hold expressions and
expressions hold blocks, so these rules take the reading of an expression as an argument.
-/

namespace ScopeLint.Grammar

open Reading

/-- The ascription behind a token of some kind, if there is such a token. -/
def ascriptionBehind (mark : TokenKind) (stops : List TokenKind) : Reading (Option String) :=
  behind (accepts mark) (ascription stops)

/-- A binding statement. -/
def assignment (expression : Reading Node) : Reading Node :=
  traced .assignment .node do
    let t ← advance
    let asserted ← acceptsWord .keyword "assert"
    let pattern ← pattern
    let ascription ← ascriptionBehind .colon [.equal]
    let _ ← expect .bindingSign
    return .assignment t.anchor pattern (← expression) asserted ascription

/-- A pattern of a use statement; its ascription is not kept. -/
def usePattern : Reading Node := do
  let pattern ← pattern
  let _ ← ascriptionBehind .colon [.comma, .leftArrow]
  return pattern

/-- A use statement. -/
def use (expression : Reading Node) : Reading Node :=
  traced .use .node do
    let t ← advance
    let patterns ← commaList usePattern .leftArrow
    let _ ← expect .useArrow
    return .use t.anchor patterns (← expression)

/-- A statement, told from others by its first word. -/
def statement (expression : Reading Node) : Reading Node := do
  let t ← current
  if t.is .keyword (some "let") then assignment expression
  else if t.is .keyword (some "use") then use expression
  else return .expression t.anchor (← expression)

/-- The statements of a block in its braces. -/
def block (expression : Reading Node) : Reading (List Node) :=
  traced .block .nodes do
    let _ ← expect .blockStart
    let statements ← upToBrace .blockUnfinished (statement expression)
    let _ ← expect .blockEnd
    return statements

/-- The name that may stand here. -/
def name? : Reading (Option Token) := do
  if ← sees .name then return some (← advance) else return none

/-- A parameter of a function: a name, perhaps with a label before it and an ascription behind it. -/
def parameter : Reading Node := do
  let first ← expect .parameterName
  let second ← name?
  let ascription ← ascriptionBehind .colon [.comma, .rightParen]
  match second with
  | some name => return .parameter first.anchor name.text (some first.text) ascription
  | none => return .parameter first.anchor first.text none ascription

end ScopeLint.Grammar
