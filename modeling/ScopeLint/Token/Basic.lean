import ScopeLint.Text.Quoted
import ScopeLint.Token.Kind

/-!
# Tokens

A token has a kind, a value, the line and column where it starts, and the range of the text that it covers. Token
lists may be made by hand, so the numbers are whatever their maker wrote: nothing here relies on their order.
-/

namespace ScopeLint

/-- A token. The mark at the end of the input has no value. -/
structure Token where
  kind : TokenKind
  value : Option String
  line : Int
  column : Int
  start : Int
  stop : Int
  deriving DecidableEq

namespace Token

/-- The value as text; a token without a value spells nothing. -/
def text (t : Token) : String :=
  t.value.getD ""

/-- The value between quotation marks, or a word for its absence. -/
def quotedValue (t : Token) : String :=
  match t.value with
  | some value => Text.quote value
  | none => "None"

/-- Line and column with a colon between them. -/
def placeText (t : Token) : String :=
  toString t.line ++ ":" ++ toString t.column

/-- The text that shows a token: its label, its quoted value unless it ends the input, and its place. -/
def describe (t : Token) : String :=
  if t.kind = .endOfInput then t.kind.label ++ "(@" ++ t.placeText ++ ")"
  else t.kind.label ++ "(" ++ t.quotedValue ++ " @" ++ t.placeText ++ ")"

/-- The token is of the kind and, if a value is asked for, has it. -/
def is (t : Token) (kind : TokenKind) (value : Option String) : Bool :=
  t.kind == kind && (value.isNone || t.value == value)

end Token

end ScopeLint
