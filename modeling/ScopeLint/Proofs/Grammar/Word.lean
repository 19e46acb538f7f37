import ScopeLint.Token.Lexeme
import ScopeLint.Proofs.Tree.Standing

/-!
# Words

What a token says, apart from its place, and how it is written.
-/

namespace ScopeLint

/-- What a token says: its kind and its value.  Where it stands is left out. -/
structure Word where
  kind : TokenKind
  text : String
  deriving DecidableEq

/-- What the token says. -/
def Token.word (t : Token) : Word :=
  ⟨t.kind, t.text⟩

/-- The only value of a mark of punctuation. -/
def TokenKind.sign : TokenKind → String
  | leftParen => "("
  | rightParen => ")"
  | leftBrace => "\x7b"
  | rightBrace => "\x7d"
  | leftBracket => "["
  | rightBracket => "]"
  | comma => ","
  | colon => ":"
  | dot => "."
  | dotDot => ".."
  | hash => "#"
  | bar => "|"
  | equal => "="
  | rightArrow => "->"
  | leftArrow => "<-"
  | bang => "!"
  | _ => ""

namespace Word

/-- A mark of punctuation. -/
def mark (kind : TokenKind) : Word :=
  ⟨kind, kind.sign⟩

/-- How a character of a string literal is written: quotes and backslashes stand behind a backslash. -/
def escaped (c : Char) : List Char :=
  if c = '\x22' ∨ c = '\\' then ['\\', c] else [c]

/-- How a word is written. -/
def spelled (w : Word) : List Char :=
  if w.kind = .string then '\x22' :: w.text.toList.flatMap escaped ++ ['\x22'] else w.text.toList

end Word

end ScopeLint
