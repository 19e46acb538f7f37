/-!
# Kinds of tokens

The kinds of tokens of the checked language. Each kind has a label, which token texts and syntax faults show.
A token list made by hand may hold labels beside those; such a kind is equal to no kind of the language.
-/

namespace ScopeLint

/-- What a token is. -/
inductive TokenKind where
  | keyword
  | name
  | upName
  | integer
  | float
  | string
  | leftParen
  | rightParen
  | leftBrace
  | rightBrace
  | leftBracket
  | rightBracket
  | comma
  | colon
  | dot
  | dotDot
  | hash
  | bar
  | equal
  | rightArrow
  | leftArrow
  | bang
  | operator
  | endOfInput
  | invalid
  | other (label : String)
  deriving DecidableEq

namespace TokenKind

/-- The label that shows a kind. -/
def label : TokenKind → String
  | keyword => "KEYWORD"
  | name => "NAME"
  | upName => "UPNAME"
  | integer => "INTEGER"
  | float => "FLOAT"
  | string => "STRING"
  | leftParen => "LPAREN"
  | rightParen => "RPAREN"
  | leftBrace => "LBRACE"
  | rightBrace => "RBRACE"
  | leftBracket => "LBRACKET"
  | rightBracket => "RBRACKET"
  | comma => "COMMA"
  | colon => "COLON"
  | dot => "DOT"
  | dotDot => "DOTDOT"
  | hash => "HASH"
  | bar => "VBAR"
  | equal => "EQUAL"
  | rightArrow => "RARROW"
  | leftArrow => "LARROW"
  | bang => "BANG"
  | operator => "OPERATOR"
  | endOfInput => "EOF"
  | invalid => "INVALID"
  | other label => label

/-- The kinds of the language. -/
def ofLanguage : List TokenKind :=
  [keyword, name, upName, integer, float, string, leftParen, rightParen, leftBrace, rightBrace, leftBracket,
   rightBracket, comma, colon, dot, dotDot, hash, bar, equal, rightArrow, leftArrow, bang, operator, endOfInput,
   invalid]

/-- The kind that a label shows. -/
def ofLabel (label : String) : TokenKind :=
  (ofLanguage.find? (fun kind => kind.label == label)).getD (other label)

/-- Brackets of three shapes open a group. -/
def opens : TokenKind → Bool
  | leftParen | leftBracket | leftBrace => true
  | _ => false

/-- Brackets of three shapes close a group. -/
def closes : TokenKind → Bool
  | rightParen | rightBracket | rightBrace => true
  | _ => false

/-- No bracket opens a group and closes one. -/
theorem closes_of_opens {kind : TokenKind} (h : kind.opens = true) : kind.closes = false := by
  cases kind <;> first | rfl | cases h

end TokenKind

end ScopeLint
