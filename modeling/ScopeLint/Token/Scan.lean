import ScopeLint.Place
import ScopeLint.Token.Basic
import ScopeLint.Token.Lexeme

/-!
# Scanning

A text is cut into pieces, each a gap of blanks and comments with the lexeme behind it, and a last gap that ends
the text. The tokens of a text are its lexemes with their places, and a mark for the end of the input.
-/

namespace ScopeLint

/-- A lexeme with the gap before it. -/
structure Piece where
  gap : List Char
  start : Place
  lexeme : Lexeme
  deriving DecidableEq

/-- The place behind the lexeme of a piece. -/
def Piece.stop (p : Piece) : Place :=
  p.start.after p.lexeme.spelling

/-- The token that a piece makes. -/
def Piece.token (p : Piece) : Token :=
  ⟨p.lexeme.kind, some p.lexeme.value, p.start.line, p.start.column, p.start.offset, p.stop.offset⟩

/-- The mark for the end of the input at a place. -/
def Token.ending (p : Place) : Token :=
  ⟨.endOfInput, none, p.line, p.column, p.offset, p.offset⟩

/-- A text cut into pieces, and the gap that ends it. -/
structure Scanned where
  pieces : List Piece
  lastGap : List Char
  stop : Place

private theorem length_behind_lt {cs rest : List Char} {c : Char} {n : Nat} (h : cs.drop n = c :: rest) :
    ((c :: rest).drop (Lexeme.read c rest).spelling.length).length < cs.length := by
  have hpos := Lexeme.length_pos c rest
  have hlen := congrArg List.length h
  simp only [List.length_drop, List.length_cons] at hlen ⊢
  omega

/-- Cuts the text that starts at a place. -/
def scan (p : Place) (cs : List Char) : Scanned :=
  let gap := trivia cs
  let start := p.after gap
  match _h : cs.drop gap.length with
  | [] => ⟨[], gap, start⟩
  | c :: rest =>
    let lexeme := Lexeme.read c rest
    let behind := scan (start.after lexeme.spelling) ((c :: rest).drop lexeme.spelling.length)
    ⟨⟨gap, start, lexeme⟩ :: behind.pieces, behind.lastGap, behind.stop⟩
termination_by cs.length
decreasing_by exact length_behind_lt _h

/-- The tokens of a cut text, the mark for the end of the input last. -/
def Scanned.tokens (s : Scanned) : List Token :=
  s.pieces.map Piece.token ++ [Token.ending s.stop]

/-- The tokens of a text. -/
def tokenize (text : List Char) : List Token :=
  (scan .start text).tokens

theorem triviaFrom_isPrefix (inComment : Bool) (cs : List Char) : triviaFrom inComment cs <+: cs := by
  fun_induction triviaFrom inComment cs with
  | case1 => simp
  | case2 c cs ih => simpa using ih
  | case3 cs ih => simpa using ih
  | case4 c cs _ _ ih => simpa using ih
  | case5 => simp

theorem trivia_isPrefix (cs : List Char) : trivia cs <+: cs :=
  triviaFrom_isPrefix false cs

end ScopeLint
