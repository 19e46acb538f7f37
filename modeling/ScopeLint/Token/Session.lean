import ScopeLint.Token.Scan

/-!
# Scanning sessions

A session holds a text, the place reached in it and the tokens found so far. The place may be moved by hand before
and after a scan, and only moves on: by the characters it passes over.
-/

namespace ScopeLint

/-- A text that is being scanned. -/
structure ScanSession where
  text : List Char
  place : Place
  tokens : List Token

namespace ScanSession

/-- Nothing of the text is passed yet. -/
def start (text : List Char) : ScanSession :=
  ⟨text, .start, []⟩

/-- The characters ahead. -/
def ahead (s : ScanSession) : List Char :=
  s.text.drop s.place.offset

/-- Passes over some characters, or over all that are ahead if there are fewer. -/
def advance (s : ScanSession) (count : Int) : ScanSession :=
  ⟨s.text, s.place.after (s.ahead.take count.toNat), s.tokens⟩

/-- The character at some distance from the place. A position before the start of the text counts back from its
end. -/
def peek (s : ScanSession) (distance : Int) : Option Char :=
  let position := (s.place.offset : Int) + distance
  if position < 0 then s.text.reverse[(-position - 1).toNat]? else s.text[position.toNat]?

/-- Passes over the blanks and comments ahead. -/
def skip (s : ScanSession) : ScanSession :=
  s.advance (trivia s.ahead).length

/-- Scans what is ahead and adds its tokens to those found before. -/
def tokenize (s : ScanSession) : ScanSession :=
  let scanned := scan s.place s.ahead
  ⟨s.text, scanned.stop, s.tokens ++ scanned.tokens⟩

end ScanSession

end ScopeLint
