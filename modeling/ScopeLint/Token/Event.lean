import ScopeLint.Log
import ScopeLint.Token.Scan

/-!
# What scanning tells

The events that arise while a text is scanned, in the order in which the scan meets their causes: comments of a
gap, strange escapes and the flaw of the lexeme behind it, then the token. A flaw is an error and a strange escape
a warning, each at the place where its lexeme starts; the rest is detail.
-/

namespace ScopeLint

/-- Something that scanning tells. -/
inductive ScanEvent where
  | opened (length : Nat)
  | started
  | comment (start : Place)
  | strangeEscape (c : Char) (start : Place)
  | flaw (flaw : LexicalFlaw) (start : Place)
  | found (token : Token)
  | ended (stop : Place)
  | finished

/-- How much a scan event matters. -/
def ScanEvent.level : ScanEvent → Level
  | strangeEscape _ _ => .warning
  | flaw _ _ => .error
  | _ => .debug

/-- The words for a scan event. -/
def ScanEvent.message : ScanEvent → String
  | opened length => "Lexer initialized with text of length " ++ toString length
  | started => "Starting tokenization..."
  | comment start => "Skipping comment at " ++ start.text
  | strangeEscape c start =>
    "Unknown string escape sequence '\\" ++ String.singleton c ++ "' in string starting " ++ start.text
      ++ ". Treating literally."
  | flaw (.strayCharacter c) start => "Invalid character " ++ Text.quote (String.singleton c) ++ " at " ++ start.text
  | flaw .unclosedString start => "Unterminated string literal at EOF starting " ++ start.text
  | found token => "Found " ++ token.describe
  | ended stop => "Appending EOF token at @" ++ stop.text
  | finished => "Tokenization finished."

/-- The record of a scan event. -/
def ScanEvent.record (e : ScanEvent) : Record :=
  ⟨.lexer, e.level, e.message⟩

/-- The places where the comments of a gap start; the flag says that the gap goes on with a comment. -/
def commentStarts : Bool → Place → List Char → List Place
  | _, _, [] => []
  | true, p, c :: cs => commentStarts (c != '\n') (p.step c) cs
  | false, p, '/' :: cs => p :: commentStarts true (p.step '/') cs
  | false, p, c :: cs => commentStarts false (p.step c) cs

/-- The events of a gap. -/
def gapEvents (p : Place) (gap : List Char) : List ScanEvent :=
  (commentStarts false p gap).map .comment

/-- The events of a lexeme that starts at a place. -/
def Piece.lexemeEvents (piece : Piece) : List ScanEvent :=
  piece.lexeme.strangeEscapes.map (.strangeEscape · piece.start)
    ++ piece.lexeme.flaw.toList.map (.flaw · piece.start)
    ++ [.found piece.token]

/-- The events of pieces that follow a place, and of the gap behind them. -/
def pieceEvents (lastGap : List Char) : Place → List Piece → List ScanEvent
  | p, [] => gapEvents p lastGap
  | p, piece :: pieces => gapEvents p piece.gap ++ piece.lexemeEvents ++ pieceEvents lastGap piece.stop pieces

/-- The events of the scan of a text from a place on. -/
def Scanned.events (p : Place) (s : Scanned) : List ScanEvent :=
  .started :: pieceEvents s.lastGap p s.pieces ++ [.ended s.stop, .finished]

/-- The events of the scan of a whole text. -/
def scanEvents (text : List Char) : List ScanEvent :=
  .opened text.length :: (scan .start text).events .start

end ScopeLint
