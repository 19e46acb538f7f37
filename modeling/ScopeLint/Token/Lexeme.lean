import ScopeLint.Text.Digit
import ScopeLint.Text.Letter
import ScopeLint.Text.Numeral
import ScopeLint.Text.Uppercase
import ScopeLint.Token.Kind

/-!
# Lexemes

What stands at the head of a text, apart from its place: the blanks and comments before the next lexeme
(`trivia`), and the lexeme itself (`Lexeme.read`). A lexeme keeps its spelling, which is a prefix of the text read
and is never empty (`Lexeme.spelling_isPrefix`, `Lexeme.spelling_ne_nil`), so that reading on behind it ends.
-/

namespace ScopeLint

/-- A character that separates lexemes and means nothing else. -/
def isBlank (c : Char) : Bool :=
  c == ' ' || c == '\t' || c == '\r' || c == '\n'

/-- The blanks and comments at the head of a text. Two slashes open a comment, which ends before the next line
feed; the flag says that the text starts inside one. -/
def triviaFrom : Bool → List Char → List Char
  | _, [] => []
  | true, c :: cs => c :: triviaFrom (c != '\n') cs
  | false, '/' :: '/' :: cs => '/' :: '/' :: triviaFrom true cs
  | false, c :: cs => if isBlank c then c :: triviaFrom false cs else []

/-- The blanks and comments before the first lexeme of a text. -/
def trivia (cs : List Char) : List Char :=
  triviaFrom false cs

/-- A character that may go on a number. -/
def isNumberPart (c : Char) : Bool :=
  Text.isDigit c || c == '_'

/-- A character that may start a name. -/
def isNameStart (c : Char) : Bool :=
  Text.isLetter c || c == '_'

/-- A character that may go on a name. -/
def isNamePart (c : Char) : Bool :=
  Text.isLetter c || Text.isDigit c || Text.isNumeral c || c == '_'

/-- The words that are no names. -/
def keywords : List String :=
  ["pub", "fn", "let", "assert", "use", "case", "if", "import", "as", "todo", "panic"]

/-- The symbols with their kinds, a longer symbol before each that starts it. -/
def symbols : List (String × TokenKind) :=
  [("<=.", .operator), (">=.", .operator), ("..", .dotDot), ("->", .rightArrow), ("<-", .leftArrow),
   ("==", .operator), ("!=", .operator), ("<=", .operator), (">=", .operator), ("<.", .operator),
   (">.", .operator), ("+.", .operator), ("-.", .operator), ("*.", .operator), ("/.", .operator),
   ("&&", .operator), ("||", .operator), ("<>", .operator), ("|>", .operator), ("(", .leftParen),
   (")", .rightParen), ("\x7b", .leftBrace), ("\x7d", .rightBrace), ("[", .leftBracket), ("]", .rightBracket),
   (",", .comma), (":", .colon), (".", .dot), ("#", .hash), ("|", .bar), ("=", .equal), ("!", .bang),
   ("<", .operator), (">", .operator), ("+", .operator), ("-", .operator), ("*", .operator), ("/", .operator),
   ("%", .operator)]

/-- What the character behind a backslash stands for, if the pair is an escape. -/
def unescape? : Char → Option Char
  | 'n' => some '\n'
  | 't' => some '\t'
  | 'r' => some '\r'
  | '\x22' => some '\x22'
  | '\\' => some '\\'
  | _ => none

/-- The text of a string literal behind its opening quote, up to and with the closing one. -/
structure StringBody where
  value : List Char
  spelling : List Char
  strangeEscapes : List Char
  closed : Bool
  deriving DecidableEq

/-- Reads the body of a string literal. A backslash and the character behind it are one unit; a pair that is no
escape stands for its two characters. A body that no quote closes stops at the end of the text, and before a
backslash that has nothing behind it. -/
def StringBody.read : List Char → StringBody
  | [] => ⟨[], [], [], false⟩
  | '\x22' :: _ => ⟨[], ['\x22'], [], true⟩
  | ['\\'] => ⟨[], [], [], false⟩
  | '\\' :: c :: cs =>
    let body := read cs
    match unescape? c with
    | some d => ⟨d :: body.value, '\\' :: c :: body.spelling, body.strangeEscapes, body.closed⟩
    | none => ⟨'\\' :: c :: body.value, '\\' :: c :: body.spelling, c :: body.strangeEscapes, body.closed⟩
  | c :: cs =>
    let body := read cs
    ⟨c :: body.value, c :: body.spelling, body.strangeEscapes, body.closed⟩

/-- What is wrong with a lexeme that makes no token of the language. -/
inductive LexicalFlaw where
  | strayCharacter (c : Char)
  | unclosedString
  deriving DecidableEq

/-- The smallest meaningful stretch of a text. The strange escapes are the characters behind the backslashes of a
string literal that are no escapes. -/
structure Lexeme where
  kind : TokenKind
  value : String
  spelling : List Char
  strangeEscapes : List Char
  flaw : Option LexicalFlaw
  deriving DecidableEq

namespace Lexeme

/-- A lexeme that means its own spelling. -/
def verbatim (kind : TokenKind) (spelling : List Char) : Lexeme :=
  ⟨kind, String.ofList spelling, spelling, [], none⟩

/-- The point and the digits behind a whole number, if it is a fraction. A point that no digit follows is not part
of the number. -/
def fraction : List Char → List Char
  | '.' :: c :: cs => if Text.isDigit c then '.' :: (c :: cs).takeWhile isNumberPart else []
  | _ => []

/-- The number at the head of a text. -/
def number (cs : List Char) : Lexeme :=
  let whole := cs.takeWhile isNumberPart
  match fraction (cs.dropWhile isNumberPart) with
  | [] => verbatim .integer whole
  | part => verbatim .float (whole ++ part)

/-- The kind of a word that is spelled like a name. -/
def wordKind (word : List Char) : TokenKind :=
  if String.ofList word ∈ keywords then .keyword
  else if word.head?.any Text.isUppercase then .upName
  else .name

/-- The word at the head of a text. -/
def word (cs : List Char) : Lexeme :=
  let spelling := cs.takeWhile isNamePart
  verbatim (wordKind spelling) spelling

/-- The string literal whose opening quote stands before a text. One that is not closed is kept as it is spelled. -/
def string (cs : List Char) : Lexeme :=
  let body := StringBody.read cs
  let spelling := '\x22' :: body.spelling
  if body.closed then ⟨.string, String.ofList body.value, spelling, body.strangeEscapes, none⟩
  else ⟨.invalid, String.ofList spelling, spelling, body.strangeEscapes, some .unclosedString⟩

/-- The symbol at the head of a text, or the one character there if no symbol starts with it. -/
def symbol (c : Char) (cs : List Char) : Lexeme :=
  match symbols.find? (fun entry => entry.1.toList.isPrefixOf (c :: cs)) with
  | some entry => verbatim entry.2 entry.1.toList
  | none => ⟨.invalid, String.singleton c, [c], [], some (.strayCharacter c)⟩

/-- The lexeme at the head of a text that starts with neither blank nor comment. -/
def read (c : Char) (cs : List Char) : Lexeme :=
  if Text.isDigit c then number (c :: cs)
  else if isNameStart c then word (c :: cs)
  else if c = '\x22' then string cs
  else symbol c cs

end Lexeme

theorem StringBody.spelling_isPrefix (cs : List Char) : (StringBody.read cs).spelling <+: cs := by
  fun_induction StringBody.read cs with
  | case1 => simp
  | case2 cs => simp
  | case3 => simp
  | case4 c cs body d hd ih => simpa [body] using ih
  | case5 c cs body hn ih => simpa [body] using ih
  | case6 _ _ _ _ _ _ ih => simpa using ih

namespace Lexeme

private theorem fraction_isPrefix (cs : List Char) : fraction cs <+: cs := by
  unfold fraction
  split
  · split
    · simpa using List.takeWhile_prefix isNumberPart
    · simp
  · simp

theorem number_isPrefix (cs : List Char) : (number cs).spelling <+: cs := by
  have h := fraction_isPrefix (cs.dropWhile isNumberPart)
  unfold number
  split
  · exact List.takeWhile_prefix isNumberPart
  · next hne =>
    obtain ⟨rest, hrest⟩ := h
    refine ⟨rest, ?_⟩
    simp only [verbatim, List.append_assoc]
    rw [hrest]
    exact List.takeWhile_append_dropWhile

theorem string_spelling (cs : List Char) : (string cs).spelling = '\x22' :: (StringBody.read cs).spelling := by
  simp only [string]
  split <;> rfl

/-- A lexeme is spelled by the head of the text. -/
theorem spelling_isPrefix (c : Char) (cs : List Char) : (read c cs).spelling <+: c :: cs := by
  unfold read
  split
  · exact number_isPrefix _
  split
  · exact List.takeWhile_prefix isNamePart
  split
  · next h =>
    subst h
    simpa [string_spelling] using StringBody.spelling_isPrefix cs
  · unfold symbol
    split
    · next h =>
      have := List.find?_some h
      simpa [verbatim] using this
    · simp

/-- A lexeme covers at least one character. -/
theorem spelling_ne_nil (c : Char) (cs : List Char) : (read c cs).spelling ≠ [] := by
  unfold read
  split
  · next h =>
    have hp : isNumberPart c = true := by simp [isNumberPart, h]
    unfold number
    split <;> simp [verbatim, hp]
  split
  · next h =>
    have hp : isNamePart c = true := by
      rcases Bool.or_eq_true_iff.mp h with h | h <;> simp [isNamePart, h]
    simp [word, verbatim, hp]
  split
  · simp [string_spelling]
  · unfold symbol
    split
    · next entry h =>
      have hm := List.mem_of_find?_eq_some h
      have : ∀ entry ∈ symbols, entry.1.toList ≠ [] := by decide
      exact this entry hm
    · simp

theorem length_pos (c : Char) (cs : List Char) : 0 < (read c cs).spelling.length :=
  List.length_pos_iff.mpr (spelling_ne_nil c cs)

end Lexeme

end ScopeLint
