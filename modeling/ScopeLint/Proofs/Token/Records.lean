import ScopeLint.Token.Event
import ScopeLint.Proofs.Token.LongestMatch
import ScopeLint.Proofs.Token.StringLiterals
import ScopeLint.Proofs.Token.Tiling

/-!
# The records of a scan

What a scan warns of and complains about can be told from the tokens and the text alone.  Behind one another, the
tokens have remarks (`Token.remarks`): a string literal has a warning for each backslash with a character behind it
that is no escape, and an invalid token has an error.

* `loudRecords_eq`: above the detail, a scan tells the remarks on its tokens in order.
* `scanRecords_eq`: the errors are those of the invalid tokens, and the warnings those of the string literals.
-/

namespace ScopeLint

/-- The characters that stand behind backslashes.  A backslash that is itself behind a backslash counts as any other
character. -/
def backslashed : List Char → List Char
  | [] => []
  | '\\' :: c :: cs => c :: backslashed cs
  | _ :: cs => backslashed cs

/-- The character behind a backslash is no escape. -/
def IsStrange (c : Char) : Prop :=
  c ∉ escapePairs.map Prod.snd

instance : DecidablePred IsStrange :=
  fun c => inferInstanceAs (Decidable (c ∉ _))

/-- The records of a level that the scan of a text writes. -/
def scanRecords (level : Level) (text : List Char) : List Record :=
  ((scanEvents text).map ScanEvent.record).filter fun r => r.level == level

namespace Token

/-- The text of a token starts with a quotation mark. -/
def startsQuoted (t : Token) : Bool :=
  t.text.toList.head? == some '\x22'

/-- The token is a string literal, perhaps one that is left open. -/
def isLiteral (t : Token) : Bool :=
  t.kind == .string || t.kind == .invalid && t.startsQuoted

/-- The warning about a backslash in a string literal and the character behind it. -/
def warning (t : Token) (c : Char) : Record :=
  ⟨.lexer, .warning,
    "Unknown string escape sequence '\\" ++ String.singleton c ++ "' in string starting " ++ t.placeText
      ++ ". Treating literally."⟩

/-- The warnings about a token of a text. -/
def warnings (text : List Char) (t : Token) : List Record :=
  if t.isLiteral then ((backslashed (stretch text t.start t.stop)).filter (IsStrange ·)).map t.warning else []

/-- The error about an invalid token. -/
def complaint (t : Token) : Record :=
  ⟨.lexer, .error,
    if t.startsQuoted then "Unterminated string literal at EOF starting " ++ t.placeText
    else "Invalid character " ++ Text.quote t.text ++ " at " ++ t.placeText⟩

/-- The errors about a token: there is one if it is invalid. -/
def complaints (t : Token) : List Record :=
  if t.kind = .invalid then [t.complaint] else []

/-- All that a scan remarks on a token of a text. -/
def remarks (text : List Char) (t : Token) : List Record :=
  t.warnings text ++ t.complaints

end Token

/-! ### Lexemes -/

theorem unescape?_eq_none_iff {c : Char} : unescape? c = none ↔ IsStrange c := by
  unfold unescape? IsStrange
  split <;> simp_all [escapePairs]

theorem backslashed_cons {c : Char} (hc : c ≠ '\\') (cs : List Char) : backslashed (c :: cs) = backslashed cs := by
  rw [backslashed]
  exact fun _ _ h => absurd h hc

/-- The strange escapes of a literal are read off its spelling. -/
theorem StringBody.strangeEscapes_eq (cs : List Char) :
    (read cs).strangeEscapes = (backslashed (read cs).spelling).filter (IsStrange ·) := by
  fun_induction read cs with
  | case1 => rfl
  | case2 => rfl
  | case3 => rfl
  | case4 c cs body d hd ih =>
    have hc : ¬ IsStrange c := by simp [← unescape?_eq_none_iff, hd]
    rw [backslashed, List.filter_cons_of_neg (by simpa using hc)]
    exact ih
  | case5 c cs body hn ih =>
    have hc : IsStrange c := unescape?_eq_none_iff.mp hn
    rw [backslashed, List.filter_cons_of_pos (by simpa using hc)]
    exact congrArg (c :: ·) ih
  | case6 c cs hquote hlone hslash body ih =>
    rw [backslashed_cons (ne_slash_of hlone hslash)]
    exact ih

private theorem wordKind_verbatim (word : List Char) :
    Lexeme.wordKind word ≠ .string ∧ Lexeme.wordKind word ≠ .invalid := by
  unfold Lexeme.wordKind
  repeat' split
  all_goals exact ⟨TokenKind.noConfusion, TokenKind.noConfusion⟩

/-- A lexeme is a string literal, a stray character, or means its own spelling. -/
theorem Lexeme.read_sorts (c : Char) (cs : List Char) :
    (c = '\x22' ∧ read c cs = string cs) ∨
    (c ≠ '\x22' ∧ read c cs = ⟨.invalid, String.singleton c, [c], [], some (.strayCharacter c)⟩) ∨
    ∃ kind spelling, read c cs = verbatim kind spelling ∧ kind ≠ .string ∧ kind ≠ .invalid := by
  unfold read
  split
  · refine .inr (.inr ?_)
    unfold number
    split
    · exact ⟨_, _, rfl, TokenKind.noConfusion, TokenKind.noConfusion⟩
    · exact ⟨_, _, rfl, TokenKind.noConfusion, TokenKind.noConfusion⟩
  split
  · exact .inr (.inr ⟨_, _, rfl, wordKind_verbatim _⟩)
  split
  · next hquote => exact .inl ⟨hquote, rfl⟩
  · next hquote =>
    unfold symbol
    split
    · next entry hfind =>
      have hentry := List.mem_of_find?_eq_some hfind
      exact .inr (.inr ⟨_, _, rfl, symbols_kind entry hentry, symbols_valid entry hentry⟩)
    · exact .inr (.inl ⟨hquote, rfl⟩)

/-! ### Pieces -/

/-- Above the detail, the events of a lexeme are its strange escapes and its flaw. -/
theorem Piece.filter_lexemeEvents (piece : Piece) :
    (piece.lexemeEvents.filter fun e => e.level != .debug) =
      piece.lexeme.strangeEscapes.map (.strangeEscape · piece.start) ++
        piece.lexeme.flaw.toList.map (.flaw · piece.start) := by
  have hloud : ∀ e ∈ piece.lexeme.strangeEscapes.map (.strangeEscape · piece.start) ++
      piece.lexeme.flaw.toList.map (.flaw · piece.start), (ScanEvent.level e != .debug) = true := by
    intro e he
    rcases List.mem_append.mp he with he | he
    · obtain ⟨_, _, rfl⟩ := List.mem_map.mp he
      rfl
    · obtain ⟨_, _, rfl⟩ := List.mem_map.mp he
      rfl
  rw [lexemeEvents, List.filter_append, List.filter_eq_self.mpr hloud]
  exact List.append_nil _

/-- The warnings about the token of a piece are those about the strange escapes of its lexeme. -/
theorem Piece.warnings_token {text rest : List Char} {piece : Piece} {c : Char}
    (hread : piece.lexeme = Lexeme.read c rest)
    (hcovered : stretch text piece.token.start piece.token.stop = piece.lexeme.spelling) :
    piece.token.warnings text =
      (piece.lexeme.strangeEscapes.map (.strangeEscape · piece.start)).map ScanEvent.record := by
  have hrecords : (piece.lexeme.strangeEscapes.map (.strangeEscape · piece.start)).map ScanEvent.record =
      piece.lexeme.strangeEscapes.map piece.token.warning := List.map_map
  have hliteral : piece.token.isLiteral = (piece.lexeme.kind == .string ||
      piece.lexeme.kind == .invalid && piece.lexeme.value.toList.head? == some '\x22') := rfl
  rw [hrecords, Token.warnings, hcovered, hliteral, hread]
  rcases Lexeme.read_sorts c rest with ⟨rfl, hsort⟩ | ⟨hquote, hsort⟩ | ⟨kind, spelling, hsort, hstring, hinvalid⟩
  · -- the opening quote is no backslash, so the escapes are those of the body
    have hstrange : (Lexeme.string rest).strangeEscapes =
        (backslashed (Lexeme.string rest).spelling).filter (IsStrange ·) := by
      rw [Lexeme.string_spelling, backslashed_cons (by decide), ← StringBody.strangeEscapes_eq]
      simp only [Lexeme.string]
      split <;> rfl
    rw [hsort, ← hstrange, if_pos]
    simp only [Lexeme.string]
    split
    · rfl
    · simp
  · simp [hsort, hquote]
  · simp [hsort, Lexeme.verbatim, hstring, hinvalid]

/-- The errors about the token of a piece are those about the flaw of its lexeme. -/
theorem Piece.complaints_token {rest : List Char} {piece : Piece} {c : Char}
    (hread : piece.lexeme = Lexeme.read c rest) :
    piece.token.complaints = (piece.lexeme.flaw.toList.map (.flaw · piece.start)).map ScanEvent.record := by
  have hcomplaints : piece.token.complaints = if piece.lexeme.kind = .invalid then [⟨.lexer, .error,
      if piece.lexeme.value.toList.head? == some '\x22' then
        "Unterminated string literal at EOF starting " ++ piece.start.text
      else "Invalid character " ++ Text.quote piece.lexeme.value ++ " at " ++ piece.start.text⟩] else [] := rfl
  rw [hcomplaints, hread]
  rcases Lexeme.read_sorts c rest with ⟨rfl, hsort⟩ | ⟨hquote, hsort⟩ | ⟨kind, spelling, hsort, hstring, hinvalid⟩
  · rw [hsort, Lexeme.string]
    split
    · rfl
    · rw [if_pos rfl, if_pos (by simp)]
      rfl
  · have hhead : ¬ ((String.singleton c).toList.head? == some '\x22') = true := by simp [hquote]
    rw [hsort, if_pos rfl, if_neg hhead]
    rfl
  · rw [hsort]
    exact if_neg hinvalid

/-- The remarks on the token of a piece are what the scan tells of its lexeme. -/
theorem Piece.remarks_token {text rest : List Char} {piece : Piece} {c : Char}
    (hread : piece.lexeme = Lexeme.read c rest)
    (hcovered : stretch text piece.token.start piece.token.stop = piece.lexeme.spelling) :
    piece.token.remarks text = (piece.lexemeEvents.filter fun e => e.level != .debug).map ScanEvent.record := by
  rw [Token.remarks, warnings_token hread hcovered, complaints_token hread, filter_lexemeEvents, List.map_append]

/-- A piece of a text stands where its lexeme does. -/
theorem stretch_of_mem_pieces (past cs : List Char) {p : Place} (hp : p.offset = past.length) :
    ∀ piece ∈ (scan p cs).pieces, stretch (past ++ cs) piece.token.start piece.token.stop = piece.lexeme.spelling := by
  induction cs using scan_induction generalizing past p with
  | blank cs hcs => simp [scan_nil hcs]
  | lexeme gap c rest hgap ih =>
    obtain ⟨hstop, htext⟩ := behind_lexeme gap c rest hp
    rw [scan_cons hgap]
    intro piece hpiece
    rcases List.mem_cons.mp hpiece with rfl | hpiece
    · have hstart : (p.after gap).offset = (past ++ gap).length := by rw [Place.offset_after, hp, List.length_append]
      rw [← List.append_assoc]
      exact stretch_lexeme c rest hstart
    · rw [← htext]
      exact ih _ hstop piece hpiece

/-- Gaps are told of in detail only. -/
theorem filter_pieceEvents (lastGap : List Char) (p : Place) (pieces : List Piece) :
    (pieceEvents lastGap p pieces).filter (fun e => e.level != .debug) =
      pieces.flatMap fun piece => piece.lexemeEvents.filter fun e => e.level != .debug := by
  have hgap : ∀ p gap, (gapEvents p gap).filter (fun e => e.level != .debug) = [] := by
    intro p gap
    rw [gapEvents, List.filter_map, List.map_eq_nil_iff, List.filter_eq_nil_iff]
    exact fun _ _ h => nomatch h
  induction pieces generalizing p with
  | nil => exact hgap p lastGap
  | cons piece pieces ih =>
    rw [pieceEvents, List.filter_append, List.filter_append, hgap, ih]
    rfl

/-! ### Texts -/

/-- Above the detail, a scan tells the remarks on its tokens, token by token. -/
theorem loudRecords_eq (text : List Char) :
    ((scanEvents text).map ScanEvent.record).filter (fun r => r.level != .debug) =
      (tokenize text).flatMap (Token.remarks text) := by
  have hpieces : ∀ piece ∈ (scan .start text).pieces, piece.token.remarks text =
      (piece.lexemeEvents.filter fun e => e.level != .debug).map ScanEvent.record := by
    intro piece hpiece
    obtain ⟨c, rest, hread⟩ := scan_lexemes .start text piece hpiece
    exact Piece.remarks_token hread (stretch_of_mem_pieces [] text rfl piece hpiece)
  have hloud : (scanEvents text).filter (fun e => e.level != .debug) =
      (scan .start text).pieces.flatMap fun piece => piece.lexemeEvents.filter fun e => e.level != .debug := by
    rw [← filter_pieceEvents (scan .start text).lastGap .start]
    simp [scanEvents, Scanned.events, ScanEvent.level]
  calc ((scanEvents text).map ScanEvent.record).filter (fun r => r.level != .debug)
      = ((scanEvents text).filter (fun e => e.level != .debug)).map ScanEvent.record := List.filter_map
    _ = (scan .start text).pieces.flatMap fun piece => piece.token.remarks text := by
        rw [hloud, List.map_flatMap]
        exact (List.flatMap_congr hpieces).symm
    _ = (tokenize text).flatMap (Token.remarks text) := by
        rw [tokenize, Scanned.tokens, List.flatMap_append, List.flatMap_map]
        exact (List.append_nil _).symm

/-- The records of a level above the detail are the remarks of that level. -/
theorem scanRecords_eq_flatMap {level : Level} (hlevel : level ≠ .debug) (text : List Char) :
    scanRecords level text = (tokenize text).flatMap fun t => (t.remarks text).filter fun r => r.level == level := by
  rw [← List.filter_flatMap, ← loudRecords_eq, List.filter_filter, scanRecords]
  refine List.filter_congr fun r _ => ?_
  by_cases hr : r.level = level <;> simp [hr, hlevel]

namespace Token

theorem level_of_mem_warnings {text : List Char} {t : Token} {r : Record} (h : r ∈ t.warnings text) :
    r.level = .warning := by
  unfold warnings at h
  split at h
  · obtain ⟨_, _, rfl⟩ := List.mem_map.mp h
    rfl
  · nomatch h

theorem level_of_mem_complaints {t : Token} {r : Record} (h : r ∈ t.complaints) : r.level = .error := by
  unfold complaints at h
  split at h
  · rw [List.mem_singleton.mp h]
    rfl
  · nomatch h

theorem filter_error_remarks (text : List Char) (t : Token) :
    ((t.remarks text).filter fun r => r.level == .error) = t.complaints := by
  rw [remarks, List.filter_append, List.filter_eq_nil_iff.mpr, List.filter_eq_self.mpr, List.nil_append]
  · exact fun r hr => beq_iff_eq.mpr (level_of_mem_complaints hr)
  · exact fun r hr => by simp [level_of_mem_warnings hr]

theorem filter_warning_remarks (text : List Char) (t : Token) :
    ((t.remarks text).filter fun r => r.level == .warning) = t.warnings text := by
  rw [remarks, List.filter_append, List.filter_eq_self.mpr, List.filter_eq_nil_iff.mpr, List.append_nil]
  · exact fun r hr => by simp [level_of_mem_complaints hr]
  · exact fun r hr => beq_iff_eq.mpr (level_of_mem_warnings hr)

theorem flatMap_complaints (ts : List Token) :
    ts.flatMap complaints = (ts.filter fun t => t.kind == .invalid).map complaint := by
  induction ts with
  | nil => rfl
  | cons t ts ih => by_cases ht : t.kind = .invalid <;> simp [complaints, ht, ih]

end Token

/-- The log of a scan agrees with its tokens.  There is an error for each invalid token, in the order of the tokens and
with the place of its token; it is about a string literal that is left open if and only if the token starts with a
quotation mark.  There is a warning for each backslash in a string literal, closed or not, with a character behind it
that is no escape, in their order, with that character and the place of the literal. -/
theorem scanRecords_eq (text : List Char) :
    scanRecords .error text = ((tokenize text).filter fun t => t.kind == .invalid).map Token.complaint ∧
      scanRecords .warning text = (tokenize text).flatMap (Token.warnings text) := by
  constructor
  · rw [scanRecords_eq_flatMap (by decide), ← Token.flatMap_complaints]
    exact List.flatMap_congr fun t _ => t.filter_error_remarks text
  · rw [scanRecords_eq_flatMap (by decide)]
    exact List.flatMap_congr fun t _ => t.filter_warning_remarks text

/-- A literal with an escape that is none, and one that is left open before a backslash, which is a second invalid
token. -/
example : scanRecords .warning "\"\\q\\n\" \"\\u\\".toList =
      [⟨.lexer, .warning, "Unknown string escape sequence '\\q' in string starting 1:1. Treating literally."⟩,
        ⟨.lexer, .warning, "Unknown string escape sequence '\\u' in string starting 1:8. Treating literally."⟩] ∧
    scanRecords .error "\"\\q\\n\" \"\\u\\".toList =
      [⟨.lexer, .error, "Unterminated string literal at EOF starting 1:8"⟩,
        ⟨.lexer, .error, "Invalid character '\\\\' at 1:11"⟩] := by
  decide +kernel

end ScopeLint
