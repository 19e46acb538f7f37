import ScopeLint.Proofs.Grammar.Tracking
import ScopeLint.Proofs.Token.Relexing

/-!
# Tokens of two texts

A blank ends every lexeme but a string literal, and a line feed ends a comment too.  So a text whose string literals
are closed keeps its tokens when a line feed and another text are written behind it, and those of the other text follow,
further down by the lines and further on by the length of the first text and the line feed
(`tokenize_append_feed`).
-/

namespace ScopeLint

/-! ### A line feed behind a text -/

/-- Blanks and comments go on behind a line feed only if they go up to it. -/
theorem triviaFrom_append_feed (inComment : Bool) (cs ds : List Char) :
    triviaFrom inComment (cs ++ '\n' :: ds) =
      if triviaFrom inComment cs = cs then cs ++ '\n' :: triviaFrom false ds else triviaFrom inComment cs := by
  fun_induction triviaFrom inComment cs with
  | case1 inComment => cases inComment <;> simp [triviaFrom, isBlank]
  | case2 c cs ih =>
    rw [List.cons_append, triviaFrom, ih]
    split <;> simp_all
  | case3 cs ih =>
    rw [List.cons_append, List.cons_append, triviaFrom, ih]
    split <;> simp_all
  | case4 c cs hcomment hblank ih =>
    have hc : c ≠ '/' := by
      rintro rfl
      cases hblank
    rw [List.cons_append, triviaFrom, if_pos hblank, ih]
    · split <;> simp_all
    · exact fun _ h => absurd h hc
  | case5 c cs hcomment hblank =>
    rw [List.cons_append, triviaFrom, if_neg hblank, if_neg (by simp)]
    intro rest hc hrest
    cases cs with
    | nil => cases hrest
    | cons d cs =>
      obtain ⟨rfl, -⟩ := List.cons.inj hrest
      exact hcomment cs hc rfl

/-! ### Cutting a text -/

theorem scan_nil {cs : List Char} (h : trivia cs = cs) (p : Place) : scan p cs = ⟨[], cs, p.after cs⟩ := by
  rw [scan]
  split
  · simp only [h]
  · next c rest hcons =>
    rw [h, List.drop_length] at hcons
    cases hcons

/-- A text is cut behind its first lexeme. -/
theorem scan_cons {gap rest : List Char} {c : Char} (h : trivia (gap ++ c :: rest) = gap) (p : Place) :
    scan p (gap ++ c :: rest) =
      ⟨⟨gap, p.after gap, Lexeme.read c rest⟩ ::
          (scan ((p.after gap).after (Lexeme.read c rest).spelling)
            ((c :: rest).drop (Lexeme.read c rest).spelling.length)).pieces,
        (scan ((p.after gap).after (Lexeme.read c rest).spelling)
          ((c :: rest).drop (Lexeme.read c rest).spelling.length)).lastGap,
        (scan ((p.after gap).after (Lexeme.read c rest).spelling)
          ((c :: rest).drop (Lexeme.read c rest).spelling.length)).stop⟩ := by
  have hdrop : (gap ++ c :: rest).drop gap.length = c :: rest := List.drop_left
  rw [scan]
  split
  · next hnil =>
    rw [h, hdrop] at hnil
    cases hnil
  · next d ds hcons =>
    rw [h, hdrop] at hcons
    cases hcons
    simp only [h]

theorem tokens_scan_cons {gap rest : List Char} {c : Char} (h : trivia (gap ++ c :: rest) = gap) (p : Place) :
    (scan p (gap ++ c :: rest)).tokens =
      Piece.token ⟨gap, p.after gap, Lexeme.read c rest⟩ ::
        (scan ((p.after gap).after (Lexeme.read c rest).spelling)
          ((c :: rest).drop (Lexeme.read c rest).spelling.length)).tokens := by
  rw [scan_cons h]
  rfl

/-- A text is a gap, or a gap with a lexeme behind it and a text behind that. -/
@[elab_as_elim]
theorem scan_induction {motive : List Char → Prop} (blank : ∀ cs, trivia cs = cs → motive cs)
    (lexeme : ∀ gap c rest, trivia (gap ++ c :: rest) = gap →
      motive ((c :: rest).drop (Lexeme.read c rest).spelling.length) → motive (gap ++ c :: rest))
    (cs : List Char) : motive cs := by
  have htrivia := List.prefix_iff_eq_append.mp (trivia_isPrefix cs)
  cases hrest : cs.drop (trivia cs).length with
  | nil =>
    rw [hrest, List.append_nil] at htrivia
    exact blank cs htrivia
  | cons c rest =>
    rw [hrest] at htrivia
    have hless : ((c :: rest).drop (Lexeme.read c rest).spelling.length).length < cs.length := by
      have hpos := Lexeme.length_pos c rest
      have hlength := congrArg List.length htrivia
      simp only [List.length_append, List.length_cons, List.length_drop] at hlength ⊢
      omega
    exact htrivia ▸ lexeme _ c rest (congrArg trivia htrivia) (scan_induction blank lexeme _)
termination_by cs.length
decreasing_by exact hless

/-- A gap before a text moves its tokens. -/
theorem tokens_scan_gap {gap cs : List Char} (h : trivia (gap ++ cs) = gap ++ trivia cs) (p : Place) :
    (scan p (gap ++ cs)).tokens = (scan (p.after gap) cs).tokens := by
  cases cs using scan_induction with
  | blank cs hcs =>
    rw [hcs] at h
    rw [scan_nil h, scan_nil hcs, Place.after_append]
    rfl
  | lexeme gap' c rest hgap =>
    rw [hgap, ← List.append_assoc] at h
    rw [← List.append_assoc, tokens_scan_cons h, tokens_scan_cons hgap, Place.after_append]
    rfl

/-- The tokens of a text with a line feed and another text behind it, if no string literal is left open. -/
theorem tokens_scan_append_feed {p : Place} {cs : List Char}
    (h : ∀ piece ∈ (scan p cs).pieces, piece.lexeme.flaw ≠ some .unclosedString) (ds : List Char) :
    (scan p (cs ++ '\n' :: ds)).tokens =
      (scan p cs).pieces.map Piece.token ++ (scan (p.after (cs ++ ['\n'])) ds).tokens := by
  induction cs using scan_induction generalizing p with
  | blank cs hcs =>
    have htrivia : trivia (cs ++ ['\n'] ++ ds) = cs ++ ['\n'] ++ trivia ds := by
      rw [List.append_assoc, List.append_assoc]
      exact (triviaFrom_append_feed false cs ds).trans (if_pos hcs)
    rw [scan_nil hcs, ← tokens_scan_gap htrivia, List.append_assoc]
    rfl
  | lexeme gap c rest hgap ih =>
    have hgap' : trivia (gap ++ c :: (rest ++ '\n' :: ds)) = gap := by
      have hne : ¬ trivia (gap ++ c :: rest) = gap ++ c :: rest := fun heq => by simp [hgap] at heq
      rw [← List.cons_append, ← List.append_assoc]
      exact (triviaFrom_append_feed false _ ds).trans ((if_neg hne).trans hgap)
    rw [scan_cons hgap] at h
    obtain ⟨hflaw, hrest⟩ := List.forall_mem_cons.mp h
    have hdrop : (c :: (rest ++ '\n' :: ds)).drop (Lexeme.read c rest).spelling.length =
        (c :: rest).drop (Lexeme.read c rest).spelling.length ++ '\n' :: ds :=
      List.drop_append_of_le_length (Lexeme.spelling_isPrefix c rest).length_le
    have hstop : ((p.after gap).after (Lexeme.read c rest).spelling).after
          ((c :: rest).drop (Lexeme.read c rest).spelling.length ++ ['\n']) = p.after (gap ++ c :: rest ++ ['\n']) := by
      have hspelling := List.prefix_iff_eq_append.mp (Lexeme.spelling_isPrefix c rest)
      rw [← Place.after_append, ← List.append_assoc, hspelling, ← Place.after_append, List.append_assoc]
    rw [List.append_assoc, List.cons_append, tokens_scan_cons hgap', Lexeme.read_append_blank hflaw rfl, hdrop, ih hrest,
      hstop, scan_cons hgap]
    rfl

/-! ### Texts that start elsewhere -/

/-- The place some lines further down and some characters further on, in the same column. -/
def Place.moved (lines distance : Nat) (p : Place) : Place :=
  ⟨p.offset + distance, p.line + lines, p.column⟩

/-- The token some lines further down and some characters further on in its text. -/
def Token.moved (lines distance : Nat) (t : Token) : Token :=
  { t with line := t.line + lines, start := t.start + distance, stop := t.stop + distance }

private theorem after_moved (lines distance : Nat) (p : Place) (cs : List Char) :
    (p.moved lines distance).after cs = (p.after cs).moved lines distance := by
  induction cs generalizing p with
  | nil => rfl
  | cons c cs ih =>
    have hstep : (p.moved lines distance).step c = (p.step c).moved lines distance := by
      unfold Place.step
      split <;> simp only [Place.moved, Nat.add_right_comm]
    rw [Place.after_cons, Place.after_cons, hstep, ih]

/-- The tokens of a text that starts further down and further on, in the same column, are moved as the text is. -/
theorem tokens_scan_moved (lines distance : Nat) (p : Place) (cs : List Char) :
    (scan (p.moved lines distance) cs).tokens = (scan p cs).tokens.map (Token.moved lines distance) := by
  induction cs using scan_induction generalizing p with
  | blank cs hcs =>
    rw [scan_nil hcs, scan_nil hcs, after_moved]
    rfl
  | lexeme gap c rest hgap ih =>
    rw [tokens_scan_cons hgap, tokens_scan_cons hgap, after_moved, after_moved, ih, List.map_cons]
    simp only [Piece.token, Piece.stop, after_moved]
    rfl

/-- Behind a text and a line feed, the first column of a line starts. -/
theorem Place.start_after_feed (cs : List Char) :
    start.after (cs ++ ['\n']) = start.moved (cs.count '\n' + 1) (cs.length + 1) := by
  have hline := start.line_after (cs ++ ['\n'])
  have hoffset := start.offset_after (cs ++ ['\n'])
  have hcolumn : (start.after (cs ++ ['\n'])).column = 1 := by
    rw [after_append]
    rfl
  rw [List.count_append] at hline
  rw [List.length_append] at hoffset
  exact Place.mk.injEq .. ▸ ⟨hoffset, hline, hcolumn⟩

/-- Two tokens that say the same, the second one further on in its text. -/
structure Token.Shifted (distance : Nat) (t u : Token) : Prop extends t.Alike u where
  start : u.start = t.start + distance
  stop : u.stop = t.stop + distance

theorem shifted_moved (lines distance : Nat) (ts : List Token) :
    List.Forall₂ (Token.Shifted distance) ts (ts.map (Token.moved lines distance)) :=
  List.forall₂_map_right_iff.mpr (List.forall₂_same.mpr fun _ _ => ⟨⟨rfl, rfl⟩, rfl, rfl⟩)

/-- The tokens of a text lie in it. -/
theorem within_of_mem_scan (p : Place) (cs : List Char) :
    ∀ t ∈ (scan p cs).tokens, p.offset ≤ t.start ∧ t.start ≤ t.stop ∧ t.stop ≤ p.offset + cs.length := by
  induction cs using scan_induction generalizing p with
  | blank cs hcs =>
    have hstop := p.offset_after cs
    rw [scan_nil hcs]
    simp only [Scanned.tokens, List.map_nil, List.nil_append, List.mem_singleton, forall_eq, Token.ending, hstop]
    omega
  | lexeme gap c rest hgap ih =>
    have hspelling := (Lexeme.spelling_isPrefix c rest).length_le
    have hstart := p.offset_after gap
    have hstop := (p.after gap).offset_after (Lexeme.read c rest).spelling
    rw [tokens_scan_cons hgap, List.forall_mem_cons, List.length_append]
    constructor
    · simp only [Piece.token, Piece.stop]
      omega
    · intro t ht
      have hin := ih _ t ht
      rw [List.length_drop] at hin
      omega

/-! ### Kinds of lexemes -/

private theorem symbols_ne_endOfInput : ∀ entry ∈ symbols, entry.2 ≠ .endOfInput := by decide

theorem Lexeme.read_kind_ne_endOfInput (c : Char) (cs : List Char) : (Lexeme.read c cs).kind ≠ .endOfInput := by
  unfold Lexeme.read
  split
  · unfold Lexeme.number
    split <;> exact TokenKind.noConfusion
  split
  · show Lexeme.wordKind _ ≠ _
    unfold Lexeme.wordKind
    repeat' split
    all_goals exact TokenKind.noConfusion
  split
  · unfold Lexeme.string
    simp only
    split <;> exact TokenKind.noConfusion
  · unfold Lexeme.symbol
    split
    · next hfind => exact symbols_ne_endOfInput _ (List.mem_of_find?_eq_some hfind)
    · exact TokenKind.noConfusion

theorem kind_ne_endOfInput_of_mem_pieces {p : Place} {cs : List Char} {t : Token}
    (ht : t ∈ (scan p cs).pieces.map Piece.token) : t.kind ≠ .endOfInput := by
  obtain ⟨piece, hpiece, rfl⟩ := List.mem_map.mp ht
  obtain ⟨c, rest, hread⟩ := scan_lexemes p cs piece hpiece
  show piece.lexeme.kind ≠ _
  rw [hread]
  exact Lexeme.read_kind_ne_endOfInput c rest

/-! ### String literals left open -/

/-- A string literal that is not closed goes up to the end of the text, or to a backslash there. -/
theorem StringBody.spelling_of_unclosed {cs : List Char} (h : (StringBody.read cs).closed = false) :
    ∃ rest, cs = (StringBody.read cs).spelling ++ rest ∧ (rest = [] ∨ rest = ['\\']) := by
  fun_induction StringBody.read cs with
  | case1 => exact ⟨[], rfl, .inl rfl⟩
  | case2 cs => cases h
  | case3 => exact ⟨['\\'], rfl, .inr rfl⟩
  | case4 c cs body d hd ih | case5 c cs body hn ih =>
    obtain ⟨rest, hcs, hrest⟩ := ih h
    exact ⟨rest, congrArg ('\\' :: c :: ·) hcs, hrest⟩
  | case6 c cs hquote hlone hslash body ih =>
    obtain ⟨rest, hcs, hrest⟩ := ih h
    exact ⟨rest, congrArg (c :: ·) hcs, hrest⟩

/-- A lexeme that is a string literal left open is invalid, and goes up to the end of the text or to a backslash there.
-/
theorem Lexeme.of_unclosed {c : Char} {cs : List Char} (h : (Lexeme.read c cs).flaw = some .unclosedString) :
    (Lexeme.read c cs).kind = .invalid ∧
      ((c :: cs).drop (Lexeme.read c cs).spelling.length = [] ∨
        (c :: cs).drop (Lexeme.read c cs).spelling.length = ['\\']) := by
  obtain ⟨-, hclosed, hread⟩ := Lexeme.read_of_unclosed h
  obtain ⟨rest, hcs, hrest⟩ := StringBody.spelling_of_unclosed hclosed
  have hdrop : cs.drop (StringBody.read cs).spelling.length = rest :=
    (congrArg (List.drop _) hcs).trans List.drop_left
  rw [hread, List.length_cons, List.drop_succ_cons, hdrop]
  exact ⟨rfl, hrest⟩

/-- A text in which a string literal is left open ends with an invalid token. -/
theorem invalid_of_unclosed {p : Place} {cs : List Char} {piece : Piece} (hpiece : piece ∈ (scan p cs).pieces)
    (h : piece.lexeme.flaw = some .unclosedString) :
    ∃ last ∈ ((scan p cs).pieces.map Piece.token).getLast?, last.kind = .invalid := by
  induction cs using scan_induction generalizing p with
  | blank cs hcs =>
    rw [scan_nil hcs] at hpiece
    cases hpiece
  | lexeme gap c rest hgap ih =>
    rw [scan_cons hgap] at hpiece ⊢
    simp only [List.map_cons, List.getLast?_cons]
    rcases List.mem_cons.mp hpiece with rfl | hbehind
    · obtain ⟨hkind, hdrop | hdrop⟩ := Lexeme.of_unclosed h
      · rw [hdrop, scan_nil rfl]
        exact ⟨_, rfl, hkind⟩
      · have hread : (Lexeme.read '\\' []).kind = .invalid ∧
            (['\\']).drop (Lexeme.read '\\' []).spelling.length = [] := by decide
        have hgap : trivia ([] ++ ['\\']) = [] := rfl
        have hnone : trivia [] = [] := rfl
        have hback := scan_cons hgap
        simp only [List.nil_append, hread.2, scan_nil hnone] at hback
        rw [hdrop, hback]
        exact ⟨_, rfl, hread.1⟩
    · obtain ⟨last, hlast, hkind⟩ := ih hbehind
      rw [hlast]
      exact ⟨last, rfl, hkind⟩

/-! ### Two texts -/

/-- The tokens of two texts with a line feed between them are those of the first one without the mark for its end, and
those of the other one, moved down by the lines and on by the length of the first text and the line feed, unless a
string literal is left open in the first text. -/
theorem tokenize_append_feed {cs : List Char}
    (h : ∀ t ∈ tokenize cs, t.kind = .invalid → t.text.toList.head? ≠ some '\x22') (ds : List Char) :
    tokenize (cs ++ '\n' :: ds) =
      (tokenize cs).dropLast ++ (tokenize ds).map (Token.moved (cs.count '\n' + 1) (cs.length + 1)) := by
  have hclosed : ∀ piece ∈ (scan .start cs).pieces, piece.lexeme.flaw ≠ some .unclosedString := by
    intro piece hpiece hflaw
    have hmem : piece.token ∈ tokenize cs := List.mem_append_left _ (List.mem_map_of_mem hpiece)
    obtain ⟨c, rest, hread⟩ := scan_lexemes .start cs piece hpiece
    rw [hread] at hflaw
    obtain ⟨-, -, hopen⟩ := Lexeme.read_of_unclosed hflaw
    rw [hopen] at hread
    refine h piece.token hmem (congrArg Lexeme.kind hread) ?_
    show piece.lexeme.value.toList.head? = _
    rw [hread]
    simp
  have hbefore : (tokenize cs).dropLast = (scan .start cs).pieces.map Piece.token := List.dropLast_concat
  rw [hbefore, tokenize, tokens_scan_append_feed hclosed, Place.start_after_feed, tokens_scan_moved, tokenize]

/-- A stray backslash, a comment with a quote in it, and a number with a dot behind it. -/
def dotText : List Char :=
  "\\ // \"a\n1.".toList

/-- A number, and a string literal that is left open. -/
def openText : List Char :=
  "5 \"b".toList

/-- The dot takes no digits from the next line, and only the other text leaves a string literal open. -/
theorem tokenize_dotText_openText :
    (∀ t ∈ tokenize dotText, t.kind = .invalid → t.text.toList.head? ≠ some '\x22') ∧
      tokenize (dotText ++ '\n' :: openText) =
        [⟨.invalid, some "\\", 1, 1, 0, 1⟩, ⟨.integer, some "1", 2, 1, 8, 9⟩, ⟨.dot, some ".", 2, 2, 9, 10⟩,
         ⟨.integer, some "5", 3, 1, 11, 12⟩, ⟨.invalid, some "\"b", 3, 3, 13, 15⟩,
         ⟨.endOfInput, none, 3, 5, 15, 15⟩] := by
  have hclosed : ∀ t ∈ tokenize dotText, t.kind = .invalid → t.text.toList.head? ≠ some '\x22' := by decide +kernel
  refine ⟨hclosed, (tokenize_append_feed hclosed openText).trans ?_⟩
  decide +kernel

end ScopeLint
