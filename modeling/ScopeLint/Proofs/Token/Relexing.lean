import ScopeLint.Proofs.Grammar.Word
import ScopeLint.Proofs.Token.Lexemes
import ScopeLint.Token.Scan

/-!
# Reading words back from their text

A word that some text starts with is read back from its own spelling, wherever a space or the end of the text stands
behind it (`Word.Lexed.read_spelled`).  So words that are written with single spaces between them are the words of the
tokens of the text (`words_tokenize`).
-/

namespace ScopeLint

/-- The text is empty or starts with a space. -/
def Spaced (cs : List Char) : Prop :=
  ∀ c ∈ cs.head?, c = ' '

theorem Spaced.parted {cs : List Char} (h : Spaced cs) : Parted cs :=
  fun c hc => h c hc ▸ rfl

/-- The word is said by the lexeme at the head of some text, and belongs to the language. -/
def Word.Lexed (w : Word) : Prop :=
  ∃ c cs, (Lexeme.read c cs).kind = w.kind ∧ (Lexeme.read c cs).value = w.text ∧ w.kind ≠ .invalid

/-! ### String literals -/

private theorem read_escaped (c : Char) (cs : List Char) :
    StringBody.read (Word.escaped c ++ cs) =
      ⟨c :: (StringBody.read cs).value, Word.escaped c ++ (StringBody.read cs).spelling,
        (StringBody.read cs).strangeEscapes, (StringBody.read cs).closed⟩ := by
  unfold Word.escaped
  split
  · next h =>
    rcases h with rfl | rfl <;> simp [StringBody.read, unescape?]
  · next h =>
    obtain ⟨hquote, hslash⟩ := not_or.mp h
    simp only [List.singleton_append]
    rw [StringBody.read.eq_def]
    split <;> simp_all

/-- A string literal is read back from its escaped value. -/
theorem StringBody.read_escaped_append (value rest : List Char) :
    StringBody.read (value.flatMap Word.escaped ++ '\x22' :: rest) =
      ⟨value, value.flatMap Word.escaped ++ ['\x22'], [], true⟩ := by
  induction value with
  | nil => simp [StringBody.read]
  | cons c value ih =>
    rw [List.flatMap_cons, List.append_assoc, read_escaped, ih]
    simp

/-! ### Words -/

/-- A lexeme says a word in the spelling of the word. -/
private structure Rereads (w : Word) (c : Char) (cs rest : List Char) : Prop where
  trivia : trivia (c :: cs ++ rest) = []
  kind : (Lexeme.read c (cs ++ rest)).kind = w.kind
  value : (Lexeme.read c (cs ++ rest)).value = w.text
  spelling : (Lexeme.read c (cs ++ rest)).spelling = c :: cs

/-- A word of the language is read back from its spelling. -/
theorem Word.Lexed.read_spelled {w : Word} (h : w.Lexed) :
    ∃ c cs, w.spelled = c :: cs ∧ ∀ rest, Spaced rest → Rereads w c cs rest := by
  obtain ⟨c, cs, hkind, hvalue, hvalid⟩ := h
  obtain ⟨kind, text⟩ := w
  subst hkind hvalue
  by_cases hstring : (Lexeme.read c cs).kind = .string
  · obtain ⟨rfl, hclosed, hstart⟩ := Lexeme.read_of_string hstring
    have hread : ∀ rest, Lexeme.read '\x22' rest = Lexeme.string rest := fun _ => rfl
    rw [hread]
    refine ⟨'\x22', (StringBody.read cs).value.flatMap Word.escaped ++ ['\x22'], ?_, fun rest hrest => ?_⟩
    · simp [Lexeme.string, hclosed, Word.spelled]
    · have hback := StringBody.read_escaped_append (StringBody.read cs).value rest
      refine ⟨trivia_eq_nil (by decide) ?_, ?_, ?_, ?_⟩
      · rintro ⟨tail, h⟩
        cases (List.cons.inj h).1
      all_goals
        rw [hread, List.append_assoc, List.singleton_append]
        simp only [Lexeme.string, hback, hclosed, if_true]
  · obtain ⟨tail, htail⟩ := Lexeme.exists_cons_spelling c cs
    refine ⟨c, tail, ?_, fun rest hrest => ?_⟩
    · rw [Word.spelled, if_neg hstring, Lexeme.value_of_ne_string hstring, htail]
      exact String.toList_ofList
    · have hback := Lexeme.read_spelling_append hvalid htail hrest.parted
      refine ⟨htail ▸ Lexeme.trivia_spelling_append hvalid hrest.parted, ?_, ?_, ?_⟩ <;> rw [hback]
      exact htail

/-! ### The words of a text -/

/-- What is written behind the first of some words: the others, each behind a space. -/
private def behindFirst (ws : List Word) : List Char :=
  ws.flatMap fun w => ' ' :: w.spelled

private theorem spaced_behindFirst (ws : List Word) : Spaced (behindFirst ws) := by
  cases ws with
  | nil => simp [Spaced, behindFirst]
  | cons w ws => simp [Spaced, behindFirst]

private theorem intercalate_spelled (w : Word) (ws : List Word) :
    [' '].intercalate ((w :: ws).map Word.spelled) = w.spelled ++ behindFirst ws := by
  induction ws generalizing w with
  | nil => simp [behindFirst]
  | cons v ws ih =>
    rw [List.map_cons, List.map_cons, List.intercalate_cons_cons, ← List.map_cons, ih]
    simp [behindFirst]

private theorem trivia_space (cs : List Char) : trivia (' ' :: cs) = ' ' :: trivia cs := by
  simp [trivia, triviaFrom, isBlank]

private theorem scan_spelled {gap : List Char} (hgap : gap = [] ∨ gap = [' ']) {w : Word} (hw : w.Lexed)
    {rest : List Char} (hrest : Spaced rest) (p : Place) :
    ∃ q, (scan p (gap ++ (w.spelled ++ rest))).tokens.map Token.word = w :: (scan q rest).tokens.map Token.word := by
  obtain ⟨c, cs, hspelled, hread⟩ := hw.read_spelled
  obtain ⟨htrivia, hkind, hvalue, hspelling⟩ := hread rest hrest
  rw [hspelled]
  have hgaps : trivia (gap ++ (c :: cs ++ rest)) = gap := by
    rcases hgap with rfl | rfl
    · exact htrivia
    · rw [List.singleton_append, trivia_space, htrivia]
  have hdrop : (gap ++ (c :: cs ++ rest)).drop gap.length = c :: (cs ++ rest) := by
    rw [List.drop_left]
    rfl
  rw [scan]
  split
  · next h =>
    rw [hgaps, hdrop] at h
    cases h
  · next d ds h =>
    rw [hgaps, hdrop] at h
    cases h
    refine ⟨(p.after gap).after (c :: cs), ?_⟩
    have hrest' : (c :: (cs ++ rest)).drop (c :: cs).length = rest := List.drop_left' rfl
    rw [List.cons_append] at hgaps
    simp only [hgaps, hspelling, hrest', Scanned.tokens, List.map_cons, List.cons_append, Piece.token, Token.word,
      Token.text, hkind, hvalue, Option.getD_some]

/-- Words behind a space each are the words of the tokens of their text. -/
private theorem scan_behindFirst {ws : List Word} (hws : ∀ w ∈ ws, w.Lexed) (p : Place) :
    (scan p (behindFirst ws)).tokens.map Token.word = ws ++ [⟨.endOfInput, ""⟩] := by
  induction ws generalizing p with
  | nil => rw [behindFirst, List.flatMap_nil, scan]; rfl
  | cons w ws ih =>
    obtain ⟨q, hq⟩ := scan_spelled (.inr rfl) (hws w List.mem_cons_self) (spaced_behindFirst ws) p
    rw [ih (fun v hv => hws v (List.mem_cons_of_mem w hv))] at hq
    simpa [behindFirst] using hq

/-- Words of the language, written with single spaces between them, are the words of the tokens of their text. -/
theorem words_tokenize {ws : List Word} (hws : ∀ w ∈ ws, w.Lexed) :
    (tokenize ([' '].intercalate (ws.map Word.spelled))).map Token.word = ws ++ [⟨.endOfInput, ""⟩] := by
  cases ws with
  | nil => exact scan_behindFirst hws .start
  | cons w ws =>
    obtain ⟨q, hq⟩ := scan_spelled (.inl rfl) (hws w List.mem_cons_self) (spaced_behindFirst ws) .start
    rw [scan_behindFirst (fun v hv => hws v (List.mem_cons_of_mem w hv))] at hq
    rw [intercalate_spelled]
    exact hq

theorem scan_lexemes (p : Place) (cs : List Char) :
    ∀ piece ∈ (scan p cs).pieces, ∃ c rest, piece.lexeme = Lexeme.read c rest := by
  fun_induction scan p cs with
  | case1 => simp
  | case2 p cs gap start c rest h lexeme behind ih =>
    intro piece hpiece
    rcases List.mem_cons.mp hpiece with rfl | hpiece
    · exact ⟨c, rest, rfl⟩
    · exact ih piece hpiece

/-- What the tokens of a text say are words of the language, but for invalid tokens and the mark for the end. -/
theorem lexed_of_mem_tokenize {text : List Char} {t : Token} (ht : t ∈ tokenize text) (hend : t.kind ≠ .endOfInput)
    (hvalid : t.kind ≠ .invalid) : t.word.Lexed := by
  rcases List.mem_append.mp ht with ht | ht
  · obtain ⟨piece, hpiece, rfl⟩ := List.mem_map.mp ht
    obtain ⟨c, rest, hread⟩ := scan_lexemes _ _ piece hpiece
    refine ⟨c, rest, ?_, ?_, hvalid⟩
    · rw [← hread]
      rfl
    · rw [← hread]
      rfl
  · exact absurd (List.mem_singleton.mp ht ▸ rfl) hend

/-! ### What is known of words -/

/-- A word of the language is a number, a word that is spelled like a name, a string or a symbol. -/
theorem Word.Lexed.sorts {w : Word} (h : w.Lexed) :
    ((w.kind = .integer ∨ w.kind = .float) ∧ ∃ c cs, w.text.toList = c :: cs ∧ Text.isDigit c = true) ∨
      (w.kind = Lexeme.wordKind w.text.toList ∧ (∀ c ∈ w.text.toList, isNamePart c = true) ∧
        ∃ c cs, w.text.toList = c :: cs ∧ Text.isDigit c = false) ∨
      w.kind = .string ∨ (w.text, w.kind) ∈ symbols := by
  obtain ⟨c, cs, hkind, hvalue, hvalid⟩ := h
  obtain ⟨kind, text⟩ := w
  subst hkind hvalue
  by_cases hstring : (Lexeme.read c cs).kind = .string
  · exact .inr (.inr (.inl hstring))
  obtain ⟨tail, htail⟩ := Lexeme.exists_cons_spelling c cs
  have htext : (Lexeme.read c cs).value.toList = c :: tail := by
    rw [Lexeme.value_of_ne_string hstring, htail, String.toList_ofList]
  simp only [htext]
  by_cases hdigit : Text.isDigit c = true
  · refine .inl ⟨?_, c, tail, rfl, hdigit⟩
    rw [Lexeme.read, if_pos hdigit]
    unfold Lexeme.number
    split
    · exact .inl rfl
    · exact .inr rfl
  by_cases hname : isNameStart c = true
  · have hread : Lexeme.read c cs = Lexeme.word (c :: cs) := by rw [Lexeme.read, if_neg hdigit, if_pos hname]
    have hword : (c :: cs).takeWhile isNamePart = c :: tail := by
      rw [← htail, hread]
      rfl
    refine .inr (.inl ⟨?_, ?_, c, tail, rfl, Bool.eq_false_iff.mpr hdigit⟩)
    · rw [hread, ← hword]
      rfl
    · exact fun _ hc => List.mem_takeWhile_imp (hword ▸ hc)
  by_cases hquote : c = '\x22'
  · rw [Lexeme.read, if_neg hdigit, if_neg hname, if_pos hquote] at hvalid hstring
    cases hclosed : (StringBody.read cs).closed with
    | true => exact absurd (by simp only [Lexeme.string, hclosed, if_true]) hstring
    | false => exact absurd (by simp [Lexeme.string, hclosed]) hvalid
  · refine .inr (.inr (.inr ?_))
    rw [Lexeme.read, if_neg hdigit, if_neg hname, if_neg hquote] at hvalid ⊢
    unfold Lexeme.symbol at hvalid ⊢
    split
    · next entry hfind => simpa [Lexeme.verbatim] using List.mem_of_find?_eq_some hfind
    · next hfind =>
      rw [hfind] at hvalid
      exact absurd rfl hvalid

private theorem symbols_sign : ∀ entry ∈ symbols, entry.2.sign ≠ "" → entry.1 = entry.2.sign := by decide

private theorem wordKind_sign (word : List Char) : (Lexeme.wordKind word).sign = "" := by
  unfold Lexeme.wordKind
  split
  · rfl
  · split <;> rfl

/-- A mark of punctuation is told by its kind. -/
theorem Word.Lexed.eq_mark {w : Word} (h : w.Lexed) (hsign : w.kind.sign ≠ "") : w = .mark w.kind := by
  obtain ⟨kind, text⟩ := w
  rcases h.sorts with ⟨hk | hk, -⟩ | ⟨hk, -⟩ | hk | hmem
  · exact absurd (congrArg TokenKind.sign hk) hsign
  · exact absurd (congrArg TokenKind.sign hk) hsign
  · exact absurd ((congrArg TokenKind.sign hk).trans (wordKind_sign _)) hsign
  · exact absurd (congrArg TokenKind.sign hk) hsign
  · rw [Word.mark, ← symbols_sign _ hmem hsign]

theorem symbols_not_name : ∀ entry ∈ symbols, entry.2 ≠ .name ∧ entry.2 ≠ .upName ∧ entry.2 ≠ .integer ∧
    entry.2 ≠ .float := by decide

/-- A name of either case is made of the characters of names, and does not start with a digit. -/
theorem Word.Lexed.of_name {w : Word} (h : w.Lexed) (hk : w.kind = .name ∨ w.kind = .upName) :
    w.kind = Lexeme.wordKind w.text.toList ∧ (∀ c ∈ w.text.toList, isNamePart c = true) ∧
      ∃ c cs, w.text.toList = c :: cs ∧ Text.isDigit c = false := by
  rcases h.sorts with ⟨hk' | hk', -⟩ | hname | hk' | hmem
  · rw [hk'] at hk
    simp at hk
  · rw [hk'] at hk
    simp at hk
  · exact hname
  · rw [hk'] at hk
    simp at hk
  · have hnot := symbols_not_name _ hmem
    exact absurd hk (by simp [hnot])

/-- A number starts with a digit. -/
theorem Word.Lexed.of_number {w : Word} (h : w.Lexed) (hk : w.kind = .integer ∨ w.kind = .float) :
    ∃ c cs, w.text.toList = c :: cs ∧ Text.isDigit c = true := by
  rcases h.sorts with ⟨-, hnumber⟩ | ⟨hk', -⟩ | hk' | hmem
  · exact hnumber
  · rw [hk'] at hk
    unfold Lexeme.wordKind at hk
    split at hk
    · simp at hk
    · split at hk <;> simp at hk
  · rw [hk'] at hk
    simp at hk
  · have hnot := symbols_not_name _ hmem
    exact absurd hk (by simp [hnot])

end ScopeLint
