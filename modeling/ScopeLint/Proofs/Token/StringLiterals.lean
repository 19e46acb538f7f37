import ScopeLint.Proofs.Token.Concatenation

/-!
# String literals

Behind its opening quote, a string literal goes on in units: a backslash and the character behind it are one
(`Units`).  It is closed by the first quote that stands between two units, and only by that
(`StringBody.read_units`, `StringBody.exists_units`).  What any way of escaping a text writes is read back as the text
(`StringBody.read_escapes`).
-/

namespace ScopeLint

/-- The characters that may be written as a backslash and another character, with that character. -/
def escapePairs : List (Char × Char) :=
  [('\\', '\\'), ('\x22', '\x22'), ('\n', 'n'), ('\t', 't'), ('\r', 'r')]

/-- A way to write a text between quotation marks: a backslash and a quote have to be escaped, a line feed, a tab and a
carriage return may be, and every other character stands for itself. -/
inductive Escapes : List Char → List Char → Prop where
  | nothing : Escapes [] []
  | pair {c d : Char} {value written : List Char} (mem : (c, d) ∈ escapePairs) (rest : Escapes value written) :
      Escapes (c :: value) ('\\' :: d :: written)
  | raw {c : Char} {value written : List Char} (bare : c ∉ ['\x22', '\\']) (rest : Escapes value written) :
      Escapes (c :: value) (c :: written)

/-- Characters that are put together from units: a backslash with any character behind it, or another character that is
no quote. -/
inductive Units : List Char → Prop where
  | nothing : Units []
  | pair {c : Char} {cs : List Char} (rest : Units cs) : Units ('\\' :: c :: cs)
  | single {c : Char} {cs : List Char} (bare : c ∉ ['\x22', '\\']) (rest : Units cs) : Units (c :: cs)

/-! ### Units -/

namespace Units

theorem of_pair {c : Char} {cs : List Char} (h : Units ('\\' :: c :: cs)) : Units cs := by
  cases h with
  | pair rest => exact rest
  | single bare => simp at bare

theorem of_single {c : Char} {cs : List Char} (hbare : c ∉ ['\x22', '\\']) (h : Units (c :: cs)) : Units cs := by
  cases h with
  | pair => simp at hbare
  | single _ rest => exact rest

/-- A backslash behind units has nothing to pair with. -/
theorem append_backslash {cs : List Char} (h : Units cs) : ¬ Units (cs ++ ['\\']) := by
  induction h with
  | nothing =>
    intro hlone
    cases hlone with
    | single bare => simp at bare
  | pair _ ih => exact fun hunits => ih hunits.of_pair
  | single bare _ ih => exact fun hunits => ih (hunits.of_single bare)

end Units

namespace StringBody

/-- A character that is neither quote nor backslash belongs to the literal. -/
theorem read_single {c : Char} (hbare : c ∉ ['\x22', '\\']) (cs : List Char) :
    read (c :: cs) =
      ⟨c :: (read cs).value, c :: (read cs).spelling, (read cs).strangeEscapes, (read cs).closed⟩ := by
  obtain ⟨hquote, hslash⟩ : c ≠ '\x22' ∧ c ≠ '\\' := by simpa using hbare
  rw [read]
  · exact hquote
  · exact fun h => absurd h hslash
  · exact fun _ _ h => absurd h hslash

/-- A backslash and the character behind it are not looked at for a quote. -/
theorem read_pair (c : Char) (cs : List Char) :
    (read ('\\' :: c :: cs)).spelling = '\\' :: c :: (read cs).spelling ∧
      (read ('\\' :: c :: cs)).closed = (read cs).closed := by
  rw [read]
  cases unescape? c <;> exact ⟨rfl, rfl⟩

/-- A literal goes up to the first quote behind units. -/
theorem read_units {inner : List Char} (h : Units inner) (behind : List Char) :
    (read (inner ++ '\x22' :: behind)).spelling = inner ++ ['\x22'] ∧
      (read (inner ++ '\x22' :: behind)).closed = true := by
  induction h with
  | nothing => exact ⟨rfl, rfl⟩
  | @pair c cs _ ih =>
    obtain ⟨hspelling, hclosed⟩ := read_pair c (cs ++ '\x22' :: behind)
    exact ⟨hspelling.trans (congrArg ('\\' :: c :: ·) ih.1), hclosed.trans ih.2⟩
  | @single c cs bare _ ih =>
    rw [List.cons_append, read_single bare]
    exact ⟨congrArg (c :: ·) ih.1, ih.2⟩

/-- What a literal is made of before its closing quote, or before it stops without one. -/
theorem exists_units (cs : List Char) :
    ∃ inner, Units inner ∧ (read cs).spelling = inner ++ if (read cs).closed then ['\x22'] else [] := by
  fun_induction read cs with
  | case1 => exact ⟨[], .nothing, rfl⟩
  | case2 => exact ⟨[], .nothing, rfl⟩
  | case3 => exact ⟨[], .nothing, rfl⟩
  | case4 c cs body d hd ih | case5 c cs body hn ih =>
    obtain ⟨inner, hunits, hspelling⟩ := ih
    exact ⟨'\\' :: c :: inner, .pair hunits, congrArg ('\\' :: c :: ·) hspelling⟩
  | case6 c cs hquote hlone hslash body ih =>
    obtain ⟨inner, hunits, hspelling⟩ := ih
    have hbare : c ∉ ['\x22', '\\'] := by simpa using ⟨hquote, ne_slash_of hlone hslash⟩
    exact ⟨c :: inner, .single hbare hunits, congrArg (c :: ·) hspelling⟩

theorem closed_iff {cs : List Char} :
    (read cs).closed = true ↔ ∃ inner behind, Units inner ∧ cs = inner ++ '\x22' :: behind := by
  constructor
  · intro hclosed
    obtain ⟨inner, hunits, hspelling⟩ := exists_units cs
    obtain ⟨behind, hcs⟩ := spelling_isPrefix cs
    rw [hclosed, if_pos rfl] at hspelling
    rw [hspelling, List.append_assoc, List.singleton_append] at hcs
    exact ⟨inner, behind, hunits, hcs.symm⟩
  · rintro ⟨inner, behind, hunits, rfl⟩
    exact (read_units hunits behind).2

/-- A literal that is not closed takes the whole text, but for a backslash at its end that has nothing to pair with. -/
theorem length_spelling_of_unclosed {cs : List Char} (h : (read cs).closed = false) :
    ((∃ inner, Units inner ∧ cs = inner ++ ['\\']) → (read cs).spelling.length + 1 = cs.length) ∧
      ((¬ ∃ inner, Units inner ∧ cs = inner ++ ['\\']) → (read cs).spelling.length = cs.length) := by
  obtain ⟨inner, hunits, hspelling⟩ := exists_units cs
  obtain ⟨rest, hcs, hrest⟩ := spelling_of_unclosed h
  simp only [h, Bool.false_eq_true, if_false, List.append_nil] at hspelling
  rw [hspelling] at hcs ⊢
  rcases hrest with rfl | rfl
  · rw [List.append_nil] at hcs
    subst hcs
    constructor
    · rintro ⟨front, hfront, hlone⟩
      exact absurd (hlone ▸ hunits) hfront.append_backslash
    · exact fun _ => rfl
  · constructor
    · intro _
      rw [hcs, List.length_append, List.length_singleton]
    · intro hnone
      exact absurd ⟨inner, hunits, hcs⟩ hnone

/-- A text is read back from whatever way of escaping it. -/
theorem read_escapes {value written : List Char} (h : Escapes value written) (behind : List Char) :
    read (written ++ '\x22' :: behind) = ⟨value, written ++ ['\x22'], [], true⟩ := by
  induction h with
  | nothing => rfl
  | @pair c d value written mem _ ih =>
    have hescape : unescape? d = some c := by
      have hpairs : ∀ pair ∈ escapePairs, unescape? pair.2 = some pair.1 := by decide
      exact hpairs _ mem
    simp only [List.cons_append, read, hescape, ih]
  | raw bare _ ih => rw [List.cons_append, read_single bare, ih, List.cons_append]

end StringBody

theorem Lexeme.string_of_closed {cs : List Char} (h : (StringBody.read cs).closed = true) :
    (Lexeme.string cs).kind = .string ∧ (Lexeme.string cs).value = String.ofList (StringBody.read cs).value := by
  simp [Lexeme.string, h]

theorem Lexeme.string_of_unclosed {cs : List Char} (h : (StringBody.read cs).closed = false) :
    (Lexeme.string cs).kind = .invalid := by
  simp [Lexeme.string, h]

/-- The first token of a text that starts with a quote. -/
theorem tokenize_cons_quote (cs : List Char) :
    ∃ rest, tokenize ('\x22' :: cs) =
      ⟨(Lexeme.string cs).kind, some (Lexeme.string cs).value, 1, 1, 0,
        ((StringBody.read cs).spelling.length + 1 : Nat)⟩ :: rest := by
  have hgap : trivia ([] ++ '\x22' :: cs) = [] := trivia_eq_nil rfl (by simp)
  have htokens := tokens_scan_cons hgap .start
  have hread : Lexeme.read '\x22' cs = Lexeme.string cs := rfl
  refine ⟨_, htokens.trans (congrArg (· :: _) ?_)⟩
  simp only [Piece.token, Piece.stop, hread, Place.offset_after, Lexeme.string_spelling, List.length_cons]
  simp [Place.start]

/-- String literals at the start of a text.  Whatever way a text is escaped, it is read back from between quotation
marks.  A literal is closed if and only if a quote stands behind units somewhere, and ends right behind that; else it is
invalid and goes up to the end of the text, or to a backslash there that has nothing to pair with. -/
theorem tokenize_quote :
    (∀ value written behind, Escapes value written → ∃ rest, tokenize ('\x22' :: (written ++ '\x22' :: behind)) =
      ⟨.string, some (String.ofList value), 1, 1, 0, (written.length + 2 : Nat)⟩ :: rest) ∧
    ∀ cs, ∃ first rest, tokenize ('\x22' :: cs) = first :: rest ∧ first.start = 0 ∧
      (first.kind = .string ↔ ∃ inner behind, Units inner ∧ cs = inner ++ '\x22' :: behind) ∧
      (∀ inner behind, Units inner → cs = inner ++ '\x22' :: behind → first.stop = (inner.length + 2 : Nat)) ∧
      (first.kind ≠ .string → first.kind = .invalid ∧
        ((∃ inner, Units inner ∧ cs = inner ++ ['\\']) → first.stop = cs.length) ∧
        ((¬ ∃ inner, Units inner ∧ cs = inner ++ ['\\']) → first.stop = (cs.length + 1 : Nat))) := by
  constructor
  · intro value written behind hescapes
    obtain ⟨rest, htokens⟩ := tokenize_cons_quote (written ++ '\x22' :: behind)
    have hread := StringBody.read_escapes hescapes behind
    obtain ⟨hkind, hvalue⟩ := Lexeme.string_of_closed (congrArg StringBody.closed hread)
    rw [hkind, hvalue, hread, List.length_append] at htokens
    exact ⟨rest, htokens⟩
  · intro cs
    obtain ⟨rest, htokens⟩ := tokenize_cons_quote cs
    refine ⟨_, rest, htokens, rfl, ?_, ?_, ?_⟩
    · show (Lexeme.string cs).kind = .string ↔ _
      rw [← StringBody.closed_iff]
      cases hclosed : (StringBody.read cs).closed with
      | true => simp [Lexeme.string_of_closed hclosed]
      | false => simp [Lexeme.string_of_unclosed hclosed]
    · rintro inner behind hunits rfl
      show (((StringBody.read (inner ++ '\x22' :: behind)).spelling.length + 1 : Nat) : Int) = _
      rw [(StringBody.read_units hunits behind).1, List.length_append, List.length_singleton]
    · intro hkind
      have hopen : (StringBody.read cs).closed = false := by
        by_contra hclosed
        exact hkind (Lexeme.string_of_closed (Bool.not_eq_false _ ▸ hclosed)).1
      obtain ⟨hbackslash, hwhole⟩ := StringBody.length_spelling_of_unclosed hopen
      refine ⟨Lexeme.string_of_unclosed hopen, fun h => ?_, fun h => ?_⟩
      · exact congrArg Nat.cast (hbackslash h)
      · exact congrArg (fun n : Nat => ((n + 1 : Nat) : Int)) (hwhole h)

/-- A backslash, a quote, a tab and a line feed that are escaped, and a line feed that is not. -/
def writtenText : List Char :=
  "\\\\\\\"\\t\\n\n".toList

/-- A quote that is escaped, and a backslash at the end of the text. -/
def halfPair : List Char :=
  "\\\"\\".toList

theorem tokenize_writtenText_halfPair :
    Escapes "\\\"\t\n\n".toList writtenText ∧
      (∃ rest, tokenize ('\x22' :: (writtenText ++ '\x22' :: halfPair)) =
        ⟨.string, some "\\\"\t\n\n", 1, 1, 0, 11⟩ :: rest) ∧
      ∃ first rest, tokenize ('\x22' :: halfPair) = first :: rest ∧ first.kind = .invalid ∧ first.stop = 3 := by
  have hescapes : Escapes "\\\"\t\n\n".toList writtenText :=
    .pair (by decide) (.pair (by decide) (.pair (by decide) (.pair (by decide) (.raw (by decide) .nothing))))
  obtain ⟨hread, hfirst⟩ := tokenize_quote
  obtain ⟨first, rest, htokens, -, -, -, hopen⟩ := hfirst halfPair
  have hinvalid : (tokenize ('\x22' :: halfPair)).head?.map Token.kind = some .invalid := by decide +kernel
  have hkind : first.kind = .invalid := by simpa [htokens] using hinvalid
  have hlone : ∃ inner, Units inner ∧ halfPair = inner ++ ['\\'] := ⟨['\\', '\x22'], .pair .nothing, rfl⟩
  have hstop := (hopen (by simp [hkind])).2.1 hlone
  exact ⟨hescapes, hread _ _ halfPair hescapes, first, rest, htokens, hkind, hstop⟩

end ScopeLint
