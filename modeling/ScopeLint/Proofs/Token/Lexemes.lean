import Mathlib.Data.List.Find
import Mathlib.Data.List.TakeWhile
import ScopeLint.Token.Lexeme

/-!
# Lexemes and what stands behind them

A lexeme ends before a blank, whatever stands behind that, unless it is a string literal left open
(`Lexeme.read_append_blank`), and it is read from its own spelling alone if it belongs to the language
(`Lexeme.read_spelling`).  So a lexeme of the language is read back from its spelling wherever a blank or the end of the
text stands behind it (`Lexeme.read_spelling_append`), and no blank or comment is found before it
(`Lexeme.trivia_spelling_append`).
-/

namespace ScopeLint

/-- The text is empty or starts with a blank. -/
def Parted (cs : List Char) : Prop :=
  ∀ c ∈ cs.head?, isBlank c = true

instance (cs : List Char) : Decidable (Parted cs) :=
  decidable_of_iff (cs.head?.all isBlank = true) (Option.all_eq_true ..)

/-! ### Stretches of characters of one class -/

theorem takeWhile_append_stop {p : Char → Bool} {cs rest : List Char} (hcs : ∀ c ∈ cs, p c = true)
    (hrest : ∀ c ∈ rest.head?, p c = false) : (cs ++ rest).takeWhile p = cs := by
  rw [List.takeWhile_append_of_pos hcs]
  cases rest with
  | nil => simp
  | cons c rest => simp [hrest c rfl]

theorem dropWhile_append_stop {p : Char → Bool} {cs rest : List Char} (hcs : ∀ c ∈ cs, p c = true)
    (hrest : ∀ c ∈ rest.head?, p c = false) : (cs ++ rest).dropWhile p = rest := by
  rw [List.dropWhile_append_of_pos hcs]
  cases rest with
  | nil => rfl
  | cons c rest => simp [hrest c rfl]

/-! ### Sorts of lexemes -/

theorem symbols_kind : ∀ entry ∈ symbols, entry.2 ≠ .string := by decide

private theorem wordKind_ne_string (word : List Char) : Lexeme.wordKind word ≠ .string := by
  unfold Lexeme.wordKind
  repeat' split
  all_goals exact TokenKind.noConfusion

/-- A lexeme that is a string literal left open is the opening quote with the body behind it, as it is spelled. -/
theorem Lexeme.read_of_unclosed {c : Char} {cs : List Char} (h : (Lexeme.read c cs).flaw = some .unclosedString) :
    c = '\x22' ∧ (StringBody.read cs).closed = false ∧
      Lexeme.read c cs =
        ⟨.invalid, String.ofList ('\x22' :: (StringBody.read cs).spelling), '\x22' :: (StringBody.read cs).spelling,
          (StringBody.read cs).strangeEscapes, some .unclosedString⟩ := by
  unfold Lexeme.read at h ⊢
  split at h
  · unfold Lexeme.number at h
    split at h <;> cases h
  split at h
  · cases h
  split at h
  · next hdigit hname hquote =>
    rw [if_neg hdigit, if_neg hname, if_pos hquote]
    cases hclosed : (StringBody.read cs).closed with
    | true =>
      simp only [Lexeme.string, hclosed, if_true] at h
      cases h
    | false => exact ⟨hquote, rfl, by simp [Lexeme.string, hclosed]⟩
  · unfold Lexeme.symbol at h
    split at h <;> cases h

/-- A string literal that is closed stands behind a quote. -/
theorem Lexeme.read_of_string {c : Char} {cs : List Char} (h : (Lexeme.read c cs).kind = .string) :
    c = '\x22' ∧ (StringBody.read cs).closed = true ∧ Lexeme.read c cs = Lexeme.string cs := by
  unfold Lexeme.read at h ⊢
  split at h
  · unfold Lexeme.number at h
    split at h <;> cases h
  split at h
  · exact absurd h (wordKind_ne_string _)
  split at h
  · next hdigit hname hquote =>
    rw [if_neg hdigit, if_neg hname, if_pos hquote]
    cases hclosed : (StringBody.read cs).closed with
    | true => exact ⟨hquote, rfl, rfl⟩
    | false =>
      simp only [Lexeme.string, hclosed] at h
      cases h
  · unfold Lexeme.symbol at h
    split at h
    · next entry hfind => exact absurd h (symbols_kind entry (List.mem_of_find?_eq_some hfind))
    · cases h

/-- A lexeme that is no string literal means its own spelling. -/
theorem Lexeme.value_of_ne_string {c : Char} {cs : List Char} (h : (Lexeme.read c cs).kind ≠ .string) :
    (Lexeme.read c cs).value = String.ofList (Lexeme.read c cs).spelling := by
  unfold Lexeme.read at h ⊢
  split
  · unfold Lexeme.number
    split <;> rfl
  split
  · rfl
  split
  · next hdigit hname hquote =>
    rw [if_neg hdigit, if_neg hname, if_pos hquote] at h
    cases hclosed : (StringBody.read cs).closed with
    | true => exact absurd (by simp [Lexeme.string, hclosed]) h
    | false => simp [Lexeme.string, hclosed]
  · unfold Lexeme.symbol
    split
    · rfl
    · exact String.singleton_eq_ofList

/-- A lexeme of the language is no string literal left open. -/
theorem Lexeme.flaw_ne_of_valid {c : Char} {cs : List Char} (h : (Lexeme.read c cs).kind ≠ .invalid) :
    (Lexeme.read c cs).flaw ≠ some .unclosedString := by
  intro hflaw
  obtain ⟨-, -, hread⟩ := Lexeme.read_of_unclosed hflaw
  exact h (congrArg Lexeme.kind hread)

theorem Lexeme.exists_cons_spelling (c : Char) (cs : List Char) : ∃ tail, (Lexeme.read c cs).spelling = c :: tail := by
  have hstart := Lexeme.spelling_isPrefix c cs
  cases hspelling : (Lexeme.read c cs).spelling with
  | nil => exact absurd hspelling (Lexeme.spelling_ne_nil c cs)
  | cons d tail =>
    rw [hspelling] at hstart
    exact ⟨tail, by rw [(List.cons_prefix_cons.mp hstart).1]⟩

/-! ### A blank behind a text -/

theorem parts_of_isBlank {b : Char} (hb : isBlank b = true) :
    isNumberPart b = false ∧ isNamePart b = false ∧ Text.isDigit b = false := by
  simp only [isBlank, Bool.or_eq_true, beq_iff_eq, or_assoc] at hb
  rcases hb with rfl | rfl | rfl | rfl <;> decide

theorem takeWhile_append_of_neg {p : Char → Bool} {b : Char} (hb : p b = false) (cs ds : List Char) :
    (cs ++ b :: ds).takeWhile p = cs.takeWhile p := by
  induction cs with
  | nil => simp [hb]
  | cons c cs ih => simp only [List.cons_append, List.takeWhile_cons, ih]

theorem dropWhile_append_of_neg {p : Char → Bool} {b : Char} (hb : p b = false) (cs ds : List Char) :
    (cs ++ b :: ds).dropWhile p = cs.dropWhile p ++ b :: ds := by
  induction cs with
  | nil => simp [hb]
  | cons c cs ih =>
    simp only [List.cons_append, List.dropWhile_cons, ih]
    split <;> rfl

private theorem fraction_append_blank {b : Char} (hb : isBlank b = true) (cs ds : List Char) :
    Lexeme.fraction (cs ++ b :: ds) = Lexeme.fraction cs := by
  obtain ⟨hnumber, -, hdigit⟩ := parts_of_isBlank hb
  match cs with
  | [] =>
    have hpoint : b ≠ '.' := by
      rintro rfl
      cases hb
    simp [Lexeme.fraction, hpoint]
  | [c] =>
    by_cases hc : c = '.'
    · simp [hc, Lexeme.fraction, hdigit]
    · simp [Lexeme.fraction, hc]
  | c :: d :: cs =>
    by_cases hc : c = '.'
    · have hdigits := takeWhile_append_of_neg hnumber (d :: cs) ds
      simp only [List.cons_append] at hdigits
      simp only [hc, List.cons_append, Lexeme.fraction, hdigits]
    · simp [Lexeme.fraction, hc]

theorem Lexeme.number_append_blank {b : Char} (hb : isBlank b = true) (cs ds : List Char) :
    Lexeme.number (cs ++ b :: ds) = Lexeme.number cs := by
  obtain ⟨hnumber, -, -⟩ := parts_of_isBlank hb
  simp only [Lexeme.number, takeWhile_append_of_neg hnumber, dropWhile_append_of_neg hnumber,
    fraction_append_blank hb]

theorem ne_slash_of {c : Char} {cs : List Char} (hlone : c = '\\' → cs ≠ [])
    (hslash : ∀ d ds, c = '\\' → cs ≠ d :: ds) : c ≠ '\\' := by
  intro hc
  cases cs with
  | nil => exact hlone hc rfl
  | cons d cs => exact hslash d cs hc rfl

/-- A string literal that is closed does not look behind its closing quote. -/
theorem StringBody.read_append {cs : List Char} (h : (StringBody.read cs).closed = true) (ds : List Char) :
    StringBody.read (cs ++ ds) = StringBody.read cs := by
  fun_induction StringBody.read cs with
  | case1 => cases h
  | case2 cs => rw [List.cons_append, StringBody.read]
  | case3 => cases h
  | case4 c cs body d hd ih =>
    rw [List.cons_append, List.cons_append, StringBody.read, ih h]
    simp only [hd, body]
  | case5 c cs body hn ih =>
    rw [List.cons_append, List.cons_append, StringBody.read, ih h]
    simp only [hn, body]
  | case6 c cs hquote hlone hslash body ih =>
    have hc : c ≠ '\\' := ne_slash_of hlone hslash
    rw [List.cons_append, StringBody.read, ih h]
    · exact hquote
    · exact fun h => absurd h hc
    · exact fun _ _ h => absurd h hc

private theorem symbols_no_blank : ∀ entry ∈ symbols, ∀ c ∈ entry.1.toList, isBlank c = false := by
  have hnone : ∀ entry ∈ symbols, entry.1.toList.any isBlank = false := by decide
  intro entry hentry c hc
  exact Bool.eq_false_iff.mpr (List.any_eq_false.mp (hnone entry hentry) c hc)

private theorem isPrefix_append_of_notMem {entry : List Char} {b : Char} (hentry : b ∉ entry) (cs ds : List Char) :
    entry <+: cs ++ b :: ds ↔ entry <+: cs := by
  refine ⟨fun h => ?_, fun h => h.trans (List.prefix_append _ _)⟩
  rcases List.prefix_or_prefix_of_prefix h (List.prefix_append cs (b :: ds)) with hle | ⟨more, hmore⟩
  · exact hle
  · rw [← hmore, List.prefix_append_right_inj] at h
    cases more with
    | nil =>
      rw [List.append_nil] at hmore
      exact hmore ▸ List.prefix_refl _
    | cons c more =>
      obtain ⟨rfl, -⟩ := List.cons_prefix_cons.mp h
      exact absurd (hmore ▸ List.mem_append_right _ List.mem_cons_self) hentry

theorem Lexeme.symbol_append_blank {b : Char} (hb : isBlank b = true) (c : Char) (cs ds : List Char) :
    Lexeme.symbol c (cs ++ b :: ds) = Lexeme.symbol c cs := by
  have hsame : symbols.find? (fun entry => entry.1.toList.isPrefixOf (c :: (cs ++ b :: ds))) =
      symbols.find? (fun entry => entry.1.toList.isPrefixOf (c :: cs)) := by
    refine List.find?_congr fun entry hentry => ?_
    have hnotMem : b ∉ entry.1.toList := fun hmem => by simp [symbols_no_blank entry hentry b hmem] at hb
    rw [Bool.eq_iff_iff, List.isPrefixOf_iff_prefix, List.isPrefixOf_iff_prefix, ← List.cons_append]
    exact isPrefix_append_of_notMem hnotMem _ _
  simp only [Lexeme.symbol, hsame]

theorem Lexeme.string_append {cs : List Char} (h : (Lexeme.string cs).flaw ≠ some .unclosedString)
    (ds : List Char) : Lexeme.string (cs ++ ds) = Lexeme.string cs := by
  have hclosed : (StringBody.read cs).closed = true := by
    cases hclosed : (StringBody.read cs).closed with
    | true => rfl
    | false => exact absurd (by simp [Lexeme.string, hclosed]) h
  simp only [Lexeme.string, StringBody.read_append hclosed]

/-- A lexeme that is not a string literal left open ends before a blank behind the text. -/
theorem Lexeme.read_append_blank {c : Char} {cs : List Char} (h : (Lexeme.read c cs).flaw ≠ some .unclosedString)
    {b : Char} (hb : isBlank b = true) (ds : List Char) : Lexeme.read c (cs ++ b :: ds) = Lexeme.read c cs := by
  unfold Lexeme.read at h ⊢
  split
  · exact Lexeme.number_append_blank hb (c :: cs) ds
  split
  · simp only [Lexeme.word, ← List.cons_append, takeWhile_append_of_neg (parts_of_isBlank hb).2.1]
  split
  · simp_all [Lexeme.string_append]
  · exact Lexeme.symbol_append_blank hb c cs ds

/-! ### Spellings -/

private theorem isNumberPart_of_isDigit {c : Char} (h : Text.isDigit c = true) : isNumberPart c = true := by
  simp [isNumberPart, h]

/-- The fraction of a number is read from its own spelling, which goes on no whole number. -/
private theorem fraction_fraction (cs : List Char) :
    Lexeme.fraction (Lexeme.fraction cs) = Lexeme.fraction cs ∧
      ∀ c ∈ (Lexeme.fraction cs).head?, isNumberPart c = false := by
  have hpoint : isNumberPart '.' = false := by decide
  fun_cases Lexeme.fraction cs with
  | case1 c cs hc => simp [Lexeme.fraction, hc, isNumberPart_of_isDigit hc, List.takeWhile_idem, hpoint]
  | case2 c cs hc => simp [Lexeme.fraction]
  | case3 => simp [Lexeme.fraction]

/-- A number is spelled by its whole part and the fraction behind that. -/
theorem Lexeme.spelling_number (cs : List Char) :
    (Lexeme.number cs).spelling = cs.takeWhile isNumberPart ++ Lexeme.fraction (cs.dropWhile isNumberPart) := by
  unfold Lexeme.number
  split
  · next h => simp [Lexeme.verbatim, h]
  · rfl

/-- A number is read from its own spelling. -/
theorem Lexeme.number_spelling (cs : List Char) : Lexeme.number (Lexeme.number cs).spelling = Lexeme.number cs := by
  have hwhole : ∀ c ∈ cs.takeWhile isNumberPart, isNumberPart c = true := fun _ => List.mem_takeWhile_imp
  obtain ⟨hfraction, hpoint⟩ := fraction_fraction (cs.dropWhile isNumberPart)
  rw [Lexeme.spelling_number]
  simp only [Lexeme.number, takeWhile_append_stop hwhole hpoint, dropWhile_append_stop hwhole hpoint, hfraction]

/-- A word is read from its own spelling. -/
theorem Lexeme.word_spelling (cs : List Char) : Lexeme.word (Lexeme.word cs).spelling = Lexeme.word cs := by
  simp only [Lexeme.word, Lexeme.verbatim, List.takeWhile_idem]

/-- The body of a string literal that is closed is read from its own spelling. -/
theorem StringBody.read_spelling {cs : List Char} (h : (StringBody.read cs).closed = true) :
    StringBody.read (StringBody.read cs).spelling = StringBody.read cs := by
  fun_induction StringBody.read cs with
  | case1 => cases h
  | case2 cs => rfl
  | case3 => cases h
  | case4 c cs body d hd ih =>
    rw [StringBody.read, ih h]
    simp only [hd, body]
  | case5 c cs body hn ih =>
    rw [StringBody.read, ih h]
    simp only [hn, body]
  | case6 c cs hquote hlone hslash body ih =>
    have hc : c ≠ '\\' := ne_slash_of hlone hslash
    rw [StringBody.read, ih h]
    · exact hquote
    · exact fun h => absurd h hc
    · exact fun _ _ h => absurd h hc

/-- A symbol is read from its own spelling: a symbol that would be found before it is one of those that would have been
found before it in the first place. -/
private theorem find?_symbols_spelling {cs : List Char} {entry : String × TokenKind}
    (h : symbols.find? (fun entry => entry.1.toList.isPrefixOf cs) = some entry) :
    symbols.find? (fun entry' => entry'.1.toList.isPrefixOf entry.1.toList) = some entry := by
  obtain ⟨hstart, before, behind, hsymbols, hbefore⟩ := List.find?_eq_some_iff_append.mp h
  refine List.find?_eq_some_iff_append.mpr ⟨by simp, before, behind, hsymbols, fun earlier hearlier => ?_⟩
  rw [List.isPrefixOf_iff_prefix] at hstart
  have hnot := hbefore earlier hearlier
  simp only [Bool.not_eq_true', Bool.eq_false_iff, ne_eq, List.isPrefixOf_iff_prefix] at hnot ⊢
  exact fun hle => hnot (hle.trans hstart)

/-- A lexeme of the language is read from its own spelling. -/
theorem Lexeme.read_spelling {c : Char} {cs tail : List Char} (hvalid : (Lexeme.read c cs).kind ≠ .invalid)
    (htail : (Lexeme.read c cs).spelling = c :: tail) : Lexeme.read c tail = Lexeme.read c cs := by
  have hflaw := Lexeme.flaw_ne_of_valid hvalid
  unfold Lexeme.read at hvalid htail hflaw ⊢
  split
  · next hdigit =>
    rw [if_pos hdigit] at htail
    rw [← htail, Lexeme.number_spelling]
  split
  · next hdigit hname =>
    rw [if_neg hdigit, if_pos hname] at htail
    rw [← htail, Lexeme.word_spelling]
  split
  · next hdigit hname hquote =>
    rw [if_neg hdigit, if_neg hname, if_pos hquote] at htail hflaw
    have hclosed : (StringBody.read cs).closed = true := by
      by_contra hopen
      exact hflaw (by simp [Lexeme.string, hopen])
    rw [Lexeme.string_spelling] at htail
    rw [← (List.cons.inj htail).2, Lexeme.string, StringBody.read_spelling hclosed, Lexeme.string]
  · next hdigit hname hquote =>
    rw [if_neg hdigit, if_neg hname, if_neg hquote] at hvalid htail
    cases hfind : symbols.find? (fun entry => entry.1.toList.isPrefixOf (c :: cs)) with
    | none =>
      simp only [Lexeme.symbol, hfind] at hvalid
      exact absurd rfl hvalid
    | some entry =>
      have hsymbol : Lexeme.symbol c cs = .verbatim entry.2 entry.1.toList := by
        simp only [Lexeme.symbol, hfind]
      have hback := find?_symbols_spelling hfind
      rw [hsymbol] at htail ⊢
      have hspelling : entry.1.toList = c :: tail := htail
      rw [hspelling] at hback
      simp only [Lexeme.symbol, hback]

/-- A lexeme of the language is read back from its spelling, wherever a blank or the end of the text stands behind it.
-/
theorem Lexeme.read_spelling_append {c : Char} {cs tail rest : List Char}
    (hvalid : (Lexeme.read c cs).kind ≠ .invalid) (htail : (Lexeme.read c cs).spelling = c :: tail)
    (hrest : Parted rest) : Lexeme.read c (tail ++ rest) = Lexeme.read c cs := by
  have hback := Lexeme.read_spelling hvalid htail
  cases rest with
  | nil => rw [List.append_nil, hback]
  | cons b rest =>
    have hflaw := Lexeme.flaw_ne_of_valid (hback.symm ▸ hvalid)
    rw [Lexeme.read_append_blank hflaw (hrest b rfl), hback]

/-! ### Blanks and comments before a lexeme -/

/-- No blank and no comment stands before a text if and only if it starts with neither. -/
theorem trivia_eq_nil_iff {c : Char} {cs : List Char} :
    trivia (c :: cs) = [] ↔ isBlank c = false ∧ ¬ ['/', '/'] <+: c :: cs := by
  by_cases hcomment : ['/', '/'] <+: c :: cs
  · obtain ⟨rest, hrest⟩ := hcomment
    rw [← hrest]
    simp [trivia, triviaFrom]
  · have hnone : ∀ rest, c = '/' → cs ≠ '/' :: rest := by
      rintro rest rfl rfl
      exact hcomment ⟨rest, rfl⟩
    rw [trivia, triviaFrom]
    · cases hblank : isBlank c <;> simp [hcomment]
    · exact hnone

theorem trivia_eq_nil {c : Char} {cs : List Char} (hblank : isBlank c = false) (hcomment : ¬ ['/', '/'] <+: c :: cs) :
    trivia (c :: cs) = [] :=
  trivia_eq_nil_iff.mpr ⟨hblank, hcomment⟩

private theorem symbols_ne_nil : ∀ entry ∈ symbols, entry.1.toList ≠ [] := by decide

private theorem symbols_no_comment : ∀ entry ∈ symbols, ¬ ['/', '/'] <+: entry.1.toList := by decide

/-- A blank starts no lexeme of the language. -/
theorem Lexeme.isBlank_eq_false {c : Char} {cs : List Char} (hvalid : (Lexeme.read c cs).kind ≠ .invalid) :
    isBlank c = false := by
  by_contra hblank
  rw [Bool.not_eq_false] at hblank
  have hnone : symbols.find? (fun entry => entry.1.toList.isPrefixOf (c :: cs)) = none := by
    refine List.find?_eq_none.mpr fun entry hentry hstart => ?_
    rw [List.isPrefixOf_iff_prefix] at hstart
    obtain ⟨d, tail, hspelling⟩ := List.exists_cons_of_ne_nil (symbols_ne_nil entry hentry)
    have hhead := symbols_no_blank entry hentry
    rw [hspelling] at hstart hhead
    obtain rfl := (List.cons_prefix_cons.mp hstart).1
    rw [hhead d List.mem_cons_self] at hblank
    cases hblank
  have hread : Lexeme.read c cs = Lexeme.symbol c cs := by
    simp only [isBlank, Bool.or_eq_true, beq_iff_eq, or_assoc] at hblank
    rcases hblank with rfl | rfl | rfl | rfl <;> rfl
  exact hvalid (by simp only [hread, Lexeme.symbol, hnone])

/-- No lexeme starts with two slashes. -/
theorem Lexeme.not_comment_isPrefix (c : Char) (cs : List Char) : ¬ ['/', '/'] <+: (Lexeme.read c cs).spelling := by
  obtain ⟨tail, htail⟩ := Lexeme.exists_cons_spelling c cs
  by_cases hc : c = '/'
  · subst hc
    have hread : Lexeme.read '/' cs = Lexeme.symbol '/' cs := rfl
    rw [hread]
    unfold Lexeme.symbol
    split
    · next entry hfind => exact symbols_no_comment entry (List.mem_of_find?_eq_some hfind)
    · decide
  · rw [htail]
    exact fun h => hc (List.cons_prefix_cons.mp h).1.symm

/-- No blank and no comment stands before the spelling of a lexeme of the language, if a blank or the end of the text
stands behind it. -/
theorem Lexeme.trivia_spelling_append {c : Char} {cs rest : List Char} (hvalid : (Lexeme.read c cs).kind ≠ .invalid)
    (hrest : Parted rest) : trivia ((Lexeme.read c cs).spelling ++ rest) = [] := by
  obtain ⟨tail, htail⟩ := Lexeme.exists_cons_spelling c cs
  have hcomment := Lexeme.not_comment_isPrefix c cs
  rw [htail] at hcomment ⊢
  refine trivia_eq_nil (Lexeme.isBlank_eq_false hvalid) ?_
  cases tail with
  | nil =>
    rintro ⟨behind, hbehind⟩
    have hslash : '/' :: behind = rest := (List.cons.inj hbehind).2
    subst hslash
    cases hrest '/' rfl
  | cons d tail => simpa using hcomment

end ScopeLint
