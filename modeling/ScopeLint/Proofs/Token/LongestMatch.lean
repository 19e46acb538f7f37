import Mathlib.Computability.Language
import ScopeLint.Proofs.Token.Tiling

/-!
# Longest matches

The lexemes of the language but the string literals, read from languages of words of characters.  Each of them is the
longest word of its language that the text has at its place (`IsLongest`), whatever stands behind it.  The first
character says the language (`Lexeme.read_longest`):

* a number is a whole number or a fraction, and a point belongs to it only if a digit follows;
* a name goes on as far as letters, digits, other numerals and underscores go;
* a symbol is the longest one that matches, since no symbol is tried before a longer one that it starts
  (`symbols_pairwise`).
-/

namespace ScopeLint

open scoped Computability

/-- One character of a class. -/
def oneOf (p : Char → Bool) : Language Char :=
  {cs | ∃ c, cs = [c] ∧ p c = true}

/-- The spellings of whole numbers: a digit, and digits and underscores behind it. -/
def wholeSpellings : Language Char :=
  oneOf Text.isDigit * (oneOf isNumberPart)∗

/-- The spellings of fractions: a point between two spellings of whole numbers. -/
def fractionSpellings : Language Char :=
  wholeSpellings * oneOf (· == '.') * wholeSpellings

/-- Letters, digits, other numerals and underscores, as many as there are. -/
def nameSpellings : Language Char :=
  (oneOf isNamePart)∗

/-- The spellings of symbols. -/
def symbolSpellings : Language Char :=
  {cs | ∃ entry ∈ symbols, cs = entry.1.toList}

/-- The longest word of a language that a text starts with. -/
structure IsLongest (l : Language Char) (cs word : List Char) : Prop where
  mem : word ∈ l
  starts : word <+: cs
  longest : ∀ other ∈ l, other <+: cs → other.length ≤ word.length

/-! ### Runs of characters of one class -/

theorem mem_kstar_oneOf {p : Char → Bool} {cs : List Char} : cs ∈ (oneOf p)∗ ↔ ∀ c ∈ cs, p c = true := by
  rw [Language.mem_kstar]
  constructor
  · rintro ⟨words, rfl, hwords⟩ c hc
    obtain ⟨word, hword, hc⟩ := List.mem_flatten.mp hc
    obtain ⟨d, rfl, hd⟩ := hwords word hword
    rwa [List.mem_singleton.mp hc]
  · intro h
    refine ⟨cs.map fun c => [c], (List.flatMap_singleton' cs).symm, fun word hword => ?_⟩
    obtain ⟨c, hc, rfl⟩ := List.mem_map.mp hword
    exact ⟨c, rfl, h c hc⟩

theorem isPrefix_takeWhile {p : Char → Bool} {cs ds : List Char} (hfits : ds <+: cs) (hds : ∀ d ∈ ds, p d = true) :
    ds <+: cs.takeWhile p := by
  obtain ⟨rest, rfl⟩ := hfits
  rw [List.takeWhile_append_of_pos hds]
  exact List.prefix_append _ _

/-- A run of characters of a class that goes as far as it can. -/
theorem isLongest_takeWhile (p : Char → Bool) (cs : List Char) : IsLongest (oneOf p)∗ cs (cs.takeWhile p) := by
  refine ⟨mem_kstar_oneOf.mpr fun _ => List.mem_takeWhile_imp, List.takeWhile_prefix p, fun other hmem hfits => ?_⟩
  exact (isPrefix_takeWhile hfits (mem_kstar_oneOf.mp hmem)).length_le

/-! ### Numbers -/

theorem mem_wholeSpellings {cs : List Char} :
    cs ∈ wholeSpellings ↔ ∃ c ds, cs = c :: ds ∧ Text.isDigit c = true ∧ ∀ d ∈ ds, isNumberPart d = true := by
  constructor
  · intro h
    obtain ⟨_, ⟨c, rfl, hc⟩, ds, hds, rfl⟩ := Language.mem_mul.mp h
    exact ⟨c, ds, rfl, hc, mem_kstar_oneOf.mp hds⟩
  · rintro ⟨c, ds, rfl, hc, hds⟩
    exact Language.mem_mul.mpr ⟨[c], ⟨c, rfl, hc⟩, ds, mem_kstar_oneOf.mpr hds, rfl⟩

theorem mem_fractionSpellings {cs : List Char} :
    cs ∈ fractionSpellings ↔ ∃ vs ∈ wholeSpellings, ∃ ws ∈ wholeSpellings, cs = vs ++ '.' :: ws := by
  constructor
  · intro h
    obtain ⟨_, hfront, ws, hws, rfl⟩ := Language.mem_mul.mp h
    obtain ⟨vs, hvs, _, ⟨c, rfl, hc⟩, rfl⟩ := Language.mem_mul.mp hfront
    obtain rfl : c = '.' := by simpa using hc
    exact ⟨vs, hvs, ws, hws, by simp⟩
  · rintro ⟨vs, hvs, ws, hws, rfl⟩
    have hpoint : vs ++ ['.'] ∈ wholeSpellings * oneOf (· == '.') :=
      Language.mem_mul.mpr ⟨vs, hvs, ['.'], ⟨'.', rfl, rfl⟩, rfl⟩
    exact Language.mem_mul.mpr ⟨vs ++ ['.'], hpoint, ws, hws, by simp⟩

private theorem isNumberPart_of_mem_whole {cs : List Char} (h : cs ∈ wholeSpellings) :
    ∀ c ∈ cs, isNumberPart c = true := by
  obtain ⟨c, ds, rfl, hc, hds⟩ := mem_wholeSpellings.mp h
  exact List.forall_mem_cons.mpr ⟨by simp [isNumberPart, hc], hds⟩

private theorem isNumberPart_point : isNumberPart '.' = false := by decide

/-- No spelling is one of a whole number and one of a fraction. -/
private theorem notMem_fraction_of_mem_whole {cs : List Char} (h : cs ∈ wholeSpellings) : cs ∉ fractionSpellings := by
  intro hfraction
  obtain ⟨vs, -, ws, -, rfl⟩ := mem_fractionSpellings.mp hfraction
  have hpoint := isNumberPart_of_mem_whole h '.' (List.mem_append_right vs List.mem_cons_self)
  rw [isNumberPart_point] at hpoint
  cases hpoint

/-- A text that starts with a digit starts with the spelling of a whole number that goes as far as it can. -/
private theorem whole_mem {c : Char} (hc : Text.isDigit c = true) (cs : List Char) :
    (c :: cs).takeWhile isNumberPart ∈ wholeSpellings := by
  have hpart : isNumberPart c = true := by simp [isNumberPart, hc]
  rw [List.takeWhile_cons, if_pos hpart]
  exact mem_wholeSpellings.mpr ⟨c, _, rfl, hc, fun _ => List.mem_takeWhile_imp⟩

/-- What goes on a whole number as a fraction is nothing, or a point and a spelling of a whole number. -/
private theorem fraction_cases (cs : List Char) :
    Lexeme.fraction cs = [] ∨ ∃ ws ∈ wholeSpellings, Lexeme.fraction cs = '.' :: ws := by
  fun_cases Lexeme.fraction cs with
  | case1 c cs hc => exact .inr ⟨_, whole_mem hc cs, rfl⟩
  | case2 => exact .inl rfl
  | case3 => exact .inl rfl

/-- The fraction goes as far as it can. -/
private theorem isPrefix_fraction {cs ws : List Char} (hws : ws ∈ wholeSpellings) (h : '.' :: ws <+: cs) :
    '.' :: ws <+: Lexeme.fraction cs := by
  have hparts := isNumberPart_of_mem_whole hws
  obtain ⟨c, ds, rfl, hc, hds⟩ := mem_wholeSpellings.mp hws
  obtain ⟨rest, rfl⟩ := h
  simp only [List.cons_append, Lexeme.fraction, if_pos hc]
  exact List.cons_prefix_cons.mpr ⟨rfl, isPrefix_takeWhile (List.prefix_append (c :: ds) rest) hparts⟩

/-- A number is the longest spelling of one. -/
theorem Lexeme.number_isLongest {c : Char} (hc : Text.isDigit c = true) (cs : List Char) :
    IsLongest (wholeSpellings + fractionSpellings) (c :: cs) (Lexeme.number (c :: cs)).spelling := by
  refine ⟨?_, Lexeme.number_isPrefix _, fun other hmem hfits => ?_⟩
  · rw [Lexeme.spelling_number, Language.mem_add]
    rcases fraction_cases ((c :: cs).dropWhile isNumberPart) with hnone | ⟨ws, hws, hsome⟩
    · rw [hnone, List.append_nil]
      exact .inl (whole_mem hc cs)
    · rw [hsome]
      exact .inr (mem_fractionSpellings.mpr ⟨_, whole_mem hc cs, ws, hws, rfl⟩)
  · rw [Lexeme.spelling_number, List.length_append]
    rcases Language.mem_add _ _ _ |>.mp hmem with hwhole | hfraction
    · have hle := (isPrefix_takeWhile hfits (isNumberPart_of_mem_whole hwhole)).length_le
      omega
    · -- The point ends the whole part, so the other spelling has the same whole part.
      obtain ⟨vs, hvs, ws, hws, rfl⟩ := mem_fractionSpellings.mp hfraction
      obtain ⟨rest, hrest⟩ := hfits
      have hparts := isNumberPart_of_mem_whole hvs
      have hstop : ∀ d ∈ ('.' :: (ws ++ rest)).head?, isNumberPart d = false := by
        rintro d ⟨⟩
        exact isNumberPart_point
      rw [← hrest, List.append_assoc, List.cons_append, takeWhile_append_stop hparts hstop,
        dropWhile_append_stop hparts hstop]
      have hle := (isPrefix_fraction hws (List.prefix_append ('.' :: ws) rest)).length_le
      rw [List.cons_append] at hle
      rw [List.length_append]
      omega

/-- A number is a fraction if it is spelled like one, and whole if it is spelled like that. -/
theorem Lexeme.number_kind {c : Char} (hc : Text.isDigit c = true) (cs : List Char) :
    ((Lexeme.number (c :: cs)).kind = .float ↔ (Lexeme.number (c :: cs)).spelling ∈ fractionSpellings) ∧
      ((Lexeme.number (c :: cs)).kind = .integer ↔ (Lexeme.number (c :: cs)).spelling ∈ wholeSpellings) := by
  have hwhole := whole_mem hc cs
  rw [Lexeme.spelling_number]
  unfold Lexeme.number
  rcases fraction_cases ((c :: cs).dropWhile isNumberPart) with hnone | ⟨ws, hws, hsome⟩
  · have hnot := notMem_fraction_of_mem_whole hwhole
    simp [hnone, Lexeme.verbatim, hwhole, hnot]
  · have hfraction : (c :: cs).takeWhile isNumberPart ++ '.' :: ws ∈ fractionSpellings :=
      mem_fractionSpellings.mpr ⟨_, hwhole, ws, hws, rfl⟩
    have hnot : (c :: cs).takeWhile isNumberPart ++ '.' :: ws ∉ wholeSpellings :=
      fun hmem => notMem_fraction_of_mem_whole hmem hfraction
    simp [hsome, Lexeme.verbatim, hfraction, hnot]

/-! ### Symbols -/

/-- No symbol starts with one that is tried before it. -/
theorem symbols_pairwise : symbols.Pairwise fun earlier later => ¬ earlier.1.toList <+: later.1.toList := by
  decide

/-- The first symbol that matches is the longest one that does. -/
theorem isLongest_of_find? {cs : List Char} {entry : String × TokenKind}
    (h : symbols.find? (fun entry => entry.1.toList.isPrefixOf cs) = some entry) :
    IsLongest symbolSpellings cs entry.1.toList := by
  obtain ⟨hstarts, earlier, later, hsymbols, hearlier⟩ := List.find?_eq_some_iff_append.mp h
  rw [List.isPrefixOf_iff_prefix] at hstarts
  refine ⟨⟨entry, List.mem_of_find?_eq_some h, rfl⟩, hstarts, ?_⟩
  rintro _ ⟨other, hother, rfl⟩ hfits
  rw [hsymbols] at hother
  rcases List.mem_append.mp hother with hother | hother
  · have hnot := hearlier other hother
    simp only [Bool.not_eq_true', Bool.eq_false_iff, ne_eq, List.isPrefixOf_iff_prefix] at hnot
    exact absurd hfits hnot
  · rcases List.mem_cons.mp hother with rfl | hlater
    · exact Nat.le_refl _
    · have hpairwise := symbols_pairwise
      rw [hsymbols] at hpairwise
      have hnot := (List.pairwise_cons.mp (List.pairwise_append.mp hpairwise).2.1).1 other hlater
      rcases List.prefix_or_prefix_of_prefix hstarts hfits with hle | hle
      · exact absurd hle hnot
      · exact hle.length_le

theorem symbols_valid : ∀ entry ∈ symbols, entry.2 ≠ .invalid := by decide

/-- At a character that is no symbol and starts none there is one invalid character, else the longest symbol. -/
theorem Lexeme.symbol_isLongest (c : Char) (cs : List Char) :
    ((Lexeme.symbol c cs).kind = .invalid ↔ ∀ spelling ∈ symbolSpellings, ¬ spelling <+: c :: cs) ∧
      ((Lexeme.symbol c cs).kind = .invalid → (Lexeme.symbol c cs).spelling = [c]) ∧
      ((Lexeme.symbol c cs).kind ≠ .invalid → IsLongest symbolSpellings (c :: cs) (Lexeme.symbol c cs).spelling ∧
        (String.ofList (Lexeme.symbol c cs).spelling, (Lexeme.symbol c cs).kind) ∈ symbols) := by
  unfold Lexeme.symbol
  cases hfind : symbols.find? (fun entry => entry.1.toList.isPrefixOf (c :: cs)) with
  | none =>
    have hnone : ∀ spelling ∈ symbolSpellings, ¬ spelling <+: c :: cs := by
      rintro _ ⟨entry, hentry, rfl⟩ hfits
      have hnot := List.find?_eq_none.mp hfind entry hentry
      exact hnot (List.isPrefixOf_iff_prefix.mpr hfits)
    exact ⟨⟨fun _ => hnone, fun _ => rfl⟩, fun _ => rfl, fun h => absurd rfl h⟩
  | some entry =>
    have hentry := List.mem_of_find?_eq_some hfind
    have hlongest := isLongest_of_find? hfind
    have hvalid := symbols_valid entry hentry
    refine ⟨⟨fun h => absurd h hvalid, fun h => absurd hlongest.starts (h _ hlongest.mem)⟩, fun h => absurd h hvalid,
      fun _ => ⟨hlongest, ?_⟩⟩
    show (String.ofList entry.1.toList, entry.2) ∈ symbols
    rwa [String.ofList_toList]

/-! ### First characters -/

/-- No code point lies in a range of both lists. -/
private def Text.CodeRanges.areApart (ranges others : Text.CodeRanges) : Bool :=
  ranges.all fun range => others.all fun other => range.2.blt other.1 || other.2.blt range.1

private theorem Text.CodeRanges.covers_eq_false {ranges others : Text.CodeRanges} (h : areApart ranges others = true)
    {code : Nat} (hcode : ranges.covers code = true) : others.covers code = false := by
  obtain ⟨range, hrange, hfirst, hlast⟩ := (covers_iff ranges code).mp hcode
  by_contra hother
  rw [Bool.not_eq_false, covers_iff] at hother
  obtain ⟨other, hother, hfirst', hlast'⟩ := hother
  have hapart := List.all_eq_true.mp (List.all_eq_true.mp h range hrange) other hother
  simp only [Bool.or_eq_true, Nat.blt_eq] at hapart
  omega

/-- No digit is a letter. -/
theorem Text.isLetter_eq_false_of_isDigit {c : Char} (h : Text.isDigit c = true) : Text.isLetter c = false := by
  by_cases hascii : c.toNat < 128
  · have hall : ∀ n < 128, (Char.ofNat n).isDigit = true → (Char.ofNat n).isAlpha = false := by decide
    rw [Text.isDigit_of_ascii hascii] at h
    rw [Text.isLetter_of_ascii hascii]
    have hc := hall c.toNat hascii
    rw [Char.ofNat_toNat] at hc
    exact hc h
  · have hdecimal : Text.CodeRanges.areApart Text.decimalRanges Text.letterRanges = true := by decide +kernel
    have hdressed : Text.CodeRanges.areApart Text.dressedDigitRanges Text.letterRanges = true := by decide +kernel
    rw [Text.isDigit, if_neg hascii, Bool.or_eq_true] at h
    rw [Text.isLetter, if_neg hascii]
    rcases h with h | h
    · exact Text.CodeRanges.covers_eq_false hdecimal h
    · exact Text.CodeRanges.covers_eq_false hdressed h

/-- No digit starts a name. -/
theorem isDigit_eq_false_of_isNameStart {c : Char} (h : isNameStart c = true) : Text.isDigit c = false := by
  by_contra hdigit
  rw [Bool.not_eq_false] at hdigit
  rw [isNameStart, Text.isLetter_eq_false_of_isDigit hdigit, Bool.false_or, beq_iff_eq] at h
  subst h
  exact absurd hdigit (by decide)

/-- The characters that Unicode counts as white space: the space separators, and those that its algorithm for texts of
two directions treats as separators. -/
def whitespace : List Char :=
  ['\t', '\n', '\x0b', '\x0c', '\r', '\x1c', '\x1d', '\x1e', '\x1f', ' ', '\u0085', '\u00a0', '\u1680', '\u2000',
   '\u2001', '\u2002', '\u2003', '\u2004', '\u2005', '\u2006', '\u2007', '\u2008', '\u2009', '\u200a', '\u2028',
   '\u2029', '\u202f', '\u205f', '\u3000']

private theorem whitespace_starts_nothing : whitespace.all (fun c =>
    !Text.isDigit c && !isNameStart c && c != '\x22' && symbols.all fun entry => entry.1.toList.head?.any (· != c)) := by
  decide +kernel

/-- White space starts no number, no name, no string literal and no symbol. -/
theorem starts_nothing_of_whitespace {c : Char} (h : c ∈ whitespace) (rest : List Char) :
    Text.isDigit c = false ∧ isNameStart c = false ∧ c ≠ '\x22' ∧
      ∀ spelling ∈ symbolSpellings, ¬ spelling <+: c :: rest := by
  have hnothing := List.all_eq_true.mp whitespace_starts_nothing c h
  simp only [Bool.and_eq_true, Bool.not_eq_true', bne_iff_ne, and_assoc] at hnothing
  obtain ⟨hdigit, hname, hquote, hsymbols⟩ := hnothing
  refine ⟨hdigit, hname, hquote, ?_⟩
  rintro _ ⟨entry, hentry, rfl⟩ hstart
  have hhead := List.all_eq_true.mp hsymbols entry hentry
  cases hspelled : entry.1.toList with
  | nil => simp [hspelled] at hhead
  | cons d tail =>
    rw [hspelled] at hhead hstart
    exact bne_iff_ne.mp hhead (List.cons_prefix_cons.mp hstart).1

/-- What a token of a kind may be that a text starts with, if it is spelled by a word. -/
structure LongestMatch (c : Char) (rest word : List Char) (kind : TokenKind) : Prop where
  number : Text.isDigit c = true → IsLongest (wholeSpellings + fractionSpellings) (c :: rest) word ∧
    (kind = .float ↔ word ∈ fractionSpellings) ∧ (kind = .integer ↔ word ∈ wholeSpellings)
  name : isNameStart c = true → IsLongest nameSpellings (c :: rest) word ∧
    kind = if String.ofList word ∈ keywords then .keyword else if Text.isUppercase c then .upName else .name
  symbol : Text.isDigit c = false → isNameStart c = false → c ≠ '\x22' →
    (kind = .invalid ↔ ∀ spelling ∈ symbolSpellings, ¬ spelling <+: c :: rest) ∧ (kind = .invalid → word = [c]) ∧
      (kind ≠ .invalid → IsLongest symbolSpellings (c :: rest) word ∧ (String.ofList word, kind) ∈ symbols)
  comment : ¬ ['/', '/'] <+: c :: rest
  blank : c ∉ [' ', '\t', '\r', '\n']
  space : c ∈ whitespace → word = [c] ∧ kind = .invalid

/-- A lexeme is the longest match of those that its first character may start. -/
theorem Lexeme.read_longest {c : Char} {rest : List Char} (hapart : trivia (c :: rest) = []) :
    LongestMatch c rest (Lexeme.read c rest).spelling (Lexeme.read c rest).kind := by
  obtain ⟨hblank, hcomment⟩ := trivia_eq_nil_iff.mp hapart
  have hsymbol : Text.isDigit c = false → isNameStart c = false → c ≠ '\x22' →
      Lexeme.read c rest = Lexeme.symbol c rest := by
    intro hdigit hname hquote
    rw [Lexeme.read, if_neg (by simp [hdigit]), if_neg (by simp [hname]), if_neg hquote]
  constructor
  · intro hdigit
    rw [Lexeme.read, if_pos hdigit]
    exact ⟨Lexeme.number_isLongest hdigit rest, Lexeme.number_kind hdigit rest⟩
  · intro hname
    have hdigit := isDigit_eq_false_of_isNameStart hname
    have hpart : isNamePart c = true := by
      rcases Bool.or_eq_true_iff.mp hname with h | h <;> simp [isNamePart, h]
    rw [Lexeme.read, if_neg (by simp [hdigit]), if_pos hname]
    refine ⟨isLongest_takeWhile isNamePart (c :: rest), ?_⟩
    simp only [Lexeme.word, Lexeme.verbatim, Lexeme.wordKind, List.takeWhile_cons, hpart, if_true, List.head?_cons,
      Option.any_some]
  · intro hdigit hname hquote
    rw [hsymbol hdigit hname hquote]
    exact Lexeme.symbol_isLongest c rest
  · exact hcomment
  · intro hmem
    have hc : isBlank c = true := by simpa [isBlank, or_assoc] using hmem
    rw [hblank] at hc
    cases hc
  · intro hspace
    obtain ⟨hdigit, hname, hquote, hnone⟩ := starts_nothing_of_whitespace hspace rest
    rw [hsymbol hdigit hname hquote]
    have hinvalid := (Lexeme.symbol_isLongest c rest).1.mpr hnone
    exact ⟨(Lexeme.symbol_isLongest c rest).2.1 hinvalid, hinvalid⟩

/-- Every token but the mark for the end of the input is the longest match at its place. -/
theorem tokenize_longest {text : List Char} {t : Token} (ht : t ∈ tokenize text) (hkind : t.kind ≠ .endOfInput) :
    ∃ c rest, text.drop t.start.toNat = c :: rest ∧ LongestMatch c rest (stretch text t.start t.stop) t.kind := by
  obtain ⟨before, behind, hsplit⟩ := List.append_of_mem ht
  obtain ⟨past, c, rest, hstands, -⟩ := exists_standsAt hsplit hkind
  refine ⟨c, rest, ?_, ?_⟩
  · rw [hstands.split, hstands.start, Int.toNat_natCast, List.drop_left]
  · rw [hstands.stretch_eq, hstands.kind]
    exact Lexeme.read_longest hstands.apart

/-- A fraction with an underscore before its point, and a point behind it that no digit follows. -/
def pointsText : List Char :=
  "1_.5._".toList

/-- The second point is not part of the fraction. -/
theorem tokenize_pointsText :
    (⟨.float, some "1_.5", 1, 1, 0, 4⟩ : Token) ∈ tokenize pointsText ∧ TokenKind.float ≠ .endOfInput ∧
      IsLongest (wholeSpellings + fractionSpellings) pointsText "1_.5".toList := by
  have hmem : (⟨.float, some "1_.5", 1, 1, 0, 4⟩ : Token) ∈ tokenize pointsText := by decide +kernel
  have hkind : TokenKind.float ≠ .endOfInput := by decide
  obtain ⟨c, rest, hsplit, hlongest⟩ := tokenize_longest hmem hkind
  obtain ⟨rfl, rfl⟩ := List.cons.inj (show '1' :: "_.5._".toList = c :: rest from hsplit)
  exact ⟨hmem, hkind, (hlongest.number (by decide)).1⟩

/-- White space that separates no tokens is a token itself. -/
theorem exists_whitespace_token :
    ∃ t ∈ tokenize ['\x0c'], t.kind ≠ .endOfInput ∧ ∃ c ∈ (['\x0c'].drop t.start.toNat).head?, c ∈ whitespace := by
  refine ⟨⟨.invalid, some "\x0c", 1, 1, 0, 1⟩, ?_, ?_, '\x0c', rfl, ?_⟩
  · decide +kernel
  · decide
  · decide

end ScopeLint
