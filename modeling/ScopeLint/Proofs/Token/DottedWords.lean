import Mathlib.Data.List.Chain
import ScopeLint.Proofs.Token.LongestMatch
import ScopeLint.Proofs.Tree.Printing

/-!
# Words behind dots

A dot before a name or a number is a word of its own, and so is what stands behind it; only between two numbers the
dot makes one word with both of them, a fraction (`words_dotted`, `exists_float_of_dotted`).
-/

namespace ScopeLint

/-- What the tokens of a text say. -/
def textWords (cs : List Char) : List Word :=
  (tokenize cs).map Token.word

/-- The text is a single word of a kind. -/
def IsWord (kind : TokenKind) (cs : List Char) : Prop :=
  textWords cs = [⟨kind, String.ofList cs⟩, ⟨.endOfInput, ""⟩]

/-- The text is a number in ASCII digits. -/
def IsIndex (cs : List Char) : Prop :=
  cs ≠ [] ∧ ∀ c ∈ cs, c ∈ "0123456789".toList

/-- What may stand behind a dot: a name of either case, or a number in ASCII digits. -/
def IsLabel (cs : List Char) : Prop :=
  IsWord .name cs ∨ IsWord .upName cs ∨ IsIndex cs

/-- The labels, each behind a dot. -/
def dotted (labels : List (List Char)) : List Char :=
  labels.flatMap ('.' :: ·)

instance (kind : TokenKind) (cs : List Char) : Decidable (IsWord kind cs) :=
  inferInstanceAs (Decidable (_ = _))

instance (cs : List Char) : Decidable (IsIndex cs) :=
  decidable_of_iff (cs ≠ [] ∧ cs.all (fun c => decide (c ∈ "0123456789".toList)) = true)
    (and_congr_right' <| List.all_eq_true.trans <| forall₂_congr fun _ _ => decide_eq_true_iff)

instance (cs : List Char) : Decidable (IsLabel cs) :=
  inferInstanceAs (Decidable (_ ∨ _ ∨ _))

/-! ### Word by word -/

/-- What the tokens of a text say does not depend on where the text starts. -/
theorem words_scan (p q : Place) (cs : List Char) :
    (scan p cs).tokens.map Token.word = (scan q cs).tokens.map Token.word := by
  induction cs using scan_induction generalizing p q with
  | blank cs hcs =>
    rw [scan_nil hcs, scan_nil hcs]
    rfl
  | lexeme gap c rest hgap ih =>
    rw [tokens_scan_cons hgap, tokens_scan_cons hgap, List.map_cons, List.map_cons, ih _ _]
    rfl

/-- A blank says nothing. -/
theorem textWords_blank {b : Char} (hb : isBlank b = true) (cs : List Char) : textWords (b :: cs) = textWords cs := by
  have hgap : trivia ([b] ++ cs) = [b] ++ trivia cs :=
    trivia_append_of_isGap (.blank (by simpa [isBlank, or_assoc] using hb) .nothing)
  rw [textWords, tokenize, ← List.singleton_append, tokens_scan_gap hgap, words_scan _ .start]
  rfl

/-- Behind a lexeme that is spelled as it means, the words go on. -/
theorem textWords_lexeme {gap cs rest : List Char} {c : Char} {kind : TokenKind}
    (hgap : trivia (gap ++ c :: (cs ++ rest)) = gap)
    (hread : Lexeme.read c (cs ++ rest) = .verbatim kind (c :: cs)) :
    textWords (gap ++ c :: (cs ++ rest)) = ⟨kind, String.ofList (c :: cs)⟩ :: textWords rest := by
  have hdrop : (c :: (cs ++ rest)).drop (c :: cs).length = rest := List.drop_left' rfl
  rw [textWords, tokenize, tokens_scan_cons hgap, hread, List.map_cons]
  simp only [Lexeme.verbatim, hdrop]
  rw [words_scan _ .start rest]
  rfl

/-- The same where no gap stands before the lexeme. -/
theorem textWords_apart {cs rest : List Char} {c : Char} {kind : TokenKind} (hblank : isBlank c = false)
    (hslash : c ≠ '/') (hread : Lexeme.read c (cs ++ rest) = .verbatim kind (c :: cs)) :
    textWords (c :: (cs ++ rest)) = ⟨kind, String.ofList (c :: cs)⟩ :: textWords rest := by
  have hgap : trivia ([] ++ c :: (cs ++ rest)) = [] :=
    trivia_eq_nil hblank fun h => hslash (List.cons_prefix_cons.mp h).1.symm
  exact textWords_lexeme hgap hread

/-- The same for a lexeme of one letter. -/
theorem textWords_alone {rest : List Char} {c : Char} {kind : TokenKind} (hblank : isBlank c = false)
    (hslash : c ≠ '/') (hread : Lexeme.read c rest = .verbatim kind [c]) :
    textWords (c :: rest) = ⟨kind, String.ofList [c]⟩ :: textWords rest :=
  have hread : Lexeme.read c ([] ++ rest) = .verbatim kind (c :: []) := hread
  textWords_apart hblank hslash hread

/-! ### Names, numbers and dots -/

private theorem isNamePart_of_isNameStart {c : Char} (h : isNameStart c = true) : isNamePart c = true := by
  rcases Bool.or_eq_true_iff.mp h with h | h <;> simp [isNamePart, h]

private theorem not_blank_of {p : Char → Bool} {c : Char} (hp : p c = true)
    (hnone : [' ', '\t', '\r', '\n', '/'].any p = false) : isBlank c = false ∧ c ≠ '/' := by
  have hne : ∀ b ∈ [' ', '\t', '\r', '\n', '/'], c ≠ b := by
    rintro b hb rfl
    exact List.any_eq_false.mp hnone c hb hp
  simp only [List.forall_mem_cons] at hne
  exact ⟨by simp [isBlank, hne], hne.2.2.2.2.1⟩

/-- The first character and the others of a text that is a name. -/
structure IsName (kind : TokenKind) (c : Char) (cs : List Char) : Prop where
  starts : isNameStart c = true
  parts : ∀ d ∈ cs, isNamePart d = true
  kind : kind = Lexeme.wordKind (c :: cs)

/-- A lexeme that is a name is the longest run of characters of names behind a start of one. -/
private theorem read_of_name {c : Char} {cs : List Char} (h : (Lexeme.read c cs).kind = .name ∨
    (Lexeme.read c cs).kind = .upName) : isNameStart c = true ∧ Lexeme.read c cs = Lexeme.word (c :: cs) := by
  unfold Lexeme.read at h ⊢
  split at h
  · unfold Lexeme.number at h
    split at h <;> simp [Lexeme.verbatim] at h
  split at h
  · next hdigit hname =>
    rw [if_neg hdigit, if_pos hname]
    exact ⟨hname, rfl⟩
  split at h
  · unfold Lexeme.string at h
    simp only at h
    split at h <;> simp at h
  · unfold Lexeme.symbol at h
    split at h
    · next entry hfind =>
      have hnot := symbols_not_name _ (List.mem_of_find?_eq_some hfind)
      exact absurd h (by simp [Lexeme.verbatim, hnot])
    · simp at h

theorem IsWord.isName {kind : TokenKind} {cs : List Char} (h : IsWord kind cs) (hkind : kind = .name ∨ kind = .upName) :
    ∃ c tail, cs = c :: tail ∧ IsName kind c tail := by
  have hmem : (⟨kind, String.ofList cs⟩ : Word) ∈ textWords cs := by
    rw [h]
    exact List.mem_cons_self
  obtain ⟨t, ht, hword⟩ := List.mem_map.mp hmem
  obtain ⟨htkind, httext⟩ := Word.mk.inj hword
  have hne : t.kind ≠ .endOfInput ∧ t.kind ≠ .invalid := by
    rw [htkind]
    rcases hkind with rfl | rfl <;> decide
  obtain ⟨c, rest, hk, hvalue, -⟩ := lexed_of_mem_tokenize ht hne.1 hne.2
  rw [hword] at hk hvalue
  dsimp only at hk hvalue
  obtain ⟨hstart, hread⟩ := read_of_name (hk ▸ hkind)
  have hpart := isNamePart_of_isNameStart hstart
  have hspelling : cs = (c :: rest).takeWhile isNamePart := by
    rw [hread] at hvalue
    exact String.ofList_injective hvalue.symm
  rw [List.takeWhile_cons, if_pos hpart] at hspelling
  refine ⟨c, rest.takeWhile isNamePart, hspelling, hstart, fun d hd => List.mem_takeWhile_imp hd, ?_⟩
  rw [← hspelling, ← hk, hread, hspelling]
  show Lexeme.wordKind ((c :: rest).takeWhile isNamePart) = _
  rw [List.takeWhile_cons, if_pos hpart]

/-- A name ends before every character that is no part of it. -/
theorem words_name {kind : TokenKind} {c : Char} {cs rest : List Char} (h : IsName kind c cs)
    (hrest : ∀ d ∈ rest.head?, isNamePart d = false) :
    textWords (c :: (cs ++ rest)) = ⟨kind, String.ofList (c :: cs)⟩ :: textWords rest := by
  obtain ⟨hblank, hslash⟩ := not_blank_of h.starts (by decide)
  have hparts : ∀ d ∈ c :: cs, isNamePart d = true :=
    List.forall_mem_cons.mpr ⟨isNamePart_of_isNameStart h.starts, h.parts⟩
  refine textWords_apart hblank hslash ?_
  rw [Lexeme.read, if_neg (by simp [isDigit_eq_false_of_isNameStart h.starts]), if_pos h.starts, Lexeme.word,
    ← List.cons_append, takeWhile_append_stop hparts hrest, h.kind]

private theorem isDigit_of_ascii : ∀ c ∈ "0123456789".toList, Text.isDigit c = true :=
  List.all_eq_true.mp (by decide)

theorem IsIndex.exists_cons {cs : List Char} (h : IsIndex cs) :
    ∃ c tail, cs = c :: tail ∧ Text.isDigit c = true ∧ ∀ d ∈ c :: tail, isNumberPart d = true := by
  obtain ⟨c, tail, rfl⟩ := List.exists_cons_of_ne_nil h.1
  have hdigits : ∀ d ∈ c :: tail, Text.isDigit d = true := fun d hd => isDigit_of_ascii d (h.2 d hd)
  exact ⟨c, tail, rfl, hdigits c List.mem_cons_self, fun d hd => by simp [isNumberPart, hdigits d hd]⟩

/-- A number ends before every character that is no part of it, unless the two of them go on to a fraction. -/
theorem words_index {cs rest : List Char} (h : IsIndex cs) (hrest : ∀ d ∈ rest.head?, isNumberPart d = false) :
    (Lexeme.fraction rest = [] → textWords (cs ++ rest) = ⟨.integer, String.ofList cs⟩ :: textWords rest) ∧
      (Lexeme.fraction rest ≠ [] → ∃ w ws, textWords (cs ++ rest) = w :: ws ∧ w.kind = .float) := by
  obtain ⟨c, tail, rfl, hdigit, hparts⟩ := h.exists_cons
  obtain ⟨hblank, hslash⟩ := not_blank_of hdigit (by decide)
  have hread : Lexeme.read c (tail ++ rest) = Lexeme.number (c :: tail ++ rest) := by
    rw [Lexeme.read, if_pos hdigit]
    rfl
  rw [Lexeme.number, takeWhile_append_stop hparts hrest, dropWhile_append_stop hparts hrest] at hread
  constructor
  · intro hnone
    rw [hnone] at hread
    exact textWords_apart hblank hslash hread
  · intro hsome
    obtain ⟨d, ds, hfraction⟩ := List.exists_cons_of_ne_nil hsome
    rw [hfraction] at hread
    have hgap : trivia ([] ++ c :: (tail ++ rest)) = [] :=
      trivia_eq_nil hblank fun h => hslash (List.cons_prefix_cons.mp h).1.symm
    rw [List.cons_append, textWords, tokenize, ← List.nil_append (c :: (tail ++ rest)), tokens_scan_cons hgap]
    exact ⟨_, _, rfl, congrArg Lexeme.kind hread⟩

/-- A dot is a word of its own, unless another dot stands behind it. -/
theorem words_dot {cs : List Char} (h : ∀ c ∈ cs.head?, c ≠ '.') : textWords ('.' :: cs) = .mark .dot :: textWords cs := by
  have hread : Lexeme.read '.' cs = .verbatim .dot ['.'] := by
    show Lexeme.symbol '.' cs = _
    cases cs with
    | nil => decide
    | cons c cs =>
      have hc : ('.' == c) = false := beq_false_of_ne (Ne.symm (h c rfl))
      simp [Lexeme.symbol, symbols, List.find?, List.isPrefixOf, hc]
  exact textWords_alone (by decide) (by decide) hread

/-! ### Labels behind dots -/

/-- A label starts with no dot, and with a digit only if it is a number. -/
theorem IsLabel.exists_cons {l : List Char} (h : IsLabel l) :
    ∃ c tail, l = c :: tail ∧ c ≠ '.' ∧ (Text.isDigit c = true ↔ IsIndex l) := by
  have hname : ∀ kind : TokenKind, kind = .name ∨ kind = .upName → IsWord kind l →
      ∃ c tail, l = c :: tail ∧ c ≠ '.' ∧ (Text.isDigit c = true ↔ IsIndex l) := by
    intro kind hkind hword
    obtain ⟨c, tail, rfl, hname⟩ := hword.isName hkind
    have hdigit := isDigit_eq_false_of_isNameStart hname.starts
    refine ⟨c, tail, rfl, ?_, fun h => absurd h (by simp [hdigit]), fun h => ?_⟩
    · rintro rfl
      exact absurd hname.starts (by decide)
    · exact isDigit_of_ascii c (h.2 c List.mem_cons_self)
  rcases h with h | h | h
  · exact hname .name (.inl rfl) h
  · exact hname .upName (.inr rfl) h
  · obtain ⟨c, tail, rfl, hdigit, -⟩ := h.exists_cons
    refine ⟨c, tail, rfl, ?_, fun _ => h, fun _ => hdigit⟩
    rintro rfl
    exact absurd hdigit (by decide)

private theorem isNumberPart_eq_false {c : Char} (h : isNamePart c = false) : isNumberPart c = false := by
  simp only [isNamePart, Bool.or_eq_false_iff] at h
  simp [isNumberPart, h]

/-- A label ends before every character that is no part of a name, unless it goes on to a fraction. -/
theorem words_label {l rest : List Char} (h : IsLabel l) (hrest : ∀ d ∈ rest.head?, isNamePart d = false)
    (hwhole : IsIndex l → Lexeme.fraction rest = []) :
    textWords (l ++ rest) = fieldWord (String.ofList l) :: textWords rest := by
  have hname : ∀ kind : TokenKind, kind = .name ∨ kind = .upName → IsWord kind l →
      textWords (l ++ rest) = fieldWord (String.ofList l) :: textWords rest := by
    intro kind hkind hword
    obtain ⟨c, tail, rfl, hname⟩ := hword.isName hkind
    have hdigit := isDigit_eq_false_of_isNameStart hname.starts
    rw [List.cons_append, words_name hname hrest, hname.kind]
    simp [fieldWord, hdigit]
  rcases h with h | h | h
  · exact hname .name (.inl rfl) h
  · exact hname .upName (.inr rfl) h
  · rw [(words_index h fun d hd => isNumberPart_eq_false (hrest d hd)).1 (hwhole h)]
    obtain ⟨c, tail, rfl, hdigit, -⟩ := h.exists_cons
    simp [fieldWord, hdigit]

/-- A label is a word of one of the kinds that a field may have. -/
theorem IsLabel.kind_fieldWord {l : List Char} (h : IsLabel l) :
    (fieldWord (String.ofList l)).kind = .name ∨ (fieldWord (String.ofList l)).kind = .upName ∨
      (fieldWord (String.ofList l)).kind = .integer := by
  have hname : ∀ kind : TokenKind, kind = .name ∨ kind = .upName → IsWord kind l →
      (fieldWord (String.ofList l)).kind = kind := by
    intro kind hkind hword
    obtain ⟨c, tail, rfl, hname⟩ := hword.isName hkind
    have hdigit := isDigit_eq_false_of_isNameStart hname.starts
    simp [fieldWord, hdigit, hname.kind]
  rcases h with h | h | h
  · exact .inl (hname .name (.inl rfl) h)
  · exact .inr (.inl (hname .upName (.inr rfl) h))
  · obtain ⟨c, tail, rfl, hdigit, -⟩ := h.exists_cons
    exact .inr (.inr (by simp [fieldWord, hdigit]))

/-- Labels with dots before them and a blank behind them do not go on with a name. -/
theorem head_dotted (labels : List (List Char)) {b : Char} (hb : isBlank b = true) (behind : List Char) :
    ∀ d ∈ (dotted labels ++ b :: behind).head?, isNamePart d = false := by
  intro d hd
  cases labels with
  | nil =>
    obtain rfl : b = d := Option.some.inj hd
    exact (parts_of_isBlank hb).2.1
  | cons l labels =>
    obtain rfl : '.' = d := Option.some.inj hd
    decide

/-- Behind a number, labels with a blank behind them go on to a fraction just if the first one is a number. -/
private theorem fraction_dotted {labels : List (List Char)} (h : ∀ l ∈ labels, IsLabel l) {b : Char}
    (hb : isBlank b = true) (behind : List Char) :
    Lexeme.fraction (dotted labels ++ b :: behind) ≠ [] ↔ ∃ l ∈ labels.head?, IsIndex l := by
  cases labels with
  | nil =>
    have hpoint : b ≠ '.' := by
      rintro rfl
      cases hb
    simp [dotted, Lexeme.fraction, hpoint]
  | cons l labels =>
    obtain ⟨c, tail, rfl, -, hdigit⟩ := (h l List.mem_cons_self).exists_cons
    simp [dotted, Lexeme.fraction, ← hdigit]

/-- A dot with labels behind it, and a blank behind those, is a word of its own. -/
private theorem words_dotted_cons {l : List Char} (h : IsLabel l) (labels : List (List Char)) (behind : List Char) :
    textWords (dotted (l :: labels) ++ behind) = .mark .dot :: textWords (l ++ (dotted labels ++ behind)) := by
  obtain ⟨c, tail, rfl, hpoint, -⟩ := h.exists_cons
  have hdot : textWords ('.' :: (c :: tail ++ (dotted labels ++ behind))) =
      .mark .dot :: textWords (c :: tail ++ (dotted labels ++ behind)) :=
    words_dot fun d hd => Option.some.inj hd ▸ hpoint
  rw [← hdot]
  simp [dotted]

/-- Labels of which no two neighbours are numbers, each behind a dot, are words of their own with dots before them. -/
theorem words_dotted {labels : List (List Char)} (h : ∀ l ∈ labels, IsLabel l)
    (hapart : labels.IsChain fun l l' => ¬ (IsIndex l ∧ IsIndex l')) {b : Char} (hb : isBlank b = true)
    (behind : List Char) :
    textWords (dotted labels ++ b :: behind) =
      (labels.flatMap fun l => [.mark .dot, fieldWord (String.ofList l)]) ++ textWords (b :: behind) := by
  induction labels with
  | nil => rfl
  | cons l labels ih =>
    have hlabels : ∀ l' ∈ labels, IsLabel l' := fun l' hl' => h l' (List.mem_cons_of_mem l hl')
    obtain ⟨hnext, htail⟩ := List.isChain_cons.mp hapart
    rw [words_dotted_cons (h l List.mem_cons_self), words_label (h l List.mem_cons_self) (head_dotted labels hb behind),
      ih hlabels htail]
    · rfl
    · intro hindex
      by_contra hfraction
      obtain ⟨l', hl', hindex'⟩ := (fraction_dotted hlabels hb behind).mp hfraction
      exact hnext l' hl' ⟨hindex, hindex'⟩

/-- If two neighbouring labels are numbers, the labels are words of their own only up to a dot with a fraction behind it.
-/
theorem exists_float_of_dotted {labels : List (List Char)} (h : ∀ l ∈ labels, IsLabel l)
    (hnumbers : ¬ labels.IsChain fun l l' => ¬ (IsIndex l ∧ IsIndex l')) {b : Char} (hb : isBlank b = true)
    (behind : List Char) :
    ∃ before w ws, before <+: labels ∧ w.kind = .float ∧ textWords (dotted labels ++ b :: behind) =
      (before.flatMap fun l => [.mark .dot, fieldWord (String.ofList l)]) ++ .mark .dot :: w :: ws := by
  induction labels with
  | nil => exact absurd .nil hnumbers
  | cons l labels ih =>
    have hlabels : ∀ l' ∈ labels, IsLabel l' := fun l' hl' => h l' (List.mem_cons_of_mem l hl')
    have hhead := head_dotted labels hb behind
    rw [words_dotted_cons (h l List.mem_cons_self)]
    -- The first two numbers that are neighbours make the fraction.
    by_cases hfraction : IsIndex l ∧ Lexeme.fraction (dotted labels ++ b :: behind) ≠ []
    · obtain ⟨w, ws, hws, hfloat⟩ :=
        (words_index hfraction.1 fun d hd => isNumberPart_eq_false (hhead d hd)).2 hfraction.2
      exact ⟨[], w, ws, List.nil_prefix, hfloat, congrArg (.mark .dot :: ·) hws⟩
    · have hwhole : IsIndex l → Lexeme.fraction (dotted labels ++ b :: behind) = [] :=
        fun hindex => not_not.mp fun hne => hfraction ⟨hindex, hne⟩
      have htail : ¬ labels.IsChain fun l l' => ¬ (IsIndex l ∧ IsIndex l') := by
        refine fun htail => hnumbers (List.isChain_cons.mpr ⟨fun l' hl' hboth => hfraction ⟨hboth.1, ?_⟩, htail⟩)
        exact (fraction_dotted hlabels hb behind).mpr ⟨l', hl', hboth.2⟩
      obtain ⟨before, w, ws, hbefore, hfloat, hwords⟩ := ih hlabels htail
      refine ⟨l :: before, w, ws, List.cons_prefix_cons.mpr ⟨rfl, hbefore⟩, hfloat, ?_⟩
      rw [words_label (h l List.mem_cons_self) hhead hwhole, hwords]
      rfl

end ScopeLint
