import ScopeLint.Proofs.Grammar.Invalid

/-!
# Matched brackets

Outside its ascriptions, a text that is read as a module has matched brackets: each closing bracket is of the shape of
the opening bracket that it closes.  Inside an ascription only the nesting is watched, whatever the shapes.

* `Spelling.Composed.segmented`: the word lists of a composed language are taken apart into words by themselves and
  ascriptions, and with a foreign word for each ascription their brackets are matched.
* `Module.matched_iff_of_read`: so the brackets of a text that is read are matched if and only if those of each of its
  ascriptions are.
* `unmatched_ascription_accepted`: a text whose brackets are not matched may be read.
-/

namespace ScopeLint

/-! ### Matched brackets -/

/-- The closing brackets that are due behind one more kind, the next one first.  A closing bracket that is not due has
nothing behind it. -/
def bracketsAfter (due : List TokenKind) (kind : TokenKind) : Option (List TokenKind) :=
  if kind.closes then
    match due with
    | [] => none
    | next :: due => if next = kind then some due else none
  else some (kind.closing?.toList ++ due)

/-- The brackets among the kinds are properly nested, each closed by the one of its shape. -/
def Matched (kinds : List TokenKind) : Prop :=
  kinds.foldlM bracketsAfter [] = some []

instance (kinds : List TokenKind) : Decidable (Matched kinds) :=
  inferInstanceAs (Decidable (_ = _))

theorem TokenKind.closes_of_closing? {opening closing : TokenKind} (pair : opening.closing? = some closing) :
    closing.closes = true := by
  cases opening <;> cases pair <;> rfl

theorem TokenKind.exists_closing? {opening : TokenKind} (h : opening.opens = true) :
    ∃ closing, opening.closing? = some closing := by
  cases opening <;> first | exact ⟨_, rfl⟩ | cases h

theorem TokenKind.closing?_of_not_opens {kind : TokenKind} (h : kind.opens = false) : kind.closing? = none := by
  cases kind <;> first | rfl | cases h

theorem bracketsAfter_opening {opening closing : TokenKind} (pair : opening.closing? = some closing)
    (due : List TokenKind) : bracketsAfter due opening = some (closing :: due) := by
  cases opening <;> cases pair <;> rfl

theorem bracketsAfter_closing {kind : TokenKind} (h : kind.closes = true) (next : TokenKind) (due : List TokenKind) :
    bracketsAfter (next :: due) kind = if next = kind then some due else none := by
  rw [bracketsAfter, if_pos h]

theorem bracketsAfter_other {kind : TokenKind} (hopens : kind.opens = false) (hcloses : kind.closes = false)
    (due : List TokenKind) : bracketsAfter due kind = some due := by
  unfold bracketsAfter
  rw [if_neg (Bool.eq_false_iff.mp hcloses), TokenKind.closing?_of_not_opens hopens]
  rfl

/-- Brackets that are due later make no difference. -/
theorem bracketsAfter_append {due due' : List TokenKind} {kind : TokenKind} (h : bracketsAfter due kind = some due')
    (later : List TokenKind) : bracketsAfter (due ++ later) kind = some (due' ++ later) := by
  cases hcloses : kind.closes with
  | false =>
    unfold bracketsAfter at h ⊢
    rw [if_neg (Bool.eq_false_iff.mp hcloses)] at h ⊢
    rw [← Option.some.inj h, List.append_assoc]
  | true =>
    cases due with
    | nil =>
      unfold bracketsAfter at h
      rw [if_pos hcloses] at h
      cases h
    | cons next due =>
      rw [List.cons_append, bracketsAfter_closing hcloses] at *
      obtain ⟨heq, hdue⟩ := Option.ite_none_right_eq_some.mp h
      rw [if_pos heq, ← Option.some.inj hdue]

theorem foldlM_bracketsAfter_append {kinds due due' : List TokenKind}
    (h : kinds.foldlM bracketsAfter due = some due') (later : List TokenKind) :
    kinds.foldlM bracketsAfter (due ++ later) = some (due' ++ later) := by
  induction kinds generalizing due with
  | nil =>
    cases h
    rfl
  | cons kind kinds ih =>
    rw [List.foldlM_cons] at h ⊢
    obtain ⟨mid, hfirst, hrest⟩ := Option.bind_eq_some_iff.mp h
    exact Option.bind_eq_some_iff.mpr ⟨_, bracketsAfter_append hfirst later, ih hrest⟩

namespace Matched

variable {ks us : List TokenKind}

/-- Matched brackets leave due what was due before. -/
theorem foldlM (h : Matched ks) (due : List TokenKind) : ks.foldlM bracketsAfter due = some due :=
  foldlM_bracketsAfter_append h due

theorem append (h : Matched ks) (h' : Matched us) : Matched (ks ++ us) := by
  rw [Matched, List.foldlM_append, h]
  exact h'

theorem other {kind : TokenKind} (hopens : kind.opens = false) (hcloses : kind.closes = false) : Matched [kind] := by
  rw [Matched, List.foldlM_cons, bracketsAfter_other hopens hcloses]
  rfl

theorem bracketed {opening closing : TokenKind} (pair : opening.closing? = some closing) (h : Matched ks) :
    Matched (opening :: (ks ++ [closing])) := by
  rw [Matched, List.foldlM_cons, bracketsAfter_opening pair]
  show (ks ++ [closing]).foldlM bracketsAfter [closing] = some []
  rw [List.foldlM_append, h.foldlM]
  show [closing].foldlM bracketsAfter [closing] = some []
  rw [List.foldlM_cons, bracketsAfter_closing (TokenKind.closes_of_closing? pair), if_pos rfl]
  rfl

end Matched

/-- A word of a kind that the language does not have. -/
def Word.foreign : Word :=
  ⟨.other "", ""⟩

namespace Spelling

/-! ### Ascriptions -/

/-- Words whose brackets close, as far as their nesting goes, close what is due at their start and nothing else, if each
closing bracket among them was due. -/
private theorem foldlM_of_bracketsClose {stops : List TokenKind} {ws : List Word} {due later due' : List TokenKind}
    (h : BracketsClose stops due.length ws)
    (hrun : (ws.map Word.kind).foldlM bracketsAfter (due ++ later) = some due') :
    due' = later ∧ (ws.map Word.kind).foldlM bracketsAfter due = some [] := by
  induction ws generalizing due with
  | nil =>
    obtain rfl := List.length_eq_zero_iff.mp h
    cases hrun
    exact ⟨rfl, rfl⟩
  | cons w ws ih =>
    obtain ⟨-, -, h⟩ := h
    rw [List.map_cons, List.foldlM_cons] at hrun ⊢
    cases hopens : w.kind.opens with
    | true =>
      rw [if_pos hopens] at h
      obtain ⟨closing, pair⟩ := TokenKind.exists_closing? hopens
      rw [bracketsAfter_opening pair] at hrun ⊢
      have hdepth : BracketsClose stops (closing :: due).length ws := h
      exact ih hdepth hrun
    | false =>
      rw [if_neg (Bool.eq_false_iff.mp hopens)] at h
      cases hcloses : w.kind.closes with
      | false =>
        rw [if_neg (Bool.eq_false_iff.mp hcloses)] at h
        rw [bracketsAfter_other hopens hcloses] at hrun ⊢
        exact ih h hrun
      | true =>
        rw [if_pos hcloses] at h
        obtain ⟨next, due, rfl⟩ := List.exists_cons_of_length_pos h.1
        rw [List.cons_append, bracketsAfter_closing hcloses] at hrun
        rw [bracketsAfter_closing hcloses]
        split at hrun
        · next heq =>
          rw [if_pos heq]
          exact ih h.2 hrun
        · cases hrun

/-- An ascription in a text whose brackets are matched has matched brackets by itself. -/
theorem matched_of_ascription {stops : List TokenKind} {ws : List Word} (h : ws ∈ ascription stops)
    {due due' : List TokenKind} (hrun : (ws.map Word.kind).foldlM bracketsAfter due = some due') :
    Matched (ws.map Word.kind) ∧ due' = due := by
  have hdepth : BracketsClose stops ([] : List TokenKind).length ws := h.2
  obtain ⟨hsame, halone⟩ := foldlM_of_bracketsClose hdepth hrun
  exact ⟨halone, hsame⟩

/-! ### Segments -/

/-- A foreign word is an ascription. -/
theorem foreign_mem_ascription {mark : TokenKind} {stops : List TokenKind} (h : (mark, stops) ∈ ascriptionPlaces) :
    [Word.foreign] ∈ ascription stops := by
  refine ⟨List.cons_ne_nil _ _, TokenKind.noConfusion, fun _ => ?_, rfl⟩
  simp only [ascriptionPlaces, List.mem_cons, Prod.mk.injEq, List.not_mem_nil, or_false] at h
  rcases h with ⟨-, rfl⟩ | ⟨-, rfl⟩ | ⟨-, rfl⟩ | ⟨-, rfl⟩ <;> decide

/-- A segment of some words: a word by itself, or an ascription. -/
inductive Segment where
  | word (word : Word)
  | ascription (inside : List Word)

/-- The words of a segment. -/
def Segment.words : Segment → List Word
  | word w => [w]
  | ascription inside => inside

/-- The segment as a single word: a foreign word stands for an ascription. -/
def Segment.outer : Segment → Word
  | word w => w
  | ascription _ => Word.foreign

/-- Where the words of some segments leave something due, whatever was due before, each ascription among them has
matched brackets. -/
private theorem matched_of_foldlM {segments : List Segment}
    (hascriptions : ∀ inside, .ascription inside ∈ segments → ∃ stops, inside ∈ ascription stops)
    {due due' : List TokenKind}
    (hrun : ((segments.flatMap Segment.words).map Word.kind).foldlM bracketsAfter due = some due') :
    ∀ inside, .ascription inside ∈ segments → Matched (inside.map Word.kind) := by
  induction segments generalizing due with
  | nil => simp
  | cons segment segments ih =>
    rw [List.flatMap_cons, List.map_append, List.foldlM_append] at hrun
    obtain ⟨mid, hfirst, hrest⟩ := Option.bind_eq_some_iff.mp hrun
    intro inside hinside
    rcases List.mem_cons.mp hinside with rfl | hinside
    · obtain ⟨stops, hstops⟩ := hascriptions inside List.mem_cons_self
      exact (matched_of_ascription hstops hfirst).1
    · exact ih (fun inside hinside => hascriptions inside (List.mem_cons_of_mem _ hinside)) hrest inside hinside

/-- If each ascription has matched brackets, the words of some segments leave due what the segments leave due as single
words. -/
private theorem foldlM_words {segments : List Segment}
    (hinsides : ∀ inside, .ascription inside ∈ segments → Matched (inside.map Word.kind)) (due : List TokenKind) :
    ((segments.flatMap Segment.words).map Word.kind).foldlM bracketsAfter due =
      (segments.map fun s => s.outer.kind).foldlM bracketsAfter due := by
  induction segments generalizing due with
  | nil => rfl
  | cons segment segments ih =>
    have hfirst : (segment.words.map Word.kind).foldlM bracketsAfter due = bracketsAfter due segment.outer.kind := by
      cases segment with
      | word w => exact List.foldlM_cons.trans (bind_pure _)
      | ascription inside => exact (hinsides inside List.mem_cons_self).foldlM due
    have hrest := ih fun inside hinside => hinsides inside (List.mem_cons_of_mem _ hinside)
    rw [List.flatMap_cons, List.map_append, List.foldlM_append, hfirst, List.map_cons, List.foldlM_cons]
    exact congrArg _ (funext hrest)

/-- Words of a language are taken apart into words by themselves and ascriptions.  With a foreign word for each
ascription they still belong to the language, and have matched brackets. -/
structure Segmented (l : Language Word) (ws : List Word) (segments : List Segment) : Prop where
  words : segments.flatMap Segment.words = ws
  outer : segments.map Segment.outer ∈ l
  matched : Matched (segments.map fun s => s.outer.kind)
  ascriptions : ∀ inside, .ascription inside ∈ segments → ∃ stops, inside ∈ ascription stops

namespace Segmented

variable {l m : Language Word} {us ws : List Word} {segments segments' : List Segment}

theorem mono (h : Segmented l ws segments) (hle : l ≤ m) : Segmented m ws segments :=
  { h with outer := hle h.outer }

theorem append (h : Segmented l us segments) (h' : Segmented m ws segments') :
    Segmented (l * m) (us ++ ws) (segments ++ segments') where
  words := by rw [List.flatMap_append, h.words, h'.words]
  outer := by
    rw [List.map_append]
    exact Language.append_mem_mul h.outer h'.outer
  matched := by
    rw [List.map_append]
    exact h.matched.append h'.matched
  ascriptions inside hinside :=
    (List.mem_append.mp hinside).elim (h.ascriptions inside) (h'.ascriptions inside)

theorem bracketed {opening closing : TokenKind} (pair : opening.closing? = some closing)
    (h : Segmented l ws segments) (before behind : String) :
    Segmented (anyOf opening * l * anyOf closing) ([⟨opening, before⟩] ++ ws ++ [⟨closing, behind⟩])
      ([.word ⟨opening, before⟩] ++ segments ++ [.word ⟨closing, behind⟩]) where
  words := by simp [Segment.words, h.words]
  outer := by
    simp only [List.map_append, List.map_cons, List.map_nil, Segment.outer]
    exact Language.append_mem_mul (Language.append_mem_mul ⟨before, rfl⟩ h.outer) ⟨behind, rfl⟩
  matched := by simpa [Segment.outer] using h.matched.bracketed pair
  ascriptions inside hinside := h.ascriptions inside (by simpa using hinside)

/-- Words that are taken apart have matched brackets if and only if each ascription has. -/
theorem matched_iff (h : Segmented l ws segments) :
    Matched (ws.map Word.kind) ↔ ∀ inside, .ascription inside ∈ segments → Matched (inside.map Word.kind) := by
  rw [← h.words]
  constructor
  · exact fun hmatched => matched_of_foldlM h.ascriptions hmatched
  · exact fun hinsides => (foldlM_words hinsides []).trans h.matched

end Segmented

/-- However a language is put together, its words are taken apart into words by themselves, with matched brackets, and
ascriptions. -/
theorem Composed.segmented {next : Set TokenKind} {l : Language Word} (h : Composed next l) :
    ∀ ws ∈ l, ∃ segments, Segmented l ws segments := by
  induction h with
  | @union _ ι part _ ih =>
    intro ws hws
    obtain ⟨i, hi⟩ := Language.mem_iSup.mp hws
    obtain ⟨segments, hsegments⟩ := ih i ws hi
    exact ⟨segments, hsegments.mono (le_iSup part i)⟩
  | one =>
    rintro ws rfl
    exact ⟨[], rfl, rfl, rfl, by simp⟩
  | led _ _ _ hl hm =>
    intro ws hws
    obtain ⟨us, hus, vs, hvs, rfl⟩ := Language.mem_mul.mp hws
    obtain ⟨segments, hsegments⟩ := hl us hus
    obtain ⟨segments', hsegments'⟩ := hm vs hvs
    exact ⟨segments ++ segments', hsegments.append hsegments'⟩
  | @only _ kind plain text =>
    rintro ws rfl
    simp only [TokenKind.isPlain, Bool.and_eq_true, Bool.not_eq_true'] at plain
    exact ⟨[.word ⟨kind, text⟩], rfl, rfl, .other plain.1.1 plain.1.2, by simp⟩
  | @bracketed _ opening closing l pair _ ih =>
    rintro ws ⟨-, ⟨-, ⟨before, rfl⟩, us, hus, rfl⟩, -, ⟨behind, rfl⟩, rfl⟩
    obtain ⟨segments, hsegments⟩ := ih us hus
    exact ⟨_, hsegments.bracketed pair before behind⟩
  | @ascription _ mark stops place _ =>
    rintro ws ⟨-, ⟨text, rfl⟩, inside, hinside, rfl⟩
    have hmark : Matched [mark] := by rcases mark_of_ascriptionPlaces place with rfl | rfl <;> rfl
    refine ⟨[.word ⟨mark, text⟩, .ascription inside], ?_, ?_, ?_, ?_⟩
    · simp [Segment.words]
    · have hmem : [⟨mark, text⟩] ∈ Spelling.anyOf mark := ⟨text, rfl⟩
      exact Language.append_mem_mul hmem (foreign_mem_ascription place)
    · exact hmark.append (.other rfl rfl)
    · intro other hother
      obtain rfl : other = inside := by simpa using hother
      exact ⟨stops, hinside⟩

end Spelling

open Spelling

/-! ### Texts -/

/-- A text that is read as a module is taken apart into words by themselves, with matched brackets, and ascriptions.
Its brackets are matched if and only if those of each ascription are. -/
theorem Module.matched_iff_of_read (text : List Char) {m : Module} (hm : Module.ofTokens (tokenize text) = .ok m) :
    ∃ segments, Segmented {ws | m.Spelled ws} ((tokenize text).dropLast.map Token.word) segments ∧
      (Matched ((tokenize text).map Token.kind) ↔
        ∀ inside, .ascription inside ∈ segments → Matched (inside.map Word.kind)) := by
  obtain ⟨segments, hsegments⟩ := m.composed_spelled.segmented _ (Module.spelled_tokenize hm)
  refine ⟨segments, hsegments, Iff.trans ?_ hsegments.matched_iff⟩
  -- The mark for the end of the input is no bracket.
  have hkinds : (tokenize text).map Token.kind =
      ((tokenize text).dropLast.map Token.word).map Word.kind ++ [.endOfInput] := by
    rw [dropLast_tokenize, List.map_map, tokenize, Scanned.tokens, List.map_append]
    rfl
  have hending : Matched [.endOfInput] := rfl
  rw [hkinds, Matched, List.foldlM_append, Matched]
  refine Eq.congr_left ?_
  exact (bind_congr hending.foldlM).trans (bind_pure _)

/-- A function whose parameter has an ascription with brackets, and whose body has brackets of all shapes. -/
def bracketText : List Char :=
  "fn f(x: List(#(A, B))) \x7b [x, \x7b g(#(x)) \x7d] \x7d".toList

theorem matched_bracketText :
    ∃ m, Module.ofTokens (tokenize bracketText) = .ok m ∧
      ∃ segments, Segmented {ws | m.Spelled ws} ((tokenize bracketText).dropLast.map Token.word) segments ∧
        (Matched ((tokenize bracketText).map Token.kind) ↔
          ∀ inside, .ascription inside ∈ segments → Matched (inside.map Word.kind)) := by
  obtain ⟨m, hm⟩ : ∃ m, Module.ofTokens (tokenize bracketText) = .ok m := Module.exists_of_isSome (by decide +kernel)
  exact ⟨m, hm, Module.matched_iff_of_read bracketText hm⟩

/-- A function whose parameter has an ascription with a parenthesis that a square bracket closes. -/
def unmatchedText : List Char :=
  "fn f(x: (A]) \x7b x \x7d".toList

/-- A text whose brackets are not matched is not rejected if they lie in an ascription. -/
theorem unmatched_ascription_accepted :
    ¬ Matched ((tokenize unmatchedText).map Token.kind) ∧ ∃ m, Module.ofTokens (tokenize unmatchedText) = .ok m := by
  constructor
  · decide +kernel
  · exact Module.exists_of_isSome (by decide +kernel)

end ScopeLint
