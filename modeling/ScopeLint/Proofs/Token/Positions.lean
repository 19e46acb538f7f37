import ScopeLint.Proofs.Token.Slices
import ScopeLint.Token.Session

/-!
# Lines and columns

The line and the column of a position can be counted from the text before it alone (`lineAt`, `columnAt`).  A session
never loses them: whatever steps are taken in whatever order, the place reached and all tokens found stand in the line
and the column so counted (`ScanSession.Counted`), and one scan finds its tokens in the order of lines and columns
(`counted_reached`).
-/

namespace ScopeLint

/-- The line of a position: one more than the line feeds before it. -/
def lineAt (text : List Char) (position : Nat) : Nat :=
  1 + (text.take position).count '\n'

/-- The column of a position: one more than the characters before it that no line feed follows up to there. -/
def columnAt (text : List Char) (position : Nat) : Nat :=
  1 + ((text.take position).reverse.takeWhile (· != '\n')).length

/-- The place is a position of the text, with the line and the column that are counted for it. -/
structure Place.Counted (text : List Char) (p : Place) : Prop where
  offset : p.offset ≤ text.length
  line : p.line = lineAt text p.offset
  column : p.column = columnAt text p.offset

/-- The token starts at a position of the text, in the line and the column that are counted for it. -/
def Token.Counted (text : List Char) (t : Token) : Prop :=
  ∃ position ≤ text.length,
    t.start = position ∧ t.line = lineAt text position ∧ t.column = columnAt text position

/-- The token stands in an earlier line than another one, or before it in the same line. -/
def Token.Precedes (t u : Token) : Prop :=
  t.line < u.line ∨ (t.line = u.line ∧ t.column < u.column)

/-! ### Positions -/

private theorem lineAt_append (past cs : List Char) {position : Nat} (h : past.length = position) :
    lineAt (past ++ cs) position = 1 + past.count '\n' := by
  rw [lineAt, ← h, List.take_left]

private theorem columnAt_append (past cs : List Char) {position : Nat} (h : past.length = position) :
    columnAt (past ++ cs) position = 1 + (past.reverse.takeWhile (· != '\n')).length := by
  rw [columnAt, ← h, List.take_left]

namespace Place.Counted

variable {text : List Char} {p : Place}

theorem start (text : List Char) : Place.Counted text .start :=
  ⟨Nat.zero_le _, rfl, rfl⟩

/-- Counting goes on over one more character. -/
theorem step {c : Char} {rest : List Char} (h : p.Counted text) (hahead : text.drop p.offset = c :: rest) :
    (p.step c).Counted text := by
  have hsplit : text = text.take p.offset ++ c :: rest := by rw [← hahead, List.take_append_drop]
  have hlength : (text.take p.offset).length = p.offset := by rw [List.length_take, Nat.min_eq_left h.offset]
  generalize text.take p.offset = past at hsplit hlength
  obtain ⟨hoffset, hline, hcolumn⟩ := h
  subst hsplit
  have hnext : (past ++ [c]).length = p.offset + 1 := by rw [List.length_append, hlength, List.length_singleton]
  rw [lineAt_append past _ hlength] at hline
  rw [columnAt_append past _ hlength] at hcolumn
  rw [← List.singleton_append, ← List.append_assoc]
  constructor
  · rw [offset_step, List.length_append, hnext]
    omega
  · rw [line_step, offset_step, lineAt_append _ _ hnext, List.count_append, hline, List.count_singleton]
    simp only [beq_iff_eq]
    omega
  · rw [offset_step, columnAt_append _ _ hnext, List.reverse_append, List.reverse_singleton, List.singleton_append,
      List.takeWhile_cons, Place.step]
    by_cases hc : c = '\n'
    · simp [hc]
    · simp [hc, hcolumn, Nat.add_comm]

/-- Counting goes on over the characters ahead. -/
theorem after {cs : List Char} (h : p.Counted text) (hahead : cs <+: text.drop p.offset) :
    (p.after cs).Counted text := by
  induction cs generalizing p with
  | nil => exact h
  | cons c cs ih =>
    obtain ⟨rest, hrest⟩ := hahead
    refine ih (h.step hrest.symm) ⟨rest, ?_⟩
    rw [offset_step, ← List.drop_drop, ← hrest]
    rfl

end Place.Counted

/-- What stands further on in a text stands in a later line, or further on in the same line. -/
private theorem counted_lt {text : List Char} {position later : Nat} (hlt : position < later)
    (hlater : later ≤ text.length) :
    lineAt text position < lineAt text later ∨
      (lineAt text position = lineAt text later ∧ columnAt text position < columnAt text later) := by
  obtain ⟨between, htake⟩ : ∃ between, text.take later = text.take position ++ between := by
    obtain ⟨between, hbetween⟩ := List.take_prefix_take_left (l := text) (Nat.le_of_lt hlt)
    exact ⟨between, hbetween.symm⟩
  have hlength := congrArg List.length htake
  rw [List.length_append, List.length_take, List.length_take, Nat.min_eq_left hlater,
    Nat.min_eq_left (by omega)] at hlength
  rw [lineAt, lineAt, columnAt, columnAt, htake, List.count_append]
  by_cases hfeed : '\n' ∈ between
  · left
    have hcount := List.count_pos_iff.mpr hfeed
    omega
  · right
    have hall : ∀ c ∈ between.reverse, (c != '\n') = true := fun c hc =>
      bne_iff_ne.mpr fun heq => hfeed (heq ▸ List.mem_reverse.mp hc)
    rw [List.count_eq_zero.mpr hfeed, List.reverse_append, List.takeWhile_append_of_pos hall, List.length_append,
      List.length_reverse]
    omega

/-- Of two tokens that stand where they are counted, the one that starts first precedes the other. -/
theorem Token.Counted.precedes {text : List Char} {t u : Token} (ht : t.Counted text) (hu : u.Counted text)
    (h : t.start < u.start) : t.Precedes u := by
  obtain ⟨position, -, hstart, hline, hcolumn⟩ := ht
  obtain ⟨later, hlater, hstart', hline', hcolumn'⟩ := hu
  have hlt : position < later := by omega
  have hcounted := counted_lt hlt hlater
  rw [Token.Precedes, hline, hline', hcolumn, hcolumn']
  omega

/-! ### Scans -/

/-- A place that is counted makes a counted token. -/
private theorem counted_token {text : List Char} {p : Place} (h : p.Counted text) {t : Token}
    (hstart : t.start = p.offset) (hline : t.line = p.line) (hcolumn : t.column = p.column) : t.Counted text :=
  ⟨p.offset, h.offset, hstart, hline.trans (congrArg Nat.cast h.line), hcolumn.trans (congrArg Nat.cast h.column)⟩

/-- A scan of what is ahead of a counted place finds counted tokens, and stops at a counted place, which is the end of
the text. -/
theorem counted_scan {text cs : List Char} {p : Place} (h : p.Counted text) (hahead : text.drop p.offset = cs) :
    (scan p cs).stop.Counted text ∧ (scan p cs).stop.offset = text.length ∧
      ∀ t ∈ (scan p cs).tokens, t.Counted text := by
  induction cs using scan_induction generalizing p with
  | blank cs hcs =>
    have hstop : (p.after cs).Counted text := h.after (hahead ▸ List.prefix_rfl)
    have hlength := congrArg List.length hahead
    rw [List.length_drop] at hlength
    rw [scan_nil hcs]
    refine ⟨hstop, ?_, fun t ht => ?_⟩
    · rw [Place.offset_after]
      have hoffset := h.offset
      omega
    · obtain rfl := List.mem_singleton.mp ht
      exact counted_token hstop rfl rfl rfl
  | lexeme gap c rest hgap ih =>
    have hstart : (p.after gap).Counted text := h.after (hahead ▸ List.prefix_append _ _)
    have hdrop : text.drop (p.after gap).offset = c :: rest := by
      rw [Place.offset_after, ← List.drop_drop, hahead, List.drop_left]
    have hnext : ((p.after gap).after (Lexeme.read c rest).spelling).Counted text :=
      hstart.after (hdrop ▸ Lexeme.spelling_isPrefix c rest)
    obtain ⟨hstop, hend, htokens⟩ := ih hnext (by rw [Place.offset_after, ← List.drop_drop, hdrop])
    refine ⟨scan_cons hgap p ▸ hstop, scan_cons hgap p ▸ hend, ?_⟩
    rw [tokens_scan_cons hgap]
    exact List.forall_mem_cons.mpr ⟨counted_token hstart rfl rfl rfl, htokens⟩

/-- The tokens that a scan finds ahead of a counted place stand in the order of lines and columns. -/
theorem precedes_scan {text cs : List Char} {p : Place} (h : p.Counted text) (hahead : text.drop p.offset = cs) :
    (scan p cs).tokens.Pairwise Token.Precedes := by
  have hpast : p.offset = (text.take p.offset).length := by rw [List.length_take, Nat.min_eq_left h.offset]
  have htiles := tiles_scan (text.take p.offset) cs hpast
  have hcounted := (counted_scan h hahead).2.2
  refine htiles.pairwise.imp_of_mem fun {t u} ht hu hapart => ?_
  exact (hcounted t ht).precedes (hcounted u hu) (by omega)

/-! ### Sessions -/

/-- What may be done in a session. -/
inductive ScanStep where
  | advance (count : Int)
  | skip
  | tokenize

namespace ScanSession

/-- Takes a step. -/
def perform (s : ScanSession) : ScanStep → ScanSession
  | .advance count => s.advance count
  | .skip => s.skip
  | .tokenize => s.tokenize

/-- The session on a text after some steps. -/
def reached (text : List Char) (steps : List ScanStep) : ScanSession :=
  steps.foldl perform (start text)

/-- The place reached and all tokens found stand where they are counted in the text. -/
structure Counted (text : List Char) (s : ScanSession) : Prop where
  place : s.place.Counted text
  tokens : ∀ t ∈ s.tokens, t.Counted text
  text : s.text = text

namespace Counted

variable {text : List Char} {s : ScanSession}

theorem advance (h : s.Counted text) (count : Int) :
    (s.advance count).Counted text ∧ s.place.offset ≤ (s.advance count).place.offset := by
  have hahead : s.ahead.take count.toNat <+: text.drop s.place.offset := by
    rw [ahead, h.text]
    exact List.take_prefix _ _
  refine ⟨⟨h.place.after hahead, h.tokens, h.text⟩, ?_⟩
  show s.place.offset ≤ (s.place.after _).offset
  rw [Place.offset_after]
  exact Nat.le_add_right _ _

theorem tokenize (h : s.Counted text) :
    s.tokenize.Counted text ∧ s.place.offset ≤ s.tokenize.place.offset := by
  have hahead : text.drop s.place.offset = s.ahead := by rw [ahead, h.text]
  obtain ⟨hstop, hend, htokens⟩ := counted_scan h.place hahead
  refine ⟨⟨hstop, fun t ht => ?_, h.text⟩, ?_⟩
  · rcases List.mem_append.mp ht with hold | hnew
    · exact h.tokens t hold
    · exact htokens t hnew
  · exact h.place.offset.trans_eq hend.symm

/-- A step keeps all counted, and does not go back. -/
theorem perform (h : s.Counted text) (step : ScanStep) :
    (s.perform step).Counted text ∧ s.place.offset ≤ (s.perform step).place.offset := by
  cases step with
  | advance count => exact h.advance count
  | skip => exact h.advance _
  | tokenize => exact h.tokenize

/-- So do any steps, one after the other. -/
theorem foldl_perform (h : s.Counted text) (steps : List ScanStep) :
    (steps.foldl ScanSession.perform s).Counted text ∧
      s.place.offset ≤ (steps.foldl ScanSession.perform s).place.offset := by
  induction steps generalizing s with
  | nil => exact ⟨h, Nat.le_refl _⟩
  | cons step steps ih =>
    obtain ⟨hnext, hle⟩ := h.perform step
    obtain ⟨hlast, hle'⟩ := ih hnext
    exact ⟨hlast, hle.trans hle'⟩

end Counted

theorem Counted.start (text : List Char) : (start text).Counted text :=
  ⟨.start text, fun _ h => absurd h List.not_mem_nil, rfl⟩

theorem Counted.reached (text : List Char) (steps : List ScanStep) : (reached text steps).Counted text :=
  ((Counted.start text).foldl_perform steps).1

/-- Whatever steps are taken in a session on a text, the place reached is a position of the text, in the line and the
column that are counted for it, and so are the starts of all tokens found, the marks for the end of the input included.
More steps do not go back.  The tokens that one scan adds stand in the order of lines and columns. -/
theorem counted_reached (text : List Char) (steps : List ScanStep) :
    (reached text steps).Counted text ∧
      (∀ more, (reached text steps).place.offset ≤ (reached text (steps ++ more)).place.offset) ∧
      ∃ added, (reached text (steps ++ [.tokenize])).tokens = (reached text steps).tokens ++ added ∧
        added.Pairwise Token.Precedes := by
  have hcounted := Counted.reached text steps
  refine ⟨hcounted, fun more => ?_, (scan (reached text steps).place (reached text steps).ahead).tokens, ?_, ?_⟩
  · rw [reached, reached, List.foldl_append]
    exact (hcounted.foldl_perform more).2
  · rw [reached, List.foldl_append]
    rfl
  · exact precedes_scan hcounted.place (by rw [ahead, hcounted.text])

example :
    (reached "a\n\n  b".toList [.advance 2, .advance (-1), .tokenize, .skip, .tokenize]).tokens.map
        (fun t => (t.line, t.column, t.start)) = [(3, 3, 5), (3, 4, 6), (3, 4, 6)] := by
  decide +kernel

end ScanSession

end ScopeLint
