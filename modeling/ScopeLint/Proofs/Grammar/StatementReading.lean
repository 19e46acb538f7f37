import ScopeLint.Grammar.Block
import ScopeLint.Proofs.Grammar.PatternReading

/-!
# Reading ascriptions and statements

The rules for ascriptions, parameters, statements and blocks read the spellings of their answers, if the reading of an
expression that they are given does so.
-/

namespace ScopeLint.Grammar

open Spelling Reading

variable {allowed : ReadFailure → Prop} {c d : Cursor} {l : Language Word} [Tolerant allowed]

/-! ### Ascriptions -/

/-- A token that does not stop an ascription belongs to it. -/
private theorem bracketsClose_cons {stops : List TokenKind} {depth k : Nat} {t : Token}
    (h : ascriptionStep stops depth t = .ok (some k)) {ws : List Word} (hws : BracketsClose stops k ws) :
    BracketsClose stops depth (t.word :: ws) := by
  unfold ascriptionStep at h
  rw [BracketsClose]
  split at h
  · cases h
  · next hend =>
    split at h
    · cases h
    · next hstop =>
      refine ⟨hend, fun hdepth hmem => hstop ⟨hdepth, hmem⟩, ?_⟩
      split at h
      · next hopens =>
        rw [if_pos (show t.word.kind.opens = true from hopens)]
        cases h
        exact hws
      · next hopens =>
        rw [if_neg (show ¬ t.word.kind.opens = true from hopens)]
        split at h
        · next hcloses =>
          rw [if_pos (show t.word.kind.closes = true from hcloses)]
          split at h
          · cases h
          · cases h
            exact ⟨by omega, hws⟩
        · next hcloses =>
          rw [if_neg (show ¬ t.word.kind.closes = true from hcloses)]
          cases h
          exact hws

private theorem depth_eq_zero_of_stop {stops : List TokenKind} {depth : Nat} {t : Token}
    (h : ascriptionStep stops depth t = .ok none) : depth = 0 := by
  unfold ascriptionStep at h
  split at h
  · cases h
  · split at h
    · next hstop => exact hstop.1
    · split at h
      · cases h
      · split at h
        · split at h <;> cases h
        · cases h

/-- An ascription is stopped behind words that are balanced up to there. -/
private theorem ascriptionStop_reads (stops : List TokenKind) (depth : Nat) (before : List Token) (t : Token)
    (after : List Token) (hc : Cursor.Ended allowed ⟨before, t, after⟩) :
    match ascriptionStop stops depth before t after with
    | .ok d => Cursor.Reaches allowed ⟨before, t, after⟩ {ws | BracketsClose stops depth ws} d
    | .error failure => allowed failure := by
  induction after generalizing depth before t with
  | nil =>
    have hend : t.kind = .endOfInput := hc.closed t rfl
    simp only [ascriptionStop, ascriptionStep, hend, if_true]
    exact Tolerant.fault _
  | cons next after ih =>
    rw [ascriptionStop]
    cases hstep : ascriptionStep stops depth t with
    | error cause => exact Tolerant.fault _
    | ok step =>
      cases step with
      | none =>
        refine (Cursor.Reaches.start hc).le fun ws hws => ?_
        obtain rfl := hws
        exact depth_eq_zero_of_stop hstep
      | some k =>
        have hend : t.kind ≠ .endOfInput := fun hend => by simp [ascriptionStep, hend] at hstep
        have h := (Cursor.Reaches.start hc).advance rfl hend
        rw [one_mul] at h
        have hrest := ih k (t :: before) next h.ended
        dsimp only
        split
        · next d hd =>
          rw [hd] at hrest
          refine (h.trans hrest).le fun ws hws => ?_
          obtain ⟨-, rfl, vs, hvs, rfl⟩ := Language.mem_mul.mp hws
          exact bracketsClose_cons hstep hvs
        · next failure hf =>
          rw [hf] at hrest
          exact hrest

theorem run_ascription (stops : List TokenKind) (c : Cursor) :
    (ascription stops).run c = (ascriptionStop stops 0 c.before c.current c.after).bind fun d =>
      if d.index = c.index then .error (.fault ⟨.ascriptionEmpty, d.current, d.index⟩)
      else .ok (textBetween c.tokens c.current.start d.previous.stop, d) :=
  rfl

theorem ascription_reads (hc : c.Ended allowed) (stops : List TokenKind) :
    (ascription stops).Ensures allowed c fun _ d => c.Reaches allowed (Spelling.ascription stops) d := by
  have h := ascriptionStop_reads stops 0 c.before c.current c.after hc
  rw [Ensures, run_ascription]
  cases hstop : ascriptionStop stops 0 c.before c.current c.after with
  | error failure =>
    rw [hstop] at h
    exact h
  | ok d =>
    rw [hstop] at h
    simp only [Except.bind]
    by_cases hindex : d.index = c.index
    · rw [if_pos hindex]
      exact Tolerant.fault _
    · rw [if_neg hindex]
      obtain ⟨hended, ts, hahead, hbefore, hinside, hmem⟩ := h
      refine ⟨hended, ts, hahead, hbefore, hinside, ?_, hmem⟩
      intro hnil
      rw [List.map_eq_nil_iff.mp hnil] at hbefore
      exact hindex (by simp [Cursor.index, hbefore])

theorem ascriptionBehind_reads (hc : c.Ended allowed) {mark : TokenKind} (hne : mark ≠ .endOfInput)
    (stops : List TokenKind) : (ascriptionBehind mark stops).Reads allowed (ascribed mark stops) c := by
  rw [Reads, ascriptionBehind, ensures_behind]
  refine (accepts_reads hc mark hne).mono fun b d h => ?_
  split
  · next hb =>
    rw [if_pos hb] at h
    exact (ascription_reads h.ended stops).mono fun _ e h' => h.trans h'
  · next hb => rwa [if_neg hb] at h

theorem ascribed_le (mark : TokenKind) (stops : List TokenKind) (text : Option String) :
    ascribed mark stops text ≤ optional (anyOf mark * Spelling.ascription stops) := by
  cases text with
  | none => exact le_self_add
  | some text => exact le_add_self

/-! ### Parameters -/

theorem parameter_reads (hc : c.Ended allowed) : parameter.Reads allowed (Node.spellingAs Node.isParameter) c := by
  rw [Reads, parameter, ensures_bind]
  refine (expect_behind (.start hc) .name rfl).mono fun first d h => ?_
  rw [one_mul] at h
  simp only [name?, ensures_bind, ensures_sees, ensures_ite, ensures_advance, ensures_pure]
  split
  · next hname =>
    have h' := h.advance (Token.is_none_iff.mp hname) (by decide)
    refine ((ascriptionBehind_reads h'.ended (by decide) _).behind h').mono fun text e h => ?_
    simpa only [Node.spellingAs, Node.isParameter, provided, if_true, Node.spelling] using h
  · refine ((ascriptionBehind_reads h.ended (by decide) _).behind h).mono fun text e h => ?_
    simpa only [Node.spellingAs, Node.isParameter, provided, if_true, Node.spelling, one_mul] using h

theorem parameters_readsWithin (n : Nat) :
    (commaList parameter .rightParen).ReadsWithin allowed n fun ps =>
      commaList (ps.map (Node.spellingAs Node.isParameter)) :=
  commaList_readsWithin (fun _ hc _ => parameter_reads hc) .rightParen

/-! ### Statements -/

variable {n : Nat} {expression : Reading Node}

theorem assignment_reads (hexpression : expression.ReadsWithin allowed n (Node.spellingAs Node.isExpression))
    (hc : c.Ended allowed) (hn : c.after.length < n + 1) (hk : c.current.kind = .keyword)
    (hv : c.current.value = some "let") :
    (assignment expression).Reads allowed (Node.spellingAs Node.isStatement) c := by
  have h := (Cursor.Reaches.start hc).advanceWord hk hv (by decide)
  rw [one_mul] at h
  simp only [Reads, assignment, ensures_traced, ensures_bind, ensures_advance, ensures_pure]
  refine (acceptsWord_reads h.ended .keyword (by decide) "assert").mono fun asserted d hd => ?_
  replace h := h.trans hd
  refine ((pattern_reads h.ended).behind h).mono fun pattern d h => ?_
  refine ((ascriptionBehind_reads h.ended (by decide) _).behind h).mono fun text d h => ?_
  refine (expectAny_behind h .equal rfl).mono fun _ d h => ?_
  have hlt := h.lt (by simp only [nil_mem_mul, nil_notMem_anyOf, and_false, not_false_iff])
  refine (hexpression.behind h (by omega)).mono fun value d h => ?_
  simpa only [Node.spellingAs, Node.isStatement, provided, if_true, Node.spelling] using h

theorem usePattern_reads (hc : c.Ended allowed) :
    usePattern.Reads allowed
      (fun p => p.spellingAs Node.isPattern * optional (anyOf .colon * Spelling.ascription [.comma, .leftArrow])) c := by
  simp only [Reads, usePattern, ensures_bind, ensures_pure]
  refine (pattern_reads hc).mono fun pattern d h => ?_
  refine ((ascriptionBehind_reads h.ended (by decide) _).behind h).mono fun text d h => h.le ?_
  exact mul_le_mul_right (ascribed_le _ _ text) _

theorem use_reads (hexpression : expression.ReadsWithin allowed n (Node.spellingAs Node.isExpression))
    (hc : c.Ended allowed) (hn : c.after.length < n + 1) (hk : c.current.kind = .keyword)
    (hv : c.current.value = some "use") :
    (use expression).Reads allowed (Node.spellingAs Node.isStatement) c := by
  have h := (Cursor.Reaches.start hc).advanceWord hk hv (by decide)
  rw [one_mul] at h
  simp only [Reads, use, ensures_traced, ensures_bind, ensures_advance, ensures_pure]
  have hlt := h.lt (by simp)
  refine ((commaList_readsWithin (fun _ hc _ => usePattern_reads hc) .leftArrow).behind h hlt).mono
    fun patterns d h => ?_
  refine (expectAny_behind h .leftArrow rfl).mono fun _ d h => ?_
  have hlt := h.lt (by simp)
  refine (hexpression.behind h (by omega)).mono fun function d h => ?_
  simpa only [Node.spellingAs, Node.isStatement, provided, if_true, Node.spelling, spellings_eq_map, List.map_map,
    Function.comp_def] using h

theorem statement_readsWithin (hexpression : expression.ReadsWithin allowed n (Node.spellingAs Node.isExpression)) :
    (statement expression).ReadsWithin allowed n (Node.spellingAs Node.isStatement) := by
  intro c hc hn
  simp only [Reads, statement, ensures_bind, ensures_current, ensures_ite, ensures_pure]
  split
  · next hlet =>
    obtain ⟨hk, hv⟩ := Token.is_some_iff.mp hlet
    exact assignment_reads hexpression hc (by omega) hk hv
  · split
    · next huse =>
      obtain ⟨hk, hv⟩ := Token.is_some_iff.mp huse
      exact use_reads hexpression hc (by omega) hk hv
    · refine (hexpression c hc hn).mono fun value d h => ?_
      simpa only [Node.spellingAs, Node.isStatement, provided, if_true, Node.spelling] using h

theorem block_readsWithin (hexpression : expression.ReadsWithin allowed n (Node.spellingAs Node.isExpression)) :
    (block expression).ReadsWithin allowed (n + 1) fun statements =>
      anyOf .leftBrace * (statements.map (Node.spellingAs Node.isStatement)).prod * anyOf .rightBrace := by
  intro c hc hn
  simp only [Reads, block, ensures_traced, ensures_bind, ensures_pure]
  refine (expectAny_behind (.start hc) .leftBrace rfl).mono fun _ d h => ?_
  rw [one_mul] at h
  have hlt := h.lt (by simp)
  have hstatements := upToBrace_readsWithin (statement_readsWithin hexpression)
    (fun node => node.nil_notMem_spellingAs Node.isStatement) .blockUnfinished
  refine (hstatements.behind h (by omega)).mono fun statements d h => ?_
  exact expectAny_behind h .rightBrace rfl

end ScopeLint.Grammar
