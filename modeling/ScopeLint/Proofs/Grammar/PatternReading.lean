import ScopeLint.Proofs.Grammar.Passage

/-!
# Reading patterns

The rules for patterns read the spellings of their answers (`pattern_reads`).
-/

namespace ScopeLint.Grammar

open Spelling Reading

variable {allowed : ReadFailure → Prop} {c d : Cursor} {l : Language Word}

theorem label?_reads (hc : c.Ended allowed) : label?.Reads allowed labelled c := by
  simp only [Reads, label?, ensures_bind, ensures_sees, ensures_seesNext, ensures_ite, ensures_advance, ensures_pure]
  split
  · next h =>
    obtain ⟨hname, hcolon⟩ := Bool.and_eq_true_iff.mp h
    have h' := ((Cursor.Reaches.start hc).advance (Token.is_none_iff.mp hname) (by decide)).advanceAny
      (Cursor.kind_advance_of_next? hcolon) (by decide)
    rwa [one_mul] at h'
  · exact .start hc

variable {n : Nat} {inner : Reading Node}

/-! ### Lists -/

theorem entries_cons_le (l : Language Word) (ls : List (Language Word)) (tail : Option (Language Word)) :
    l * anyOf .comma * Spelling.entries ls tail ≤ Spelling.entries (l :: ls) tail := by
  cases tail with
  | none => exact commaList_cons_le l ls
  | some tail => simp only [Spelling.entries, List.map_cons, List.prod_cons, mul_assoc, le_refl]

theorem tail_le (tail : Language Word) :
    anyOf .dotDot * tail * optional (anyOf .comma) ≤ Spelling.entries [] (some tail) := by
  simp only [Spelling.entries, List.map_nil, List.prod_nil, one_mul, le_refl]

/-- The entries of a list are its elements and its tail. -/
theorem entries_readsWithin {element : Reading Node} {tail : Token → Reading Node}
    {elementSpelling tailSpelling : Node → Language Word} (helement : element.ReadsWithin allowed n elementSpelling)
    (htail : ∀ t, (tail t).ReadsWithin allowed n tailSpelling) :
    (entries element tail).ReadsWithin allowed n fun es =>
      Spelling.entries ((Entry.elements es).map elementSpelling) ((Entry.tail? es).map tailSpelling) := by
  intro c hc hn
  refine ensures_collect
    (P := fun c es d => c.Reaches allowed
      (Spelling.entries ((Entry.elements es).map elementSpelling) ((Entry.tail? es).map tailSpelling)) d)
    (I := fun c => c.Ended allowed ∧ c.after.length < n) (fun c ⟨hc, hn⟩ => ?_) ⟨hc, hn⟩
  simp only [ensures_bind, ensures_sees, ensures_current, ensures_ite, ensures_accepts, ensures_pure, if_true,
    Bool.false_eq_true, if_false]
  split
  · exact .start hc
  · split
    · next hdots =>
      have h := (Cursor.Reaches.start hc).advanceAny hdots (by decide)
      rw [one_mul] at h
      refine ((htail _).behind h (Nat.lt_of_le_of_lt h.length_le hn)).mono fun node d h => ?_
      split
      · next hcomma =>
        refine (h.advanceAny hcomma (by decide)).le (le_trans ?_ (tail_le _))
        exact mul_le_mul_right le_add_self _
      · exact h.le ((le_mul_of_one_le_right' le_self_add).trans (tail_le _))
    · refine (helement c hc hn).mono fun node d h => ?_
      split
      · next hcomma =>
        have h' := h.advanceAny hcomma (by decide)
        refine ⟨⟨h'.ended, Nat.lt_of_le_of_lt h'.length_le hn⟩, .inr (h'.lt (by simp)), fun es e hes => ?_⟩
        exact (h'.trans hes).le (entries_cons_le _ _ _)
      · exact h.le (le_commaList_single _)

theorem tailPattern_readsWithin (hinner : inner.ReadsWithin allowed n (Node.spellingAs Node.isPattern))
    (dots : Token) :
    (tailPattern inner dots).ReadsWithin allowed n fun p =>
      provided p.isBareTail 1 + p.spellingAs Node.isPattern := by
  intro c hc hn
  simp only [Reads, tailPattern, ensures_bind, ensures_sees, ensures_ite, ensures_pure]
  split
  · exact (Cursor.Reaches.start hc).le le_self_add
  · exact (hinner c hc hn).mono fun p d h => h.le le_add_self

/-! ### Patterns -/

theorem patternArgument_readsWithin (hinner : inner.ReadsWithin allowed n (Node.spellingAs Node.isPattern)) :
    (patternArgument inner).ReadsWithin allowed n fun p =>
      optional (anyOf .name * anyOf .colon) * p.spellingAs Node.isPattern := by
  intro c hc hn
  rw [Reads, patternArgument, ensures_bind]
  refine (label?_reads hc).mono fun label d h => ?_
  refine hinner.behind (h.le ?_) (Nat.lt_of_le_of_lt h.length_le hn)
  exact labelled_le label

variable [Tolerant allowed]

theorem patternArguments_readsWithin (hinner : inner.ReadsWithin allowed n (Node.spellingAs Node.isPattern)) :
    (patternArguments inner).ReadsWithin allowed n fun ps =>
      provided ps.isEmpty 1 +
        anyOf .leftParen *
          commaList (ps.map fun p => optional (anyOf .name * anyOf .colon) * p.spellingAs Node.isPattern) *
          anyOf .rightParen := by
  intro c hc hn
  rw [Reads, patternArguments, ensures_bind, ensures_accepts]
  split
  · next hk =>
    have h := (Cursor.Reaches.start hc).advanceAny hk (by decide)
    rw [if_pos rfl, ensures_bind]
    have hitems := commaList_readsWithin (patternArgument_readsWithin hinner) .rightParen
    refine (hitems.behind h (Nat.lt_of_le_of_lt h.length_le hn)).mono fun ps d h => ?_
    simp only [ensures_bind, ensures_pure]
    refine (expectAny_behind h .rightParen rfl).mono fun _ d h => h.le ?_
    rw [one_mul]
    exact le_add_self
  · rw [if_neg Bool.false_ne_true, ensures_pure]
    exact (Cursor.Reaches.start hc).le le_self_add

theorem namePattern_reads (hinner : inner.ReadsWithin allowed n (Node.spellingAs Node.isPattern))
    (hc : c.Ended allowed) (hn : c.after.length < n + 1) (hk : c.current.kind = .name) :
    (namePattern inner).Reads allowed (Node.spellingAs Node.isPattern) c := by
  have h := (Cursor.Reaches.start hc).advance hk (by decide)
  rw [one_mul] at h
  simp only [Reads, namePattern, ensures_bind, ensures_advance, ensures_sees, ensures_seesNext, ensures_ite,
    ensures_pure]
  split
  · next hq =>
    obtain ⟨hdot, hup⟩ := Bool.and_eq_true_iff.mp hq
    have h' := (h.advanceAny (Token.is_none_iff.mp hdot) (by decide)).advance (Cursor.kind_advance_of_next? hup)
      (by decide)
    have hlt := h'.lt (by simp)
    refine ((patternArguments_readsWithin hinner).behind h' (by omega)).mono fun ps d h => h.le ?_
    simp only [Node.spellingAs, Node.isPattern, provided, if_true, Node.spelling, spellings_eq_map, List.map_map]
    refine mul_le_mul_left (le_trans ?_ le_add_self) _
    exact fun ws hws => ⟨_, _, rfl, hws⟩
  · refine ensures_valueOf_current hc (by rw [hk]; decide) ?_
    split
    · next hd =>
      simpa only [ensures_pure, Node.spellingAs, Node.isPattern, provided, if_true, Node.spelling, hd] using h
    · next hd =>
      simpa only [ensures_pure, Node.spellingAs, Node.isPattern, provided, if_true, Node.spelling, hd,
        Bool.not_false] using h

theorem negatedPattern_reads (hc : c.Ended allowed) (hk : c.current.kind = .operator)
    (hv : c.current.value = some "-") :
    negatedPattern.Reads allowed (Node.spellingAs Node.isPattern) c := by
  have h := (Cursor.Reaches.start hc).advanceWord hk hv (by decide)
  rw [one_mul] at h
  simp only [Reads, negatedPattern, ensures_bind, ensures_advance, ensures_current]
  split
  · next hnumber =>
    have h' := h.advance hnumber (by decide)
    simp only [ensures_bind, ensures_advance]
    refine ensures_valueOf_current h.ended (by rw [hnumber]; decide) ?_
    simp only [ensures_pure, Node.spellingAs, Node.isPattern, provided, if_true, Node.spelling]
    refine h'.le (le_trans ?_ le_add_self)
    exact fun ws hws => ⟨_, rfl, hws⟩
  · next hnumber =>
    have h' := h.advance hnumber (by decide)
    simp only [ensures_bind, ensures_advance]
    refine ensures_valueOf_current h.ended (by rw [hnumber]; decide) ?_
    simp only [ensures_pure, Node.spellingAs, Node.isPattern, provided, if_true, Node.spelling]
    refine h'.le (le_trans ?_ le_add_self)
    exact fun ws hws => ⟨_, rfl, hws⟩
  · exact Tolerant.fault _

theorem tuplePattern_reads (hinner : inner.ReadsWithin allowed n (Node.spellingAs Node.isPattern))
    (hc : c.Ended allowed) (hn : c.after.length < n + 1) (hk : c.current.kind = .hash) :
    (tuplePattern inner).Reads allowed (Node.spellingAs Node.isPattern) c := by
  have h := (Cursor.Reaches.start hc).advanceAny hk (by decide)
  rw [one_mul] at h
  simp only [Reads, tuplePattern, ensures_bind, ensures_advance, ensures_pure]
  refine (expectAny_behind h .leftParen rfl).mono fun _ d h => ?_
  have hlt := h.lt (by simp)
  refine ((commaList_readsWithin hinner .rightParen).behind h (by omega)).mono fun ps d h => ?_
  refine (expectAny_behind h .rightParen rfl).mono fun _ d h => ?_
  simpa only [Node.spellingAs, Node.isPattern, provided, if_true, Node.spelling, spellings_eq_map] using h

theorem listPattern_reads (hinner : inner.ReadsWithin allowed n (Node.spellingAs Node.isPattern))
    (hc : c.Ended allowed) (hn : c.after.length < n + 1) (hk : c.current.kind = .leftBracket) :
    (listPattern inner).Reads allowed (Node.spellingAs Node.isPattern) c := by
  have h := (Cursor.Reaches.start hc).advanceAny hk (by decide)
  rw [one_mul] at h
  simp only [Reads, listPattern, ensures_bind, ensures_advance, ensures_pure]
  have hlt := h.lt (by simp)
  refine ((entries_readsWithin hinner (tailPattern_readsWithin hinner)).behind h (by omega)).mono fun es d h => ?_
  refine (expectAny_behind h .rightBracket rfl).mono fun _ d h => ?_
  simpa only [Node.spellingAs, Node.isPattern, provided, if_true, Node.spelling, spellings_eq_map,
    tailSpelling_eq_map] using h

/-! ### Patterns with names for the whole match -/

theorem primaryPattern_reads (hinner : inner.ReadsWithin allowed n (Node.spellingAs Node.isPattern))
    (hc : c.Ended allowed) (hn : c.after.length < n + 1) :
    (primaryPattern inner).Reads allowed (Node.spellingAs Node.isPattern) c := by
  rw [Reads, primaryPattern, ensures_bind, ensures_current]
  split
  case h_1 hk => exact namePattern_reads hinner hc hn hk
  case h_2 hk =>
    have h := (Cursor.Reaches.start hc).advance hk (by decide)
    rw [one_mul] at h
    have hlt := h.lt (by simp)
    simp only [ensures_bind, ensures_advance, ensures_pure]
    refine ((patternArguments_readsWithin hinner).behind h (by omega)).mono fun ps d h => h.le ?_
    simp only [Node.spellingAs, Node.isPattern, provided, if_true, Node.spelling, spellings_eq_map, List.map_map]
    exact mul_le_mul_left le_self_add _
  case h_3 hk =>
    have h := (Cursor.Reaches.start hc).advance hk (by decide)
    rw [one_mul] at h
    simp only [ensures_bind, ensures_advance, ensures_pure, Node.spellingAs, Node.isPattern, provided, if_true,
      Node.spelling]
    exact h.le le_self_add
  case h_4 hk =>
    have h := (Cursor.Reaches.start hc).advance hk (by decide)
    rw [one_mul] at h
    simp only [ensures_bind, ensures_advance, ensures_pure, Node.spellingAs, Node.isPattern, provided, if_true,
      Node.spelling]
    exact h.le le_self_add
  case h_5 hk =>
    have h := (Cursor.Reaches.start hc).advance hk (by decide)
    simpa only [ensures_bind, ensures_advance, ensures_pure, Node.spellingAs, Node.isPattern, provided, if_true,
      Node.spelling, one_mul] using h
  case h_6 hk =>
    rw [ensures_ite]
    split
    · next hv => exact negatedPattern_reads hc hk hv
    · exact Tolerant.fault _
  case h_7 hk => exact tuplePattern_reads hinner hc hn hk
  case h_8 hk => exact listPattern_reads hinner hc hn hk
  case h_9 => exact Tolerant.fault _
  case h_10 => exact Tolerant.fault _

/-- The names that are given to a pattern one after the other are spelled behind it in that order. -/
theorem spelling_aliased (anchor : Anchor) (names : List String) (p : Node) :
    p.spellingAs Node.isPattern * (names.map fun name => only .keyword "as" * only .name name).prod ≤
      (names.foldl (.patAlias anchor) p).spellingAs Node.isPattern := by
  induction names generalizing p with
  | nil => simp only [List.map_nil, List.prod_nil, mul_one, List.foldl_nil, le_refl]
  | cons name names ih =>
    rw [List.map_cons, List.prod_cons, ← mul_assoc, ← mul_assoc, List.foldl_cons]
    refine le_trans (le_of_eq ?_) (ih (.patAlias anchor p name))
    simp only [Node.spellingAs, Node.isPattern, provided, if_true, Node.spelling]

theorem patternWith_readsWithin (hinner : inner.ReadsWithin allowed n (Node.spellingAs Node.isPattern)) :
    (patternWith inner).ReadsWithin allowed (n + 1) (Node.spellingAs Node.isPattern) := by
  intro c hc hn
  simp only [Reads, patternWith, ensures_bind, ensures_current, ensures_pure]
  refine (primaryPattern_reads hinner hc hn).mono fun p d h => ?_
  refine (ensures_collect (I := fun c => c.Ended allowed)
    (P := fun c names d =>
      c.Reaches allowed (names.map fun name => only .keyword "as" * only .name name).prod d)
    (fun c hc => ?_) h.ended).mono fun names e hnames => (h.trans hnames).le (spelling_aliased _ names p)
  simp only [ensures_bind, ensures_acceptsWord, ensures_ite, ensures_pure, if_true, Bool.false_eq_true, if_false]
  split
  · next has =>
    have h := (Cursor.Reaches.start hc).advanceWord has.1 has.2 (by decide)
    rw [one_mul] at h
    refine (expect_behind h .name rfl).mono fun name d h => ⟨h.ended, .inr (h.lt (by simp)), fun names e hnames => ?_⟩
    rw [List.map_cons, List.prod_cons]
    exact h.trans hnames
  · exact .start hc

/-- A pattern is read wherever its depth suffices. -/
theorem patternWithin_readsWithin (depth : Nat) :
    (patternWithin depth).ReadsWithin allowed depth (Node.spellingAs Node.isPattern) := by
  induction depth with
  | zero => exact fun c _ hn => absurd hn (Nat.not_lt_zero _)
  | succ depth ih => exact patternWith_readsWithin ih

/-- A pattern is read as it is spelled. -/
theorem pattern_reads (hc : c.Ended allowed) : pattern.Reads allowed (Node.spellingAs Node.isPattern) c := by
  rw [Reads, pattern, ensures_bind, ensures_cursor]
  exact patternWithin_readsWithin c.reach c hc (by simp only [Cursor.reach]; omega)

end ScopeLint.Grammar
