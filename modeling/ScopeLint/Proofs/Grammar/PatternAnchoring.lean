import ScopeLint.Proofs.Grammar.Anchoring

/-!
# Places of patterns and statements

The rules for patterns, parameters, statements and blocks hold the nodes that they answer with, if the reading of an
expression that they are given does so (`pattern_holds`, `statement_holdsWithin`).
-/

namespace ScopeLint.Grammar

open Spelling Reading

variable {c d : Cursor} {n : Nat} {inner : Reading Node}

/-! ### Lists -/

/-- The nodes of the entries of a list, in the order of the entries. -/
def Entry.nodes (es : List Entry) : List Node :=
  Entry.elements es ++ (Entry.tail? es).toList

/-- The entries of a list gather their nodes; what holds the tail starts at the two dots. -/
theorem entries_gathersWithin {element : Reading Node} {tail : Token → Reading Node} (helement : element.HoldsWithin n)
    (htail : ∀ c : Cursor, c.Ended AnyFailure → c.current.kind = .dotDot → c.after.length < n →
      (tail c.current).Ensures AnyFailure c.advance fun node d => c.Gathers [node] d) :
    (entries element tail).GathersWithin n Entry.nodes := by
  intro c hc hn
  refine ensures_collect (P := fun c es d => c.Gathers (Entry.nodes es) d)
    (I := fun c => c.Ended AnyFailure ∧ c.after.length < n) (fun c ⟨hc, hn⟩ => ?_) ⟨hc, hn⟩
  have hcomma : ∀ {nodes : List Node} {d : Cursor}, c.Gathers nodes d →
      (accepts .comma).Ensures AnyFailure d fun _ e => c.Gathers nodes e :=
    fun h => (accepts_reads h.ended .comma (by decide)).mono fun _ _ he => h.over he
  rw [ensures_bind, ensures_sees, ensures_ite]
  split
  · exact .start hc
  · rw [ensures_bind, ensures_current, ensures_bind, ensures_accepts]
    split
    · next hdots =>
      rw [if_pos rfl, ensures_bind]
      refine (htail c hc hdots hn).mono fun node d h => ?_
      rw [ensures_bind]
      exact hcomma h
    · rw [if_neg Bool.false_ne_true, ensures_bind]
      refine (helement c hc hn).mono fun node d h => ?_
      rw [ensures_bind]
      refine (hcomma h.gathers).mono fun more e h => ?_
      rw [ensures_ite]
      split
      · exact ⟨⟨h.ended, Nat.lt_of_le_of_lt h.length_le hn⟩, .inl trivial, fun es e hes => h.trans hes⟩
      · exact h

/-- The tail of a list pattern: a pattern behind the dots, or the dots themselves. -/
theorem tailPattern_gathers (hinner : inner.HoldsWithin n) (hc : c.Ended AnyFailure) (hk : c.current.kind = .dotDot)
    (hn : c.after.length < n) :
    (tailPattern inner c.current).Ensures AnyFailure c.advance fun node d => c.Gathers [node] d := by
  obtain ⟨h, hahead, hlt⟩ := hc.advance hk (by decide)
  simp only [tailPattern, ensures_bind, ensures_sees, ensures_ite, ensures_pure]
  split
  · exact ⟨h.ended, [c.current], hahead, .single (.bareTail hk)⟩
  · exact hinner.behind h (by omega)

/-! ### Patterns -/

theorem patternArgument_gathersWithin (hinner : inner.HoldsWithin n) :
    (patternArgument inner).GathersWithin n fun node => [node] := by
  intro c hc hn
  rw [patternArgument, ensures_bind]
  refine ((label?_reads hc).over (.start hc)).mono fun _ d h => ?_
  exact hinner.behind h (Nat.lt_of_le_of_lt h.length_le hn)

theorem patternArguments_gathersWithin (hinner : inner.HoldsWithin n) :
    (patternArguments inner).GathersWithin n id := by
  intro c hc hn
  rw [patternArguments, ensures_bind]
  refine (accepts_reads hc .leftParen (by decide)).mono fun b d hb => ?_
  have h := (Cursor.Gathers.start hc).over hb
  rw [ensures_ite]
  split
  · rw [ensures_bind]
    refine ((commaList_gathersWithin (patternArgument_gathersWithin hinner) .rightParen).behind h
      (Nat.lt_of_le_of_lt h.length_le hn)).mono fun arguments e h => ?_
    simp only [ensures_bind, ensures_pure]
    exact expect_over h _
  · exact h

theorem namePattern_starts (hinner : inner.HoldsWithin n) (hc : c.Ended AnyFailure) (hn : c.after.length < n + 1)
    (hk : c.current.kind = .name) : (namePattern inner).Ensures AnyFailure c c.Starts := by
  obtain ⟨h, -, hlt⟩ := hc.advance hk (by decide)
  simp only [namePattern, ensures_bind, ensures_advance, ensures_sees, ensures_seesNext, ensures_ite, ensures_pure]
  split
  · next hq =>
    obtain ⟨hdot, hup⟩ := Bool.and_eq_true_iff.mp hq
    have hpast := ((Cursor.Reaches.start h.ended).advance (Token.is_none_iff.mp hdot) (by decide)).advance
      (Cursor.kind_advance_of_next? hup) (by decide)
    have hle := hpast.length_le
    refine ((patternArguments_gathersWithin hinner).behind (h.over hpast) (by omega)).mono fun arguments d h => ?_
    exact ⟨rfl, rfl, h⟩
  · refine ensures_valueOf_current hc (by rw [hk]; decide) ?_
    split
    · exact ⟨rfl, rfl, h⟩
    · exact ⟨rfl, rfl, h⟩

theorem negatedPattern_starts (hc : c.Ended AnyFailure) (hk : c.current.kind = .operator) :
    negatedPattern.Ensures AnyFailure c c.Starts := by
  obtain ⟨h, -, -⟩ := hc.advance hk (by decide)
  -- The literal behind the sign belongs to the pattern.
  have hnumber : ∀ {kind : TokenKind} {f : String → Node}, c.advance.current.kind = kind → kind ≠ .endOfInput →
      (∀ value, (f value).standsInside = false ∧ (f value).anchor = c.current.anchor ∧ (f value).children = []) →
      (do return f ("-" ++ (← valueOf c.advance.current))).Ensures AnyFailure c.advance.advance c.Starts := by
    intro kind f hk hne hf
    rw [ensures_bind]
    refine ensures_valueOf_current h.ended (hk ▸ hne) ?_
    obtain ⟨houtside, hanchored, hchildren⟩ := hf ("-" ++ c.advance.current.text)
    refine ⟨houtside, hanchored, ?_⟩
    rw [hchildren]
    exact h.over ((Cursor.Reaches.start h.ended).advance hk hne)
  simp only [negatedPattern, ensures_bind, ensures_advance, ensures_current]
  split
  · next hk => exact hnumber (f := .patInt _) hk (by decide) fun _ => ⟨rfl, rfl, rfl⟩
  · next hk => exact hnumber (f := .patFloat _) hk (by decide) fun _ => ⟨rfl, rfl, rfl⟩
  · trivial

theorem tuplePattern_starts (hinner : inner.HoldsWithin n) (hc : c.Ended AnyFailure) (hn : c.after.length < n + 1)
    (hk : c.current.kind = .hash) : (tuplePattern inner).Ensures AnyFailure c c.Starts := by
  obtain ⟨h, -, hlt⟩ := hc.advance hk (by decide)
  simp only [tuplePattern, ensures_bind, ensures_advance, ensures_pure]
  refine (expect_over (.start h.ended) _).mono fun _ d hd => ?_
  have hle := hd.length_le
  refine ((commaList_gathersWithin hinner.gathersWithin .rightParen).behind hd (by omega)).mono fun elements e he => ?_
  refine (expect_over he _).mono fun _ f hf => ?_
  exact ⟨rfl, rfl, h.trans hf⟩

theorem listPattern_starts (hinner : inner.HoldsWithin n) (hc : c.Ended AnyFailure) (hn : c.after.length < n + 1)
    (hk : c.current.kind = .leftBracket) : (listPattern inner).Ensures AnyFailure c c.Starts := by
  obtain ⟨h, -, hlt⟩ := hc.advance hk (by decide)
  simp only [listPattern, ensures_bind, ensures_advance, ensures_pure]
  have hentries := entries_gathersWithin hinner fun _ hc hk hn => tailPattern_gathers hinner hc hk hn
  refine (hentries.behind h (by omega)).mono fun es d h => ?_
  refine (expect_over h _).mono fun _ d h => ?_
  exact ⟨rfl, rfl, h⟩

theorem primaryPattern_starts (hinner : inner.HoldsWithin n) (hc : c.Ended AnyFailure) (hn : c.after.length < n + 1) :
    (primaryPattern inner).Ensures AnyFailure c c.Starts := by
  -- A literal has no parts.
  have hword : ∀ {kind : TokenKind}, c.current.kind = kind → kind ≠ .endOfInput → c.Gathers [] c.advance :=
    fun hk hne => (hc.advance hk hne).1
  rw [primaryPattern, ensures_bind, ensures_current]
  split
  case h_1 hk => exact namePattern_starts hinner hc hn hk
  case h_2 hk =>
    obtain ⟨h, -, hlt⟩ := hc.advance hk (by decide)
    simp only [ensures_bind, ensures_advance, ensures_pure]
    refine ((patternArguments_gathersWithin hinner).behind h (by omega)).mono fun arguments d h => ?_
    exact ⟨rfl, rfl, h⟩
  case h_3 hk => exact ⟨rfl, rfl, hword hk (by decide)⟩
  case h_4 hk => exact ⟨rfl, rfl, hword hk (by decide)⟩
  case h_5 hk => exact ⟨rfl, rfl, hword hk (by decide)⟩
  case h_6 hk =>
    rw [ensures_ite]
    split
    · exact negatedPattern_starts hc hk
    · trivial
  case h_7 hk => exact tuplePattern_starts hinner hc hn hk
  case h_8 hk => exact listPattern_starts hinner hc hn hk
  case h_9 => trivial
  case h_10 => trivial

/-- A pattern with names for its whole match stands where the pattern starts. -/
theorem patternWith_holdsWithin (hreads : inner.ReadsWithin AnyFailure n (Node.spellingAs Node.isPattern))
    (hinner : inner.HoldsWithin n) : (patternWith inner).HoldsWithin (n + 1) := by
  intro b hb hn
  simp only [patternWith, ensures_bind, ensures_current, ensures_pure]
  have hprimary := primaryPattern_reads hreads hb hn
  refine (hprimary.and (hprimary.holds (primaryPattern_starts hinner hb hn))).mono fun p c hread => ?_
  obtain ⟨hp, hholds⟩ := hread
  -- Each name makes a pattern of the one that has been read before it.
  refine (ensures_collect (I := fun c => c.Ended AnyFailure)
    (P := fun c names d => ∀ p : Node, b.Reaches AnyFailure (p.spellingAs Node.isPattern) c → b.Holds p c →
      b.Holds (names.foldl (.patAlias b.current.anchor) p) d)
    (fun c hc => ?_) hp.ended).mono fun names d h => h p hp hholds
  simp only [ensures_bind, ensures_acceptsWord, ensures_ite, ensures_pure, if_true, Bool.false_eq_true, if_false]
  split
  · next has =>
    have h := (Cursor.Reaches.start hc).advanceWord has.1 has.2 (by decide)
    refine (expect_behind h .name rfl).mono fun name d h => ⟨h.ended, .inl trivial, fun names e hnames p hp hholds => ?_⟩
    rw [one_mul] at h
    have hspelled : b.Reaches AnyFailure ((Node.patAlias b.current.anchor p name.text).spellingAs Node.isPattern) d := by
      refine (hp.trans h).le ((spelling_aliased b.current.anchor [name.text] p).trans_eq' ?_)
      simp
    exact hnames _ hspelled (Cursor.Starts.holds ⟨rfl, rfl, hholds.gathers.over h⟩ hspelled)
  · exact fun p _ hholds => hholds

theorem patternWithin_holdsWithin (depth : Nat) : (patternWithin depth).HoldsWithin depth := by
  induction depth with
  | zero => exact fun c _ hn => absurd hn (Nat.not_lt_zero _)
  | succ depth ih => exact patternWith_holdsWithin (patternWithin_readsWithin depth) ih

/-- A pattern is read over its own tokens. -/
theorem pattern_holds (hc : c.Ended AnyFailure) : pattern.Ensures AnyFailure c c.Holds := by
  rw [pattern, ensures_bind, ensures_cursor]
  exact patternWithin_holdsWithin c.reach c hc (by simp only [Cursor.reach]; omega)

theorem pattern_behind {nodes : List Node} (h : c.Gathers nodes d) :
    pattern.Ensures AnyFailure d fun p e => c.Gathers (nodes ++ [p]) e :=
  (pattern_holds h.ended).mono fun _ _ hp => h.trans hp.gathers

/-! ### Parameters -/

theorem parameter_holds (hc : c.Ended AnyFailure) : parameter.Ensures AnyFailure c c.Holds := by
  refine (parameter_reads hc).holds ?_
  rw [parameter, ensures_bind]
  refine ensures_expect Tolerant.fault fun hmet => ?_
  obtain ⟨h, -, -⟩ := hc.advance hmet.1 (by decide)
  simp only [name?, ensures_bind, ensures_sees, ensures_ite, ensures_advance, ensures_pure]
  split
  · next hname =>
    have hpast := (Cursor.Reaches.start h.ended).advance (Token.is_none_iff.mp hname) (by decide)
    exact ((ascriptionBehind_reads hpast.ended (by decide) _).over (h.over hpast)).mono fun _ d h => ⟨rfl, rfl, h⟩
  · exact ((ascriptionBehind_reads h.ended (by decide) _).over h).mono fun _ d h => ⟨rfl, rfl, h⟩

theorem parameters_gathersWithin (n : Nat) : (commaList parameter .rightParen).GathersWithin n id :=
  commaList_gathersWithin (HoldsWithin.gathersWithin fun _ hc _ => parameter_holds hc) .rightParen

/-! ### Statements -/

variable {expression : Reading Node}

theorem assignment_starts (hexpression : expression.HoldsWithin n) (hc : c.Ended AnyFailure)
    (hn : c.after.length < n + 1) (hk : c.current.kind = .keyword) :
    (assignment expression).Ensures AnyFailure c c.Starts := by
  obtain ⟨h, -, hlt⟩ := hc.advance hk (by decide)
  simp only [assignment, ensures_traced, ensures_bind, ensures_advance, ensures_pure]
  refine (acceptsWord_reads h.ended .keyword (by decide) "assert").mono fun asserted d hd => ?_
  refine (pattern_behind (.over (.start h.ended) hd)).mono fun pattern d hd => ?_
  refine ((ascriptionBehind_reads hd.ended (by decide) _).over hd).mono fun text d hd => ?_
  refine (expect_over hd _).mono fun _ d hd => ?_
  have hle := hd.length_le
  refine (hexpression.behind hd (by omega)).mono fun value d hd => ?_
  exact ⟨rfl, rfl, h.trans hd⟩

theorem usePattern_gathersWithin (n : Nat) : usePattern.GathersWithin n fun p => [p] := by
  intro c hc _
  simp only [usePattern, ensures_bind, ensures_pure]
  refine (pattern_behind (.start hc)).mono fun pattern d h => ?_
  exact (ascriptionBehind_reads h.ended (by decide) _).over h

theorem use_starts (hexpression : expression.HoldsWithin n) (hc : c.Ended AnyFailure) (hn : c.after.length < n + 1)
    (hk : c.current.kind = .keyword) : (use expression).Ensures AnyFailure c c.Starts := by
  obtain ⟨h, -, hlt⟩ := hc.advance hk (by decide)
  simp only [use, ensures_traced, ensures_bind, ensures_advance, ensures_pure]
  have hpatterns := commaList_gathersWithin (usePattern_gathersWithin n) .leftArrow
  refine (hpatterns c.advance h.ended (by omega)).mono fun patterns d hd => ?_
  refine (expect_over hd _).mono fun _ d hd => ?_
  have hle := hd.length_le
  refine (hexpression.behind hd (by omega)).mono fun function d hd => ?_
  exact ⟨rfl, rfl, h.trans hd⟩

theorem statement_holdsWithin (hreads : expression.ReadsWithin AnyFailure n (Node.spellingAs Node.isExpression))
    (hexpression : expression.HoldsWithin n) : (statement expression).HoldsWithin n := by
  intro c hc hn
  refine (statement_readsWithin hreads c hc hn).holds ?_
  simp only [statement, ensures_bind, ensures_current, ensures_ite, ensures_pure]
  split
  · next hlet => exact assignment_starts hexpression hc (by omega) (Token.is_some_iff.mp hlet).1
  · split
    · next huse => exact use_starts hexpression hc (by omega) (Token.is_some_iff.mp huse).1
    · exact (hexpression c hc hn).mono fun value d h => ⟨rfl, rfl, h.gathers⟩

theorem block_gathersWithin (hreads : expression.ReadsWithin AnyFailure n (Node.spellingAs Node.isExpression))
    (hexpression : expression.HoldsWithin n) : (block expression).GathersWithin (n + 1) id := by
  intro c hc hn
  simp only [block, ensures_traced, ensures_bind, ensures_pure]
  refine ensures_expect Tolerant.fault fun hmet => ?_
  obtain ⟨h, -, hlt⟩ := hc.advance hmet.1 (by decide)
  have hstatements := upToBrace_gathersWithin (statement_holdsWithin hreads hexpression) .blockUnfinished
  refine (hstatements.behind h (by omega)).mono fun statements d h => ?_
  exact expect_over h _

end ScopeLint.Grammar
