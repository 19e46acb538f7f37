import ScopeLint.Proofs.Grammar.PatternAnchoring

/-!
# Places of expressions

The rules for expressions hold the nodes that they answer with (`expression_holds`).  Most expressions stand where the
rule has started.  A call, the access to a field and an operation are made around an operand that has been read
already: they take over its tokens and stand at the token behind them.
-/

namespace ScopeLint.Grammar

open Spelling Reading

variable {b c d : Cursor} {n : Nat} {expression : Reading Node}

/-! ### Parts of expressions -/

theorem argument_holdsWithin (hreads : expression.ReadsWithin AnyFailure n (Node.spellingAs Node.isExpression))
    (hexpression : expression.HoldsWithin n) : (argument expression).HoldsWithin n := by
  intro c hc hn
  refine (argument_readsWithin hreads c hc hn).holds ?_
  simp only [argument, ensures_bind, ensures_current, ensures_pure]
  refine ((label?_reads hc).over (.start hc)).mono fun label d h => ?_
  refine (hexpression.behind h (Nat.lt_of_le_of_lt h.length_le hn)).mono fun value d h => ?_
  exact ⟨rfl, rfl, h⟩

theorem message_gathers (hexpression : expression.HoldsWithin n) (hc : c.Ended AnyFailure)
    (hn : c.after.length < n + 1) (hk : c.current.kind = .keyword) :
    (message expression).Ensures AnyFailure c fun m d => c.Gathers m.toList d := by
  obtain ⟨h, -, hlt⟩ := hc.advance hk (by decide)
  rw [message, ensures_bind, ensures_advance]
  exact (behindWord_gathersWithin hexpression "as").behind h (by omega)

theorem clausePatterns_gathersWithin (n : Nat) : clausePatterns.GathersWithin n id := by
  intro c hc hn
  have hpattern : pattern.HoldsWithin n := fun _ hc _ => pattern_holds hc
  refine (separated_gathersWithin .comma (by decide) hpattern.gathersWithin c hc hn).mono fun row d h => ?_
  simpa only [List.flatMap_singleton', id] using h

theorem clause_holdsWithin (hreads : expression.ReadsWithin AnyFailure n (Node.spellingAs Node.isExpression))
    (hexpression : expression.HoldsWithin n) : (clause expression).HoldsWithin n := by
  intro c hc hn
  refine (clause_readsWithin hreads c hc hn).holds ?_
  simp only [clause, ensures_bind, ensures_current, ensures_pure]
  refine (separated_gathersWithin .bar (by decide) (clausePatterns_gathersWithin n) c hc hn).mono
    fun rows d h => ?_
  simp only [List.flatMap_id] at h
  refine ((behindWord_gathersWithin hexpression "if").behind h (Nat.lt_of_le_of_lt h.length_le hn)).mono
    fun guard d h => ?_
  refine (expect_over h _).mono fun _ d h => ?_
  refine (hexpression.behind h (Nat.lt_of_le_of_lt h.length_le hn)).mono fun body d h => ?_
  exact ⟨rfl, rfl, h⟩

/-! ### Primary expressions -/

theorem tuple_starts (hexpression : expression.HoldsWithin n) (hc : c.Ended AnyFailure) (hn : c.after.length < n + 1)
    (hk : c.current.kind = .hash) : (tuple expression).Ensures AnyFailure c c.Starts := by
  obtain ⟨h, -, hlt⟩ := hc.advance hk (by decide)
  simp only [tuple, ensures_bind, ensures_advance, ensures_pure]
  refine (expect_over (.start h.ended) _).mono fun _ d hd => ?_
  have hle := hd.length_le
  refine ((commaList_gathersWithin hexpression.gathersWithin .rightParen).behind hd (by omega)).mono
    fun elements d hd => ?_
  refine (expect_over hd _).mono fun _ d hd => ?_
  exact ⟨rfl, rfl, h.trans hd⟩

theorem list_starts (hexpression : expression.HoldsWithin n) (hc : c.Ended AnyFailure) (hn : c.after.length < n + 1)
    (hk : c.current.kind = .leftBracket) : (list expression).Ensures AnyFailure c c.Starts := by
  obtain ⟨h, -, hlt⟩ := hc.advance hk (by decide)
  simp only [list, ensures_bind, ensures_advance, ensures_pure]
  have hentries : (entries expression fun _ => expression).GathersWithin n Entry.nodes := by
    refine entries_gathersWithin hexpression fun c hc hk hn => ?_
    obtain ⟨h, -, hlt⟩ := hc.advance hk (by decide)
    exact hexpression.behind h (by omega)
  refine (hentries.behind h (by omega)).mono fun es d h => ?_
  refine (expect_over h _).mono fun _ d h => ?_
  exact ⟨rfl, rfl, h⟩

theorem lambda_starts (hreads : expression.ReadsWithin AnyFailure n (Node.spellingAs Node.isExpression))
    (hexpression : expression.HoldsWithin n) (hc : c.Ended AnyFailure) (hn : c.after.length < n + 1)
    (hk : c.current.kind = .keyword) : (lambda expression).Ensures AnyFailure c c.Starts := by
  obtain ⟨h, -, hlt⟩ := hc.advance hk (by decide)
  simp only [lambda, ensures_bind, ensures_advance, ensures_pure]
  refine (expect_over h _).mono fun _ d h => ?_
  refine ((parameters_gathersWithin _).behind h (Nat.lt_succ_self _)).mono fun parameters d h => ?_
  refine (expect_over h _).mono fun _ d h => ?_
  refine ((ascriptionBehind_reads h.ended (by decide) _).over h).mono fun _ d h => ?_
  have hle := h.length_le
  refine ((block_gathersWithin hreads hexpression).behind h (by omega)).mono fun body d h => ?_
  exact ⟨rfl, rfl, h⟩

theorem choice_starts (hreads : expression.ReadsWithin AnyFailure n (Node.spellingAs Node.isExpression))
    (hexpression : expression.HoldsWithin n) (hc : c.Ended AnyFailure) (hn : c.after.length < n + 1)
    (hk : c.current.kind = .keyword) : (choice expression).Ensures AnyFailure c c.Starts := by
  obtain ⟨h, -, hlt⟩ := hc.advance hk (by decide)
  simp only [choice, ensures_traced, ensures_bind, ensures_advance]
  have hsubjects := separated_gathersWithin .comma (by decide) hexpression.gathersWithin
  refine (hsubjects c.advance h.ended (by omega)).mono fun subjects d hd => ?_
  simp only [List.flatMap_singleton'] at hd
  refine (expect_over hd _).mono fun _ d hd => ?_
  have hle := hd.length_le
  have hclauses := upToBrace_gathersWithin (clause_holdsWithin hreads hexpression) .clausesUnfinished
  refine (hclauses.behind hd (by omega)).mono fun clauses d hd => ?_
  refine (expect_over hd _).mono fun _ d hd => ?_
  rw [ensures_ite]
  split
  · trivial
  · exact ⟨rfl, rfl, h.trans hd⟩

theorem keywordExpression_starts (hreads : expression.ReadsWithin AnyFailure n (Node.spellingAs Node.isExpression))
    (hexpression : expression.HoldsWithin n) (hc : c.Ended AnyFailure) (hn : c.after.length < n + 1)
    (hk : c.current.kind = .keyword) : (keywordExpression expression).Ensures AnyFailure c c.Starts := by
  rw [keywordExpression, ensures_bind, ensures_current]
  split
  case h_1 => exact lambda_starts hreads hexpression hc hn hk
  case h_2 => exact choice_starts hreads hexpression hc hn hk
  case h_3 =>
    simp only [ensures_bind, ensures_pure]
    exact (message_gathers hexpression hc hn hk).mono fun m d h => ⟨rfl, rfl, h⟩
  case h_4 =>
    simp only [ensures_bind, ensures_pure]
    exact (message_gathers hexpression hc hn hk).mono fun m d h => ⟨rfl, rfl, h⟩
  case h_5 => trivial

theorem primary_starts (hreads : expression.ReadsWithin AnyFailure n (Node.spellingAs Node.isExpression))
    (hexpression : expression.HoldsWithin n) (hc : c.Ended AnyFailure) (hn : c.after.length < n + 1) :
    (primary expression).Ensures AnyFailure c c.Starts := by
  -- A literal or a name has no parts.
  have hword : ∀ {kind : TokenKind}, c.current.kind = kind → kind ≠ .endOfInput → c.Gathers [] c.advance :=
    fun hk hne => (hc.advance hk hne).1
  simp only [primary, ensures_traced, ensures_bind, ensures_current]
  split
  case h_1 hk => exact ⟨rfl, rfl, hword hk (by decide)⟩
  case h_2 hk => exact ⟨rfl, rfl, hword hk (by decide)⟩
  case h_3 hk => exact ⟨rfl, rfl, hword hk (by decide)⟩
  case h_4 hk => exact ⟨rfl, rfl, hword hk (by decide)⟩
  case h_5 hk => exact ⟨rfl, rfl, hword hk (by decide)⟩
  case h_6 hk => exact tuple_starts hexpression hc hn hk
  case h_7 hk => exact list_starts hexpression hc hn hk
  case h_8 hk =>
    simp only [ensures_bind, ensures_pure]
    exact (block_gathersWithin hreads hexpression c hc hn).mono fun statements d h => ⟨rfl, rfl, h⟩
  case h_9 hk => exact keywordExpression_starts hreads hexpression hc hn hk
  case h_10 => trivial
  case h_11 => trivial
  case h_12 => trivial

/-! ### What stands behind an operand -/

/-- What stands behind an operand starts at a cursor, where the node stands that it makes of the operand. -/
def Suffix.StartsAt (c d : Cursor) : Suffix → Prop
  | call anchor arguments => c.current.kind = .leftParen ∧ anchor = c.current.anchor ∧ c.advance.Gathers arguments d
  | field anchor _ => c.current.kind = .dot ∧ anchor = c.current.anchor ∧ c.advance.Gathers [] d

theorem suffix_startsAt (hreads : expression.ReadsWithin AnyFailure n (Node.spellingAs Node.isExpression))
    (hexpression : expression.HoldsWithin n) (hc : c.Ended AnyFailure) (hn : c.after.length < n + 1) :
    (suffix expression).Ensures AnyFailure c fun r d =>
      match r with
      | .stop => d = c
      | .last s | .more s => s.StartsAt c d := by
  simp only [suffix, ensures_bind, ensures_current, ensures_ite, ensures_accepts, ensures_pure, if_true,
    Bool.false_eq_true, if_false]
  split
  · next hparen =>
    obtain ⟨h, -, hlt⟩ := hc.advance hparen (by decide)
    have harguments := commaList_gathersWithin (argument_holdsWithin hreads hexpression).gathersWithin .rightParen
    refine (harguments c.advance h.ended (by omega)).mono fun arguments d hd => ?_
    exact (expect_over hd _).mono fun _ d hd => ⟨hparen, rfl, hd⟩
  · split
    · next hdot =>
      obtain ⟨h, -, -⟩ := hc.advance hdot (by decide)
      exact ((fieldLabel_reads h.ended).over (.start h.ended)).mono fun label d hd => ⟨hdot, rfl, hd⟩
    · trivial

/-- An operand with something behind it is read over the tokens of both. -/
theorem Suffix.StartsAt.holds {s : Suffix} {operand : Node} (hstarts : s.StartsAt c d) (hc : c.Ended AnyFailure)
    (hs : c.Reaches AnyFailure s.spelling d)
    (hoperand : b.Reaches AnyFailure (operand.spellingAs (Node.isOperand 10)) c) (hholds : b.Holds operand c) :
    b.Reaches AnyFailure ((s.applyTo operand).spellingAs (Node.isOperand 10)) d ∧ b.Holds (s.applyTo operand) d := by
  have hspelled := (hoperand.trans hs).le (s.spelling_applyTo operand)
  refine ⟨hspelled, ?_⟩
  cases s with
  | call anchor arguments =>
    obtain ⟨hk, rfl, harguments⟩ := hstarts
    exact hholds.call (hc.advance hk (by decide)).2.1 hk harguments hspelled
  | field anchor label =>
    obtain ⟨hk, rfl, hlabel⟩ := hstarts
    exact hholds.field (hc.advance hk (by decide)).2.1 hk hlabel hspelled

theorem suffixes_holds (hreads : expression.ReadsWithin AnyFailure n (Node.spellingAs Node.isExpression))
    (hexpression : expression.HoldsWithin n) (hc : c.Ended AnyFailure) (hn : c.after.length < n + 1) :
    (collect (suffix expression)).Ensures AnyFailure c fun suffixes d =>
      ∀ operand : Node, b.Reaches AnyFailure (operand.spellingAs (Node.isOperand 10)) c → b.Holds operand c →
        b.Holds (suffixes.foldl Suffix.applyTo operand) d := by
  refine ensures_collect
    (P := fun c suffixes d => ∀ operand : Node, b.Reaches AnyFailure (operand.spellingAs (Node.isOperand 10)) c →
      b.Holds operand c → b.Holds (suffixes.foldl Suffix.applyTo operand) d)
    (I := fun c => c.Ended AnyFailure ∧ c.after.length < n + 1) (fun c ⟨hc, hn⟩ => ?_) ⟨hc, hn⟩
  refine ((suffix_reads hreads hc hn).and (suffix_startsAt hreads hexpression hc hn)).mono fun r d ⟨hs, hstarts⟩ => ?_
  cases r with
  | stop =>
    obtain rfl : d = c := hstarts
    exact fun operand _ hholds => hholds
  | last s => exact fun operand hoperand hholds => (hstarts.holds hc hs hoperand hholds).2
  | more s =>
    refine ⟨⟨hs.ended, Nat.lt_of_le_of_lt hs.length_le hn⟩, .inl trivial, fun suffixes e hrest operand hoperand hholds => ?_⟩
    obtain ⟨hspelled, hholds⟩ := hstarts.holds hc hs hoperand hholds
    exact hrest _ hspelled hholds

/-! ### Signs and operands -/

/-- Signs stand before their operand, each where it is written. -/
theorem signs_hold (hc : c.Ended AnyFailure) :
    (collect sign).Ensures AnyFailure c fun signs d => c.Gathers [] d ∧
      ∀ (inner : Node) (e : Cursor), d.Reaches AnyFailure (inner.spellingAs (Node.isOperand 9)) e → d.Holds inner e →
        c.Reaches AnyFailure ((signs.foldr (fun sign node => sign node) inner).spellingAs (Node.isOperand 9)) e ∧
          c.Holds (signs.foldr (fun sign node => sign node) inner) e := by
  refine ensures_collect
    (P := fun c (signs : List (Node → Node)) d => c.Gathers [] d ∧
      ∀ (inner : Node) (e : Cursor), d.Reaches AnyFailure (inner.spellingAs (Node.isOperand 9)) e → d.Holds inner e →
        c.Reaches AnyFailure ((signs.foldr (fun sign node => sign node) inner).spellingAs (Node.isOperand 9)) e ∧
          c.Holds (signs.foldr (fun sign node => sign node) inner) e)
    (I := fun c => c.Ended AnyFailure) (fun c hc => ?_) hc
  -- One sign before an operand with the other signs.
  have hsign : ∀ {mark : Language Word} {f : Node → Node}, c.Reaches AnyFailure mark c.advance →
      (∀ inner : Node, (f inner).spellingAs (Node.isOperand 9) = mark * inner.spellingAs (Node.isOperand 9)) →
      (∀ inner : Node, (f inner).standsInside = false ∧ (f inner).anchor = c.current.anchor ∧
        (f inner).children = [inner]) →
      ∀ (inner : Node) (e : Cursor), c.advance.Reaches AnyFailure (inner.spellingAs (Node.isOperand 9)) e →
        c.advance.Holds inner e →
          c.Reaches AnyFailure ((f inner).spellingAs (Node.isOperand 9)) e ∧ c.Holds (f inner) e := by
    intro mark f hmark hspelling hstands inner e hinner hholds
    obtain ⟨houtside, hanchored, hchildren⟩ := hstands inner
    have hspelled := hmark.trans hinner
    rw [← hspelling] at hspelled
    refine ⟨hspelled, Cursor.Starts.holds ⟨houtside, hanchored, ?_⟩ hspelled⟩
    rw [hchildren]
    exact hmark.gathers.trans hholds.gathers
  simp only [sign, ensures_bind, ensures_current, ensures_ite, ensures_acceptsWord, ensures_accepts, ensures_pure,
    if_true, Bool.false_eq_true, if_false]
  split
  · next hminus =>
    have h := (Cursor.Reaches.start hc).advanceWord hminus.1 hminus.2 (by decide)
    rw [one_mul] at h
    refine ⟨h.ended, .inl trivial, fun signs e hsigns => ⟨h.gathers.trans hsigns.1, fun inner f hinner hholds => ?_⟩⟩
    obtain ⟨hspelled, hholds⟩ := hsigns.2 inner f hinner hholds
    refine hsign (f := .minus c.current.anchor) h (fun inner => ?_) (fun inner => ⟨rfl, rfl, rfl⟩) _ f hspelled hholds
    simp only [Node.spellingAs, Node.spelling, Node.isOperand, Node.tightness, provided, le_refl, decide_true, if_true]
  · split
    · next hbang =>
      have h := (Cursor.Reaches.start hc).advanceAny hbang (by decide)
      rw [one_mul] at h
      refine ⟨h.ended, .inl trivial, fun signs e hsigns =>
        ⟨h.gathers.trans hsigns.1, fun inner f hinner hholds => ?_⟩⟩
      obtain ⟨hspelled, hholds⟩ := hsigns.2 inner f hinner hholds
      refine hsign (f := .not c.current.anchor) h (fun inner => ?_) (fun inner => ⟨rfl, rfl, rfl⟩) _ f hspelled hholds
      simp only [Node.spellingAs, Node.spelling, Node.isOperand, Node.tightness, provided, le_refl, decide_true,
        if_true]
    · exact ⟨.start hc, fun inner e hinner hholds => ⟨hinner, hholds⟩⟩

theorem operand_holdsWithin (hreads : expression.ReadsWithin AnyFailure n (Node.spellingAs Node.isExpression))
    (hexpression : expression.HoldsWithin n) : (operand expression).HoldsWithin (n + 1) := by
  intro b hb hn
  simp only [operand, ensures_bind, ensures_pure]
  refine (signs_hold hb).mono fun signs c ⟨hgap, hsigns⟩ => ?_
  have hlt := Nat.lt_of_le_of_lt hgap.length_le hn
  have hprimary := primary_readsWithin hreads c hgap.ended hlt
  refine (hprimary.and (hprimary.holds (primary_starts hreads hexpression hgap.ended hlt))).mono
    fun inner d ⟨hinner, hholds⟩ => ?_
  have hlt := Nat.lt_of_le_of_lt hinner.length_le hlt
  refine ((suffixes_readsWithin hreads d hinner.ended hlt).and
    (suffixes_holds (b := c) hreads hexpression hinner.ended hlt)).mono fun suffixes e ⟨hspelled, hsuffixes⟩ => ?_
  refine (hsigns _ e ?_ (hsuffixes inner hinner hholds)).2
  exact ((hinner.trans hspelled).le (spelling_suffixed suffixes inner)).le (spellingAs_isOperand_le _ (by decide))

/-! ### Operators -/

/-- The operations behind an operand take over the tokens of what stands left of them. -/
theorem operations_hold {inner : Int → Reading Node} (hclimbs : ClimbsWithin AnyFailure n inner)
    (hinner : ∀ least, (inner least).HoldsWithin n) {least : Int} (hc : c.Ended AnyFailure)
    (hn : c.after.length < n + 1) :
    (collect (operation inner least)).Ensures AnyFailure c fun operations d =>
      ∀ first : Node, b.Reaches AnyFailure first.spelling c → MayStandLeft least first c → b.Holds first c →
        b.Holds (operationsApplied first operations) d := by
  refine ensures_collect
    (P := fun c operations d => ∀ first : Node, b.Reaches AnyFailure first.spelling c → MayStandLeft least first c →
      b.Holds first c → b.Holds (operationsApplied first operations) d)
    (I := fun c => c.Ended AnyFailure ∧ c.after.length < n + 1) (fun c ⟨hc, hn⟩ => ?_) ⟨hc, hn⟩
  rw [operation, ensures_bind, ensures_current]
  split
  case h_2 => exact fun first _ _ hholds => hholds
  case h_1 tightness hsome =>
    have hk : c.current.kind = .operator := by
      by_contra hk
      rw [if_neg hk] at hsome
      cases hsome
    rw [if_pos hk] at hsome
    rw [ensures_ite]
    split
    · exact fun first _ _ hholds => hholds
    · next htight =>
      simp only [ensures_bind, ensures_advance, ensures_pure]
      obtain ⟨h, hahead, hlt⟩ := hc.advance hk (by decide)
      refine ((hclimbs _ _ h.ended (by omega)).and (hinner _ _ h.ended (by omega))).mono
        fun right d hread => ?_
      obtain ⟨⟨hright, hstop⟩, hholds⟩ := hread
      refine ⟨⟨hright.ended, by have := hright.length_le; omega⟩, .inl trivial, ?_⟩
      intro operations e hoperations first hfirst hleft hheld
      have hspelled := spelled_binary hfirst hleft hk hsome (by omega) hright
      exact hoperations _ hspelled (.binary hsome (by omega) hstop _ _ _) (hheld.binary hahead hk hholds hspelled)

/-- One more level of depth holds expressions that are one level deeper. -/
theorem expressionWith_holdsWithin {inner : Int → Reading Node} (hclimbs : ClimbsWithin AnyFailure n inner)
    (hinner : ∀ least, (inner least).HoldsWithin n) (least : Int) :
    (expressionWith inner least).HoldsWithin (n + 1) := by
  intro c hc hn
  simp only [expressionWith, ensures_bind, ensures_pure]
  have hreads := hclimbs.readsWithin
  refine ((operand_readsWithin hreads c hc hn).and (operand_holdsWithin hreads (hinner loosest) c hc hn)).mono
    fun first d ⟨hfirst, hholds⟩ => ?_
  have hfits := hfirst.fits
  rw [Node.spellingAs_of_fits hfits] at hfirst
  refine (operations_hold (b := c) hclimbs hinner hfirst.ended (Nat.lt_of_le_of_lt hfirst.length_le hn)).mono
    fun operations e hoperations => ?_
  exact hoperations first hfirst (.of_isOperand hfits d) hholds

theorem expressionWithin_holdsWithin (depth : Nat) (least : Int) : (expressionWithin depth least).HoldsWithin depth := by
  induction depth generalizing least with
  | zero => exact fun c _ hn => absurd hn (Nat.not_lt_zero _)
  | succ depth ih => exact expressionWith_holdsWithin (expressionWithin_climbsWithin depth) ih least

/-- An expression is read over its own tokens. -/
theorem expression_holds (hc : c.Ended AnyFailure) : Grammar.expression.Ensures AnyFailure c c.Holds := by
  rw [Grammar.expression, expressionFrom, ensures_bind, ensures_cursor]
  exact expressionWithin_holdsWithin c.reach loosest c hc (by simp only [Cursor.reach]; omega)

end ScopeLint.Grammar
