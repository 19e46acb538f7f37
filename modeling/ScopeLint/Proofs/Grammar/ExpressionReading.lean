import ScopeLint.Proofs.Grammar.StatementReading

/-!
# Reading expressions

The rules for expressions read the spellings of their answers (`expressionFrom_reads`).  What is told about tightness
is kept on the way: an expression that is read with a least tightness holds together that tightly, and stands before
no operator that is tight enough to belong to it (`ClimbsWithin`).  The second is why the left operand of a further
operator holds together tightly enough.
-/

namespace ScopeLint.Grammar

open Spelling Reading

variable {allowed : ReadFailure → Prop} {c d : Cursor} {l : Language Word} {n : Nat} {expression : Reading Node}

/-! ### Arguments and messages -/

theorem argument_readsWithin (hexpression : expression.ReadsWithin allowed n (Node.spellingAs Node.isExpression)) :
    (argument expression).ReadsWithin allowed n (Node.spellingAs Node.isArgument) := by
  intro c hc hn
  simp only [Reads, argument, ensures_bind, ensures_current, ensures_pure]
  refine (label?_reads hc).mono fun label d h => ?_
  refine (hexpression.behind h (Nat.lt_of_le_of_lt h.length_le hn)).mono fun value d h => ?_
  simpa only [Node.spellingAs, Node.isArgument, provided, if_true, Node.spelling] using h

theorem message_readsWithin (hexpression : expression.ReadsWithin allowed n (Node.spellingAs Node.isExpression))
    (hc : c.Ended allowed) (hn : c.after.length < n + 1) (hk : c.current.kind = .keyword) {word : String}
    (hv : c.current.value = some word) :
    (message expression).Reads allowed
      (fun m => only .keyword word * behindWord "as" (m.map (Node.spellingAs Node.isExpression))) c := by
  have h := (Cursor.Reaches.start hc).advanceWord hk hv (by decide)
  rw [one_mul] at h
  have hlt := h.lt (by simp)
  rw [Reads, message, ensures_bind, ensures_advance]
  exact (behindWord_readsWithin hexpression "as").behind h (by omega)

/-! ### What stands behind an operand -/

variable [Tolerant allowed]

/-- The spellings of what stands behind an operand. -/
def Suffix.spelling : Suffix → Language Word
  | call _ arguments => anyOf .leftParen * commaList (arguments.map (Node.spellingAs Node.isArgument)) * anyOf .rightParen
  | field _ label => anyOf .dot * (eitherName label + only .integer label)

theorem Suffix.nil_notMem_spelling (suffix : Suffix) : [] ∉ suffix.spelling := by
  cases suffix <;> simp [Suffix.spelling]

theorem Suffix.spelling_applyTo (operand : Node) (suffix : Suffix) :
    operand.spellingAs (Node.isOperand 10) * suffix.spelling ≤
      (suffix.applyTo operand).spellingAs (Node.isOperand 10) := by
  cases suffix <;>
    simp only [Suffix.spelling, Suffix.applyTo, Node.spellingAs, Node.spelling, Node.isOperand, Node.tightness,
      spellings_eq_map, provided, decide_true, le_refl, if_true, mul_assoc]

theorem fieldLabel_reads (hc : c.Ended allowed) :
    fieldLabel.Reads allowed (fun label => eitherName label + only .integer label) c := by
  rw [Reads, fieldLabel, ensures_bind, ensures_current]
  split
  case h_1 hk =>
    have h := (Cursor.Reaches.start hc).advance hk (by decide)
    rw [one_mul] at h
    simp only [ensures_bind, ensures_advance, ensures_pure]
    exact h.le (le_self_add.trans le_self_add)
  case h_2 hk =>
    have h := (Cursor.Reaches.start hc).advance hk (by decide)
    rw [one_mul] at h
    simp only [ensures_bind, ensures_advance, ensures_pure]
    exact h.le (le_add_self.trans le_self_add)
  case h_3 hk =>
    have h := (Cursor.Reaches.start hc).advance hk (by decide)
    rw [one_mul] at h
    simp only [ensures_bind, ensures_advance, ensures_pure]
    exact h.le le_add_self
  case h_4 => exact Tolerant.fault _

/-- A call or a field behind an operand, if there is one. -/
theorem suffix_reads (hexpression : expression.ReadsWithin allowed n (Node.spellingAs Node.isExpression))
    (hc : c.Ended allowed) (hn : c.after.length < n + 1) :
    (suffix expression).Ensures allowed c fun r d =>
      match r with
      | .stop => c.Reaches allowed 1 d
      | .last s | .more s => c.Reaches allowed s.spelling d := by
  simp only [suffix, ensures_bind, ensures_current, ensures_ite, ensures_accepts, ensures_pure, if_true,
    Bool.false_eq_true, if_false]
  split
  · next hparen =>
    have h := (Cursor.Reaches.start hc).advanceAny hparen (by decide)
    rw [one_mul] at h
    have hlt := h.lt (by simp)
    refine ((commaList_readsWithin (argument_readsWithin hexpression) .rightParen).behind h (by omega)).mono
      fun arguments d h => ?_
    exact expectAny_behind h .rightParen rfl
  · split
    · next hdot =>
      have h := (Cursor.Reaches.start hc).advanceAny hdot (by decide)
      rw [one_mul] at h
      exact (fieldLabel_reads h.ended).behind h
    · exact .start hc

theorem suffixes_readsWithin (hexpression : expression.ReadsWithin allowed n (Node.spellingAs Node.isExpression)) :
    (collect (suffix expression)).ReadsWithin allowed (n + 1) fun suffixes =>
      (suffixes.map Suffix.spelling).prod := by
  intro c hc hn
  refine ensures_collect (P := fun c suffixes d => c.Reaches allowed (suffixes.map Suffix.spelling).prod d)
    (I := fun c => c.Ended allowed ∧ c.after.length < n + 1) (fun c ⟨hc, hn⟩ => ?_) ⟨hc, hn⟩
  refine (suffix_reads hexpression hc hn).mono fun r d h => ?_
  cases r with
  | stop => exact h
  | last s => simpa only [List.map_singleton, List.prod_singleton] using h
  | more s =>
    refine ⟨⟨h.ended, Nat.lt_of_le_of_lt h.length_le hn⟩, .inr (h.lt s.nil_notMem_spelling), fun suffixes e hes => ?_⟩
    rw [List.map_cons, List.prod_cons]
    exact h.trans hes

/-- What stands behind an operand belongs to it, from left to right. -/
theorem spelling_suffixed (suffixes : List Suffix) (operand : Node) :
    operand.spellingAs (Node.isOperand 10) * (suffixes.map Suffix.spelling).prod ≤
      (suffixes.foldl Suffix.applyTo operand).spellingAs (Node.isOperand 10) := by
  induction suffixes generalizing operand with
  | nil => simp only [List.map_nil, List.prod_nil, mul_one, List.foldl_nil, le_refl]
  | cons suffix suffixes ih =>
    rw [List.map_cons, List.prod_cons, ← mul_assoc, List.foldl_cons]
    exact (mul_le_mul_left (suffix.spelling_applyTo operand) _).trans (ih _)

/-! ### Primary expressions -/

theorem tuple_reads (hexpression : expression.ReadsWithin allowed n (Node.spellingAs Node.isExpression))
    (hc : c.Ended allowed) (hn : c.after.length < n + 1) (hk : c.current.kind = .hash) :
    (tuple expression).Reads allowed (Node.spellingAs (Node.isOperand 10)) c := by
  have h := (Cursor.Reaches.start hc).advanceAny hk (by decide)
  rw [one_mul] at h
  simp only [Reads, tuple, ensures_bind, ensures_advance, ensures_pure]
  refine (expectAny_behind h .leftParen rfl).mono fun _ d h => ?_
  have hlt := h.lt (by simp)
  refine ((commaList_readsWithin hexpression .rightParen).behind h (by omega)).mono fun elements d h => ?_
  refine (expectAny_behind h .rightParen rfl).mono fun _ d h => ?_
  simpa only [Node.spellingAs, Node.isOperand, Node.tightness, provided, Node.spelling, spellings_eq_map, le_refl,
    decide_true, if_true] using h

theorem list_reads (hexpression : expression.ReadsWithin allowed n (Node.spellingAs Node.isExpression))
    (hc : c.Ended allowed) (hn : c.after.length < n + 1) (hk : c.current.kind = .leftBracket) :
    (list expression).Reads allowed (Node.spellingAs (Node.isOperand 10)) c := by
  have h := (Cursor.Reaches.start hc).advanceAny hk (by decide)
  rw [one_mul] at h
  simp only [Reads, list, ensures_bind, ensures_advance, ensures_pure]
  have hlt := h.lt (by simp)
  refine ((entries_readsWithin hexpression fun _ => hexpression).behind h (by omega)).mono fun es d h => ?_
  refine (expectAny_behind h .rightBracket rfl).mono fun _ d h => ?_
  simpa only [Node.spellingAs, Node.isOperand, Node.tightness, provided, Node.spelling, spellings_eq_map,
    spellingOption_eq_map, le_refl, decide_true, if_true] using h

theorem lambda_reads (hexpression : expression.ReadsWithin allowed n (Node.spellingAs Node.isExpression))
    (hc : c.Ended allowed) (hn : c.after.length < n + 1) (hk : c.current.kind = .keyword)
    (hv : c.current.value = some "fn") :
    (lambda expression).Reads allowed (Node.spellingAs (Node.isOperand 10)) c := by
  have h := (Cursor.Reaches.start hc).advanceWord hk hv (by decide)
  rw [one_mul] at h
  simp only [Reads, lambda, ensures_bind, ensures_advance, ensures_pure]
  refine (expectAny_behind h .leftParen rfl).mono fun _ d h => ?_
  have hlt := h.lt (by simp)
  refine ((parameters_readsWithin n).behind h (by omega)).mono fun parameters d h => ?_
  refine (expectAny_behind h .rightParen rfl).mono fun _ d h => ?_
  refine ((ascriptionBehind_reads h.ended (by decide) _).behind h).mono fun text d h => ?_
  replace h := h.le (mul_le_mul_right (ascribed_le _ _ text) _)
  have hle := h.length_le
  refine ((block_readsWithin hexpression).behind h (by omega)).mono fun body d h => ?_
  simpa only [Node.spellingAs, Node.isOperand, Node.tightness, provided, Node.spelling, spellings_eq_map, le_refl,
    decide_true, if_true] using h

theorem clausePatterns_reads (hc : c.Ended allowed) :
    clausePatterns.Reads allowed
      (fun row => Spelling.separated (anyOf .comma) (row.map (Node.spellingAs Node.isPattern))) c :=
  separated_readsWithin (n := c.after.length + 1) (fun _ hc _ => pattern_reads hc)
    (fun _ hc => accepts_reads hc .comma (by decide)) (by simp) (fun _ hc _ => pattern_reads hc) c hc (Nat.lt_succ_self _)

theorem clause_readsWithin (hexpression : expression.ReadsWithin allowed n (Node.spellingAs Node.isExpression)) :
    (clause expression).ReadsWithin allowed n (Node.spellingAs Node.isClause) := by
  intro c hc hn
  simp only [Reads, clause, ensures_bind, ensures_current, ensures_pure]
  have hrow : clausePatterns.ReadsWithin allowed n _ := fun _ hc _ => clausePatterns_reads hc
  have hrows := separated_readsWithin hrow (fun _ hc => accepts_reads hc .bar (by decide)) (by simp) hrow
  refine (hrows c hc hn).mono fun rows d h => ?_
  have hle := h.length_le
  refine ((behindWord_readsWithin hexpression "if").behind h (by omega)).mono fun guard d h => ?_
  refine (expectAny_behind h .rightArrow rfl).mono fun _ d h => ?_
  have hle := h.length_le
  refine (hexpression.behind h (by omega)).mono fun body d h => ?_
  simpa only [Node.spellingAs, Node.isClause, provided, if_true, Node.spelling, rowSpellings_eq_map,
    spellingOption_eq_map] using h

theorem choice_reads (hexpression : expression.ReadsWithin allowed n (Node.spellingAs Node.isExpression))
    (hc : c.Ended allowed) (hn : c.after.length < n + 1) (hk : c.current.kind = .keyword)
    (hv : c.current.value = some "case") :
    (choice expression).Reads allowed (Node.spellingAs (Node.isOperand 10)) c := by
  have h := (Cursor.Reaches.start hc).advanceWord hk hv (by decide)
  rw [one_mul] at h
  simp only [Reads, choice, ensures_traced, ensures_bind, ensures_advance]
  have hlt := h.lt (by simp)
  have hsubjects := separated_readsWithin hexpression (fun _ hc => accepts_reads hc .comma (by decide))
    (by simp) hexpression
  refine (hsubjects.behind h (by omega)).mono fun subjects d h => ?_
  refine (expectAny_behind h .leftBrace rfl).mono fun _ d h => ?_
  have hlt := h.lt (by simp)
  have hclauses := upToBrace_readsWithin (clause_readsWithin hexpression)
    (fun node => node.nil_notMem_spellingAs Node.isClause) .clausesUnfinished
  refine (hclauses.behind h (by omega)).mono fun clauses d h => ?_
  refine (expectAny_behind h .rightBrace rfl).mono fun _ d h => ?_
  rw [ensures_ite]
  split
  · exact Tolerant.fault _
  · next hempty =>
    simpa only [ensures_pure, Node.spellingAs, Node.isOperand, Node.tightness, provided, Node.spelling,
      spellings_eq_map, le_refl, decide_true, if_true, hempty, Bool.not_false] using h

theorem keywordExpression_reads (hexpression : expression.ReadsWithin allowed n (Node.spellingAs Node.isExpression))
    (hc : c.Ended allowed) (hn : c.after.length < n + 1) (hk : c.current.kind = .keyword) :
    (keywordExpression expression).Reads allowed (Node.spellingAs (Node.isOperand 10)) c := by
  rw [Reads, keywordExpression, ensures_bind, ensures_current]
  split
  case h_1 hv => exact lambda_reads hexpression hc hn hk hv
  case h_2 hv => exact choice_reads hexpression hc hn hk hv
  case h_3 hv =>
    simp only [ensures_bind, ensures_pure]
    refine (message_readsWithin hexpression hc hn hk hv).mono fun m d h => ?_
    simpa only [Node.spellingAs, Node.isOperand, Node.tightness, provided, Node.spelling, spellingOption_eq_map,
      le_refl, decide_true, if_true] using h
  case h_4 hv =>
    simp only [ensures_bind, ensures_pure]
    refine (message_readsWithin hexpression hc hn hk hv).mono fun m d h => ?_
    simpa only [Node.spellingAs, Node.isOperand, Node.tightness, provided, Node.spelling, spellingOption_eq_map,
      le_refl, decide_true, if_true] using h
  case h_5 => exact Tolerant.fault _

theorem primary_readsWithin (hexpression : expression.ReadsWithin allowed n (Node.spellingAs Node.isExpression)) :
    (primary expression).ReadsWithin allowed (n + 1) (Node.spellingAs (Node.isOperand 10)) := by
  intro c hc hn
  -- A literal or a name is the whole expression.
  have hword : ∀ {kind : TokenKind} {node : Node}, c.current.kind = kind → kind ≠ .endOfInput →
      node.isOperand 10 = true → node.spelling = only kind c.current.text →
        c.Reaches allowed (node.spellingAs (Node.isOperand 10)) c.advance := by
    intro kind node hk hne hnode hspelling
    have h := (Cursor.Reaches.start hc).advance hk hne
    rwa [one_mul, ← hspelling, ← Node.spellingAs_of_fits hnode] at h
  simp only [Reads, primary, ensures_traced, ensures_bind, ensures_current]
  split
  case h_1 hk => exact hword hk (by decide) rfl (by rw [Node.spelling])
  case h_2 hk => exact hword hk (by decide) rfl (by rw [Node.spelling])
  case h_3 hk => exact hword hk (by decide) rfl (by rw [Node.spelling])
  case h_4 hk => exact hword hk (by decide) rfl (by rw [Node.spelling])
  case h_5 hk => exact hword hk (by decide) rfl (by rw [Node.spelling])
  case h_6 hk => exact tuple_reads hexpression hc hn hk
  case h_7 hk => exact list_reads hexpression hc hn hk
  case h_8 hk =>
    simp only [ensures_bind, ensures_pure]
    refine (block_readsWithin hexpression c hc hn).mono fun statements d h => ?_
    simpa only [Node.spellingAs, Node.isOperand, Node.tightness, provided, Node.spelling, spellings_eq_map, le_refl,
      decide_true, if_true] using h
  case h_9 hk => exact keywordExpression_reads hexpression hc hn hk
  case h_10 => exact Tolerant.fault _
  case h_11 => exact Tolerant.fault _
  case h_12 => exact Tolerant.fault _

/-! ### Signs -/

theorem spellingAs_isOperand_le (node : Node) {least most : Nat} (h : least ≤ most) :
    node.spellingAs (Node.isOperand most) ≤ node.spellingAs (Node.isOperand least) := by
  simp only [Node.spellingAs, provided, Node.isOperand_iff]
  split
  · next hmost => rw [if_pos (h.trans hmost)]
  · exact bot_le

omit [Tolerant allowed] in
/-- Signs are spelled before their operand. -/
private theorem signs_reads (hc : c.Ended allowed) :
    (collect sign).Ensures allowed c fun signs d =>
      ∃ l, c.Reaches allowed l d ∧ ∀ inner : Node,
        l * inner.spellingAs (Node.isOperand 9) ≤
          (signs.foldr (fun sign node => sign node) inner).spellingAs (Node.isOperand 9) := by
  refine ensures_collect
    (P := fun c (signs : List (Node → Node)) d => ∃ l, c.Reaches allowed l d ∧ ∀ inner : Node,
      l * inner.spellingAs (Node.isOperand 9) ≤
        (signs.foldr (fun sign node => sign node) inner).spellingAs (Node.isOperand 9))
    (I := fun c => c.Ended allowed) (fun c hc => ?_) hc
  simp only [sign, ensures_bind, ensures_current, ensures_ite, ensures_acceptsWord, ensures_accepts, ensures_pure,
    if_true, Bool.false_eq_true, if_false]
  split
  · next hminus =>
    have h := (Cursor.Reaches.start hc).advanceWord hminus.1 hminus.2 (by decide)
    rw [one_mul] at h
    refine ⟨h.ended, .inr (h.lt (by simp)), ?_⟩
    rintro signs e ⟨l, hl, hsigns⟩
    refine ⟨_, h.trans hl, fun inner => ?_⟩
    rw [mul_assoc]
    refine (mul_le_mul_right (hsigns inner) _).trans (le_of_eq ?_)
    simp only [List.foldr_cons, Node.spellingAs, Node.spelling, Node.isOperand, Node.tightness, provided, le_refl,
      decide_true, if_true]
  · split
    · next hbang =>
      have h := (Cursor.Reaches.start hc).advanceAny hbang (by decide)
      rw [one_mul] at h
      refine ⟨h.ended, .inr (h.lt (by simp)), ?_⟩
      rintro signs e ⟨l, hl, hsigns⟩
      refine ⟨_, h.trans hl, fun inner => ?_⟩
      rw [mul_assoc]
      refine (mul_le_mul_right (hsigns inner) _).trans (le_of_eq ?_)
      simp only [List.foldr_cons, Node.spellingAs, Node.spelling, Node.isOperand, Node.tightness, provided, le_refl,
        decide_true, if_true]
    · exact ⟨1, .start hc, fun inner => by rw [one_mul, List.foldr_nil]⟩

theorem operand_readsWithin (hexpression : expression.ReadsWithin allowed n (Node.spellingAs Node.isExpression)) :
    (operand expression).ReadsWithin allowed (n + 1) (Node.spellingAs (Node.isOperand 9)) := by
  intro c hc hn
  simp only [Reads, operand, ensures_bind, ensures_pure]
  refine (signs_reads hc).mono ?_
  rintro signs d ⟨l, h, hsigns⟩
  have hle := h.length_le
  refine ((primary_readsWithin hexpression).behind h (by omega)).mono fun inner d h => ?_
  have hle := h.length_le
  refine ((suffixes_readsWithin hexpression).behind h (by omega)).mono fun suffixes d h => h.le ?_
  rw [mul_assoc]
  refine (mul_le_mul_right (spelling_suffixed suffixes inner) l).trans ?_
  exact (mul_le_mul_right (spellingAs_isOperand_le _ (by decide)) l).trans (hsigns _)

/-! ### Operators -/

theorem tightness?_bounds {operator : String} {tightness : Nat} (h : tightness? operator = some tightness) :
    1 ≤ tightness ∧ tightness ≤ 8 := by
  unfold tightness? at h
  split at h <;> simp_all <;> omega

/-- The tightness that an expression has to have if its operators outside all operands bind at least as tightly as is
told: all operands hold together tighter than the tightest operator. -/
def demanded (least : Int) : Nat :=
  max 1 (min 9 least.toNat)

/-- No operator stands at the cursor that binds at least as tightly as is told. -/
def Stopped (least : Int) (d : Cursor) : Prop :=
  ∀ tightness : Nat, d.current.kind = .operator → tightness? d.current.text = some tightness → (tightness : Int) < least

/-- A reading reads expressions, and reads on to where no operator belongs to them. -/
def ClimbsWithin (allowed : ReadFailure → Prop) (n : Nat) (r : Int → Reading Node) : Prop :=
  ∀ (least : Int) (c : Cursor), c.Ended allowed → c.after.length < n →
    (r least).Ensures allowed c fun e d =>
      c.Reaches allowed (e.spellingAs (Node.isOperand (demanded least))) d ∧ Stopped least d

/-- An expression may be the left operand of the operator at the cursor, if that binds tightly enough. -/
def MayStandLeft (least : Int) (node : Node) (d : Cursor) : Prop :=
  node.isOperand (demanded least) = true ∧
    ∀ tightness : Nat, d.current.kind = .operator → tightness? d.current.text = some tightness →
      least ≤ tightness → node.isOperand tightness = true

omit [Tolerant allowed] in
theorem ClimbsWithin.readsWithin {r : Int → Reading Node} (h : ClimbsWithin allowed n r) :
    (r loosest).ReadsWithin allowed n (Node.spellingAs Node.isExpression) :=
  fun c hc hn => (h loosest c hc hn).mono fun _ _ he => he.1

theorem MayStandLeft.of_isOperand {least : Int} {node : Node} (h : node.isOperand 9 = true) (d : Cursor) :
    MayStandLeft least node d := by
  simp only [MayStandLeft, Node.isOperand_iff, demanded] at h ⊢
  refine ⟨by omega, fun tightness _ ht _ => ?_⟩
  have := (tightness?_bounds ht).2
  omega

/-- An operator whose right operand has been read stands left of every operator that may follow. -/
theorem MayStandLeft.binary {least : Int} {operator : String} {tightness : Nat} {d : Cursor}
    (ht : tightness? operator = some tightness) (hleast : least ≤ tightness) (hstop : Stopped (tightness + 1) d)
    (anchor : Anchor) (left right : Node) : MayStandLeft least (.binary anchor operator left right) d := by
  have hbounds := tightness?_bounds ht
  simp only [MayStandLeft, Node.isOperand_iff, Node.tightness, ht, Option.getD_some, demanded]
  refine ⟨by omega, fun tightness' hk ht' _ => ?_⟩
  have := hstop tightness' hk ht'
  omega

theorem Stopped.of_none {least : Int} {d : Cursor}
    (h : (if d.current.kind = .operator then tightness? d.current.text else none) = none) : Stopped least d := by
  intro tightness hk ht
  rw [if_pos hk, ht] at h
  cases h

omit [Tolerant allowed] in
/-- An operation is spelled by its operands with the operator between them. -/
theorem spelled_binary {b c d : Cursor} {least : Int} {first right : Node} {tightness : Nat}
    (hfirst : b.Reaches allowed first.spelling c) (hleft : MayStandLeft least first c)
    (hk : c.current.kind = .operator) (ht : tightness? c.current.text = some tightness) (hleast : least ≤ tightness)
    (hright : c.advance.Reaches allowed (right.spellingAs (Node.isOperand (demanded (tightness + 1)))) d) :
    b.Reaches allowed (Node.binary c.current.anchor c.current.text first right).spelling d := by
  refine ((hfirst.advance hk (by decide)).trans hright).le (le_of_eq ?_)
  have hdemanded : demanded (tightness + 1) = tightness + 1 := by
    have := tightness?_bounds ht
    simp only [demanded]
    omega
  have hfits := hleft.2 tightness hk ht hleast
  rw [Node.spelling, ht, hdemanded]
  simp only [hfits, provided, if_true, Node.spellingAs]

omit [Tolerant allowed] in
/-- The operations behind an operand are read from left to right. -/
private theorem operations_reads {inner : Int → Reading Node} (hinner : ClimbsWithin allowed n inner) {least : Int}
    (hc : c.Ended allowed) (hn : c.after.length < n + 1) :
    (collect (operation inner least)).Ensures allowed c fun operations d =>
      ∀ (b : Cursor) (first : Node), b.Reaches allowed first.spelling c → MayStandLeft least first c →
        b.Reaches allowed ((operationsApplied first operations).spellingAs (Node.isOperand (demanded least))) d ∧
          Stopped least d := by
  refine ensures_collect
    (P := fun c operations d => ∀ (b : Cursor) (first : Node),
      b.Reaches allowed first.spelling c → MayStandLeft least first c →
        b.Reaches allowed ((operationsApplied first operations).spellingAs (Node.isOperand (demanded least))) d ∧
          Stopped least d)
    (I := fun c => c.Ended allowed ∧ c.after.length < n + 1) (fun c ⟨hc, hn⟩ => ?_) ⟨hc, hn⟩
  -- Without one more operator, the operand is the whole expression.
  have hstop : Stopped least c → ∀ (b : Cursor) (first : Node), b.Reaches allowed first.spelling c →
      MayStandLeft least first c →
        b.Reaches allowed (first.spellingAs (Node.isOperand (demanded least))) c ∧ Stopped least c := by
    intro hs b first hfirst hleft
    rw [Node.spellingAs_of_fits hleft.1]
    exact ⟨hfirst, hs⟩
  rw [operation, ensures_bind, ensures_current]
  split
  case h_2 hnone => exact hstop (.of_none hnone)
  case h_1 tightness hsome =>
    have hk : c.current.kind = .operator := by
      by_contra hk
      rw [if_neg hk] at hsome
      cases hsome
    rw [if_pos hk] at hsome
    rw [ensures_ite]
    split
    · next hloose =>
      refine hstop fun tightness' _ ht' => ?_
      rw [hsome] at ht'
      cases ht'
      exact hloose
    · next htight =>
      simp only [ensures_bind, ensures_advance, ensures_pure]
      have h := (Cursor.Reaches.start hc).advance hk (by decide)
      rw [one_mul] at h
      have hlt := h.lt (by simp)
      refine (hinner _ _ h.ended (by omega)).mono fun right d hd => ?_
      have h' := h.trans hd.1
      refine ⟨⟨h'.ended, Nat.lt_of_le_of_lt h'.length_le hn⟩, .inr (h'.lt (by simp)), ?_⟩
      intro operations e hoperations b first hfirst hleft
      exact hoperations b (.binary c.current.anchor c.current.text first right)
        (spelled_binary hfirst hleft hk hsome (by omega) hd.1) (.binary hsome (by omega) hd.2 _ _ _)

/-- One more level of depth reads expressions that hold one more level. -/
theorem expressionWith_climbsWithin {inner : Int → Reading Node} (hinner : ClimbsWithin allowed n inner) :
    ClimbsWithin allowed (n + 1) (expressionWith inner) := by
  intro least c hc hn
  simp only [expressionWith, ensures_bind, ensures_pure]
  refine (operand_readsWithin hinner.readsWithin c hc hn).mono fun first d h => ?_
  have hle := h.length_le
  refine (operations_reads hinner h.ended (by omega)).mono fun operations e hoperations => ?_
  have hfits := h.fits
  rw [Node.spellingAs_of_fits hfits] at h
  exact hoperations c first h (.of_isOperand hfits d)

/-- An expression is read wherever its depth suffices. -/
theorem expressionWithin_climbsWithin (depth : Nat) : ClimbsWithin allowed depth (expressionWithin depth) := by
  induction depth with
  | zero => exact fun _ c _ hn => absurd hn (Nat.not_lt_zero _)
  | succ depth ih => exact expressionWith_climbsWithin ih

/-- An expression is read as it is spelled. -/
theorem expressionFrom_reads (hc : c.Ended allowed) (least : Int) :
    (expressionFrom least).Reads allowed (Node.spellingAs (Node.isOperand (demanded least))) c := by
  rw [Reads, expressionFrom, ensures_bind, ensures_cursor]
  refine (expressionWithin_climbsWithin c.reach least c hc ?_).mono fun _ _ h => h.1
  simp only [Cursor.reach]
  omega

theorem expression_reads (hc : c.Ended allowed) :
    Grammar.expression.Reads allowed (Node.spellingAs Node.isExpression) c :=
  expressionFrom_reads hc loosest

end ScopeLint.Grammar
