import ScopeLint.Proofs.Grammar.ClauseEnd
import ScopeLint.Proofs.Grammar.Depth
import ScopeLint.Proofs.Grammar.Nesting
import ScopeLint.Proofs.Grammar.Parts

/-!
# Reading a case expression

What is read from the word of a case expression on is that case expression, if the input ends behind it
(`Grammar.run_expression_eq_choice`), and it is read part by part: its subjects up to an opening brace, then its clauses
up to a closing one (`Grammar.CaseRead`).  The last word of a clause is no dot.
-/

namespace ScopeLint

open Spelling

/-! ### The last word of a clause -/

/-- No expression ends with a dot. -/
theorem Node.expression_le_endingIn : (node : Node) → 1 ≤ node.tightness →
    node.spelling ≤ endingIn fun w => w.kind ≠ .dot
  | .var .., _ | .constructor .., _ | .int .., _ | .float .., _ | .string .., _ => by
    rw [Node.spelling]
    exact only_le_endingIn TokenKind.noConfusion
  | .minus _ operand, _ => by
    rw [Node.spelling]
    refine mul_le_endingIn (only_le_endingIn TokenKind.noConfusion) fun ws hws => ?_
    obtain ⟨hoperand, hws⟩ := mem_provided.mp hws
    exact operand.expression_le_endingIn (le_trans (by decide) (isOperand_iff.mp hoperand)) hws
  | .not _ operand, _ => by
    rw [Node.spelling]
    refine mul_le_endingIn (anyOf_le_endingIn fun _ => TokenKind.noConfusion) fun ws hws => ?_
    obtain ⟨hoperand, hws⟩ := mem_provided.mp hws
    exact operand.expression_le_endingIn (le_trans (by decide) (isOperand_iff.mp hoperand)) hws
  | .binary _ operator left right, _ => by
    rw [Node.spelling]
    split
    · exact fun _ hws => absurd hws (Language.notMem_zero _)
    · refine behind_le_endingIn _ (fun ws hws => ?_) (right.nil_notMem_spellingAs _)
      obtain ⟨hright, hws⟩ := mem_provided.mp hws
      exact right.expression_le_endingIn (le_trans (Nat.succ_pos _) (isOperand_iff.mp hright)) hws
  | .block .., _ | .tuple .., _ | .list .., _ | .call .., _ | .choice .., _ | .lambda .., _ => by
    simp only [Node.spelling, ← mul_assoc]
    exact behind_le_endingIn _ (anyOf_le_endingIn fun _ => TokenKind.noConfusion) (nil_notMem_anyOf _)
  | .field _ container label, _ => by
    rw [Node.spelling]
    refine behind_le_endingIn _ (add_le (add_le ?_ ?_) ?_) (by simp [eitherName])
    all_goals exact only_le_endingIn TokenKind.noConfusion
  | .todo _ none, _ | .panic _ none, _ => by
    rw [Node.spelling]
    exact mul_le_endingIn (only_le_endingIn TokenKind.noConfusion) one_le_endingIn
  | .todo _ (some message), _ | .panic _ (some message), _ => by
    rw [Node.spelling, spellingOption, behindWord]
    refine behind_le_endingIn _ (mul_le_endingIn (only_le_endingIn TokenKind.noConfusion) fun ws hws => ?_) ?_
    · obtain ⟨hmessage, hws⟩ := mem_provided.mp hws
      exact message.expression_le_endingIn (isOperand_iff.mp hmessage) hws
    · simp
  | .patName .., h | .patDiscard .., h | .patTuple .., h | .patList .., h | .patAlias .., h | .patInt .., h
  | .patFloat .., h | .patString .., h | .patConstructor .., h | .argument .., h | .clause .., h | .assignment .., h
  | .use .., h | .expression .., h | .parameter .., h | .function .., h | .importing .., h | .wholeModule .., h
  | .unknown .., h => absurd h (Nat.not_succ_le_zero 0)

/-- A clause ends with its body. -/
theorem Node.clause_le_endingIn (node : Node) :
    node.spellingAs Node.isClause ≤ endingIn fun w => w.kind ≠ .dot := by
  intro ws hws
  obtain ⟨hclause, hws⟩ := mem_provided.mp hws
  cases node with
  | clause anchor alternatives guard body =>
    rw [Node.spelling] at hws
    refine behind_le_endingIn _ (fun ws hws => ?_) (body.nil_notMem_spellingAs _) hws
    obtain ⟨hbody, hws⟩ := mem_provided.mp hws
    exact body.expression_le_endingIn (isOperand_iff.mp hbody) hws
  | _ => cases hclause

namespace Reading

variable {α : Type} {round : Reading (Round α)} {c d : Cursor}

theorem run_current (c : Cursor) : current.run c = .ok (c.current, c) :=
  rfl

theorem run_collect_of_stop (h : round.run c = .ok (.stop, c)) : (collect round).run c = .ok ([], c) := by
  show (collectFor round (c.after.length + 1 + 1)).run c = _
  rw [collectFor, run_bind, h]
  rfl

/-- A repeated reading without items has stopped in its first round. -/
theorem stop_of_run_collect (h : (collect round).run c = .ok ([], d)) : round.run c = .ok (.stop, d) := by
  have h : (collectFor round (c.after.length + 1 + 1)).run c = .ok ([], d) := h
  rw [collectFor] at h
  obtain ⟨answer, c', hround, hrest⟩ := run_bind_eq_ok.mp h
  cases answer with
  | stop =>
    cases hrest
    exact hround
  | last a => cases hrest
  | more a =>
    obtain ⟨_, _, -, hcons⟩ := run_bind_eq_ok.mp hrest
    cases hcons

end Reading

namespace Grammar

open Reading

variable {c d : Cursor} {expression : Reading Node}

/-! ### Reading a case expression -/

theorem run_suffix (expression : Reading Node) (c : Cursor) :
    (suffix expression).run c =
      (if c.current.kind = .leftParen then do
        let _ ← advance
        let arguments ← commaList (argument expression) .rightParen
        let _ ← expect .argumentsEnd
        return .more (.call c.current.anchor arguments)
      else if c.current.kind = .dot then do
        let _ ← advance
        return .more (.field c.current.anchor (← fieldLabel))
      else pure .stop : Reading (Round Suffix)).run c := by
  show (accepts .leftParen >>= _).run c = _
  rw [run_bind, run_accepts]
  by_cases hparen : c.current.kind = .leftParen
  · rw [if_pos (Token.is_none_iff.mpr hparen), if_pos hparen]
    rfl
  · rw [if_neg (Token.is_none_iff.not.mpr hparen), if_neg hparen]
    show (accepts .dot >>= _).run c = _
    rw [run_bind, run_accepts]
    by_cases hdot : c.current.kind = .dot
    · rw [if_pos (Token.is_none_iff.mpr hdot), if_pos hdot]
      rfl
    · rw [if_neg (Token.is_none_iff.not.mpr hdot), if_neg hdot]
      rfl

theorem cursor_of_run_suffix (h : (suffix expression).run c = .ok (.stop, d)) : d = c := by
  rw [run_suffix] at h
  split at h
  · obtain ⟨_, _, -, h⟩ := run_bind_eq_ok.mp h
    obtain ⟨_, _, -, h⟩ := run_bind_eq_ok.mp h
    obtain ⟨_, _, -, h⟩ := run_bind_eq_ok.mp h
    cases h
  · split at h
    · obtain ⟨_, _, -, h⟩ := run_bind_eq_ok.mp h
      obtain ⟨_, _, -, h⟩ := run_bind_eq_ok.mp h
      cases h
    · cases h
      rfl

theorem run_operation (inner : Int → Reading Node) (least : Int) (c : Cursor) :
    (operation inner least).run c =
      (match if c.current.kind = .operator then tightness? c.current.text else none with
      | some tightness =>
        if (tightness : Int) < least then pure .stop
        else do
          let _ ← advance
          return .more (c.current, ← inner (tightness + 1))
      | none => pure .stop : Reading (Round (Token × Node))).run c :=
  rfl

theorem cursor_of_run_operation {inner : Int → Reading Node} {least : Int}
    (h : (operation inner least).run c = .ok (.stop, d)) : d = c := by
  rw [run_operation] at h
  split at h
  · split at h
    · cases h
      rfl
    · obtain ⟨_, _, -, h⟩ := run_bind_eq_ok.mp h
      obtain ⟨_, _, -, h⟩ := run_bind_eq_ok.mp h
      cases h
  · cases h
    rfl

/-- An operand that starts with the word of a case expression has no sign. -/
theorem run_operand_of_case (h : c.current.is .keyword (some "case") = true) :
    (operand expression).run c = (choice expression >>= fun inner => collect (suffix expression) >>= fun suffixes =>
      pure (suffixes.foldl Suffix.applyTo inner) : Reading Node).run c := by
  obtain ⟨hk, hv⟩ := Token.is_some_iff.mp h
  have hsign : sign.run c = .ok (.stop, c) := by
    have hminus : ¬ c.current.is .operator (some "-") = true := by simp [Token.is_some_iff, hk]
    have hbang : ¬ c.current.is .bang none = true := by simp [Token.is_none_iff, hk]
    show (acceptsWord .operator "-" >>= _).run c = _
    rw [run_bind, run_acceptsWord, if_neg hminus]
    show (accepts .bang >>= _).run c = _
    rw [run_bind, run_accepts, if_neg hbang]
    rfl
  have hprimary : (primary expression).run c = (choice expression).run c := by
    rw [primary, run_traced, run_bind, run_current]
    simp only [Except.bind, hk]
    rw [keywordExpression, run_bind, run_current]
    simp only [Except.bind, hv]
  rw [operand, run_bind, run_collect_of_stop hsign]
  show (primary expression >>= _).run c = _
  rw [run_bind, run_bind, hprimary]
  rfl

/-- A node that is no call and no access to a field has no suffixes. -/
private theorem suffixes_eq_nil {suffixes : List Suffix} {inner : Node} {anchor : Anchor}
    {subjects clauses : List Node} (h : suffixes.foldl Suffix.applyTo inner = .choice anchor subjects clauses) :
    suffixes = [] := by
  rcases List.eq_nil_or_concat suffixes with hnil | ⟨suffixes, last, rfl⟩
  · exact hnil
  · rw [List.concat_eq_append, List.foldl_concat] at h
    cases last <;> cases h

private theorem operations_eq_nil {operations : List (Token × Node)} {first : Node} {anchor : Anchor}
    {subjects clauses : List Node} (h : operationsApplied first operations = .choice anchor subjects clauses) :
    operations = [] := by
  rcases List.eq_nil_or_concat operations with hnil | ⟨operations, last, rfl⟩
  · exact hnil
  · rw [operationsApplied, List.concat_eq_append, List.foldl_concat] at h
    cases h

/-- What is read from the word of a case expression on is the case expression, if nothing goes on behind it. -/
theorem run_expression_eq_choice (hc : Closed c.tokens) (h : c.current.is .keyword (some "case") = true)
    {anchor : Anchor} {subjects clauses : List Node} (hd : d.current.kind = .endOfInput) :
    Grammar.expression.run c = .ok (.choice anchor subjects clauses, d) ↔
      (choice Grammar.expression).run c = .ok (.choice anchor subjects clauses, d) := by
  rw [Grammar.expression, run_expressionFrom_eq hc, expressionWith]
  constructor
  · intro hrun
    obtain ⟨first, d₁, hoperand, hrest⟩ := run_bind_eq_ok.mp hrun
    rw [run_operand_of_case h] at hoperand
    obtain ⟨inner, d₂, hchoice, hsuffixes⟩ := run_bind_eq_ok.mp hoperand
    obtain ⟨suffixes, d₃, hcollect, hfirst⟩ := run_bind_eq_ok.mp hsuffixes
    obtain ⟨operations, d₄, hoperations, hnode⟩ := run_bind_eq_ok.mp hrest
    cases hfirst
    obtain ⟨happlied, rfl⟩ := Prod.mk.inj (Except.ok.inj hnode)
    obtain rfl := operations_eq_nil happlied
    obtain rfl := suffixes_eq_nil happlied
    obtain rfl := cursor_of_run_operation (stop_of_run_collect hoperations)
    obtain rfl := cursor_of_run_suffix (stop_of_run_collect hcollect)
    exact happlied ▸ hchoice
  · intro hchoice
    have hsuffix : (suffix Grammar.expression).run d = .ok (.stop, d) := by
      rw [run_suffix, hd]
      rfl
    have hoperation : (operation expressionFrom loosest).run d = .ok (.stop, d) := by
      rw [run_operation, hd]
      rfl
    have hoperand : (operand Grammar.expression).run c = .ok (.choice anchor subjects clauses, d) := by
      rw [run_operand_of_case h]
      exact run_bind_eq_ok.mpr ⟨_, d, hchoice, run_bind_eq_ok.mpr ⟨[], d, run_collect_of_stop hsuffix, rfl⟩⟩
    exact run_bind_eq_ok.mpr
      ⟨_, d, hoperand, run_bind_eq_ok.mpr ⟨[], d, run_collect_of_stop hoperation, rfl⟩⟩

/-- From the word at a cursor on, a case expression is read, the clauses of which stand between the braces at two
cursors. -/
structure CaseRead (c : Cursor) (subjects clauses : List Node) (opening closing : Cursor) : Prop where
  subjects_read : (separated Grammar.expression (accepts .comma) Grammar.expression).run c.advance =
    .ok (subjects, opening)
  opens : opening.current.kind = .leftBrace
  clauses_read : (upToBrace .clausesUnfinished (clause Grammar.expression)).run opening.advance = .ok (clauses, closing)
  closes : closing.current.kind = .rightBrace
  nonempty : clauses ≠ []

private theorem kind_of_run_expect {e : Expectation} {t : Token} (h : (expect e).run c = .ok (t, d)) :
    c.current.kind = e.kind ∧ d = c.advance := by
  obtain ⟨-, -, rfl⟩ := kind_ne_endOfInput_of_expect h
  rw [run_expect] at h
  split at h
  · cases h
  · split at h
    · next hseen => exact ⟨beq_iff_eq.mp (Bool.and_eq_true_iff.mp hseen).1, rfl⟩
    · cases h

private theorem run_expect_of_kind {e : Expectation} (hvalue : e.value = none) (hvalid : e.kind ≠ .invalid)
    (h : c.current.kind = e.kind) : (expect e).run c = .ok (c.current, c.advance) := by
  rw [run_expect, if_neg (h ▸ hvalid), if_pos (by rw [hvalue, Token.is_none_iff, h])]
  rfl

/-- A case expression is read part by part. -/
theorem run_choice_eq_ok {node : Node} :
    (choice Grammar.expression).run c = .ok (node, d) ↔ ∃ subjects clauses opening closing,
      CaseRead c subjects clauses opening closing ∧ node = .choice c.current.anchor subjects clauses ∧
        d = closing.advance := by
  rw [choice, run_traced]
  constructor
  · intro h
    obtain ⟨_, _, hadvance, h⟩ := run_bind_eq_ok.mp h
    cases hadvance
    obtain ⟨subjects, opening, hsubjects, h⟩ := run_bind_eq_ok.mp h
    obtain ⟨_, _, hexpect, h⟩ := run_bind_eq_ok.mp h
    obtain ⟨hopens, rfl⟩ := kind_of_run_expect hexpect
    obtain ⟨clauses, closing, hclauses, h⟩ := run_bind_eq_ok.mp h
    obtain ⟨_, _, hexpect', h⟩ := run_bind_eq_ok.mp h
    obtain ⟨hcloses, rfl⟩ := kind_of_run_expect hexpect'
    split at h
    · cases h
    · next hempty =>
      cases h
      refine ⟨subjects, clauses, opening, closing, ⟨hsubjects, hopens, hclauses, hcloses, ?_⟩, rfl, rfl⟩
      rintro rfl
      exact hempty rfl
  · rintro ⟨subjects, clauses, opening, closing, h, rfl, rfl⟩
    have hempty : ¬ clauses.isEmpty = true := fun hempty => h.nonempty (List.isEmpty_iff.mp hempty)
    refine run_bind_eq_ok.mpr ⟨_, _, rfl, run_bind_eq_ok.mpr ⟨subjects, opening, h.subjects_read, ?_⟩⟩
    refine run_bind_eq_ok.mpr ⟨_, _, run_expect_of_kind rfl TokenKind.noConfusion h.opens, ?_⟩
    refine run_bind_eq_ok.mpr ⟨clauses, closing, h.clauses_read, ?_⟩
    refine run_bind_eq_ok.mpr ⟨_, _, run_expect_of_kind rfl TokenKind.noConfusion h.closes, ?_⟩
    rw [if_neg hempty]
    rfl

/-! ### The tokens of a case expression -/

theorem subjects_reads (hc : c.Ended ReadFailure.Ends) :
    (separated Grammar.expression (accepts .comma) Grammar.expression).Reads ReadFailure.Ends
      (fun subjects => Spelling.separated (anyOf .comma) (subjects.map (Node.spellingAs Node.isExpression))) c :=
  separated_readsWithin (n := c.after.length + 1) (fun _ hc _ => expression_reads hc)
    (fun _ hc => accepts_reads hc .comma (by decide)) (by simp) (fun _ hc _ => expression_reads hc) c hc
    (Nat.lt_succ_self _)

theorem clauses_reads (hc : c.Ended ReadFailure.Ends) :
    (upToBrace .clausesUnfinished (clause Grammar.expression)).Reads ReadFailure.Ends
      (fun clauses => (clauses.map (Node.spellingAs Node.isClause)).prod) c :=
  upToBrace_readsWithin (n := c.after.length + 1) (clause_readsWithin fun _ hc _ => expression_reads hc)
    (fun node => node.nil_notMem_spellingAs Node.isClause) .clausesUnfinished c hc (Nat.lt_succ_self _)

/-- Tokens that are passed over close their own brackets and no others, as the language of their words does. -/
private theorem exists_passed {l : Language Word} (hl : Composed Set.univ l) (h : c.Reaches ReadFailure.Ends l d) :
    ∃ ts : List Token, c.ahead = ts ++ d.ahead ∧ d.index = c.index + ts.length ∧ d.tokens = c.tokens ∧
      BracketsClose [] 0 (ts.map Token.word) ∧ ts.map Token.word ∈ l := by
  obtain ⟨-, ts, hahead, hbefore, hinside, hmem⟩ := h
  refine ⟨ts, hahead, ?_, ?_, hl.bracketsClose _ hmem ?_, hmem⟩
  · rw [Cursor.index, Cursor.index, hbefore, List.length_append, List.length_reverse, Nat.add_comm]
  · show d.before.reverse ++ d.ahead = c.before.reverse ++ c.ahead
    rw [hahead, hbefore, List.reverse_append, List.reverse_reverse, List.append_assoc]
  · intro w hw
    obtain ⟨t, ht, rfl⟩ := List.mem_map.mp hw
    exact hinside t ht

/-- The tokens of a case expression are its word, those of its subjects, a brace, those of its clauses and a brace. -/
theorem CaseRead.exists_tokens {subjects clauses : List Node} {opening closing : Cursor}
    (h : CaseRead c subjects clauses opening closing) (hc : Closed c.tokens) (hk : c.current.kind ≠ .endOfInput) :
    ∃ us vs : List Token, c.after = us ++ opening.current :: vs ++ closing.ahead ∧
      (opening.index = c.index + 1 + us.length ∧ opening.tokens = c.tokens) ∧
      (closing.index = opening.index + 1 + vs.length ∧ closing.tokens = c.tokens) ∧
      BracketsClose [] 0 (vs.map Token.word) ∧ ∀ v ∈ vs.getLast?, v.kind ≠ .dot := by
  have hnext := Cursor.next?_ne_none hc hk
  have hended : c.advance.Ended ReadFailure.Ends := Cursor.ended_of_closed (c.tokens_advance ▸ hc)
  have hsubjects := (subjects_reads hended).of_run h.subjects_read
  obtain ⟨us, hus, hopening, htokens, -, -⟩ := exists_passed
    (.separated (.anyOf (by decide)) (fun _ => .univ) (spellings_eq_map Node.isExpression subjects ▸
      composed_spellings Node.follow_of_isExpression subjects)) hsubjects
  have htokens : opening.tokens = c.tokens := htokens.trans c.tokens_advance
  have hnext' := Cursor.next?_ne_none (htokens ▸ hc) (show opening.current.kind ≠ .endOfInput by simp [h.opens])
  have hended' : opening.advance.Ended ReadFailure.Ends :=
    Cursor.ended_of_closed (by rwa [opening.tokens_advance, htokens])
  have hclauses := (clauses_reads hended').of_run h.clauses_read
  obtain ⟨vs, hvs, hclosing, htokens', hnested, hmem⟩ := exists_passed
    (.prod (spellings_eq_map Node.isClause clauses ▸ composed_spellings Node.follow_of_isClause clauses)) hclauses
  have hafter : ∀ {c : Cursor}, c.next? ≠ none → c.after = c.advance.ahead := by
    rintro ⟨before, current, _ | ⟨t, after⟩⟩ hne
    · exact absurd rfl hne
    · rfl
  refine ⟨us, vs, ?_, ⟨?_, htokens⟩, ⟨?_, (htokens'.trans opening.tokens_advance).trans htokens⟩, hnested, ?_⟩
  · rw [hafter hnext, hus, Cursor.ahead, hafter hnext', hvs, List.append_assoc, List.cons_append]
  · rw [hopening, Cursor.index_advance hnext]
  · rw [hclosing, Cursor.index_advance hnext']
  · intro v hv
    have hends : (clauses.map (Node.spellingAs Node.isClause)).prod ≤ endingIn fun w => w.kind ≠ .dot := by
      refine prod_le_endingIn fun l hl => ?_
      obtain ⟨node, -, rfl⟩ := List.mem_map.mp hl
      exact node.clause_le_endingIn
    exact hends hmem v.word (by rw [List.getLast?_map, hv]; rfl)

/-! ### The first word of a clause -/

private theorem startsClause_of_run_primaryPattern {inner : Reading Node} {node : Node}
    (h : (primaryPattern inner).run c = .ok (node, d)) (hminus : c.current.is .operator (some "-") = false) :
    c.current.kind.startsClause = true := by
  rw [primaryPattern, run_bind, run_current] at h
  simp only [Except.bind] at h
  cases hk : c.current.kind
  case name | upName | integer | float | string | hash | leftBracket => rfl
  case operator =>
    have hvalue : ¬ c.current.value = some "-" := fun hv => by simp [Token.is_some_iff.mpr ⟨hk, hv⟩] at hminus
    rw [hk] at h
    simp only [if_neg hvalue] at h
    cases h
  all_goals
    rw [hk] at h
    cases h

private theorem startsClause_of_run_pattern {node : Node} (h : pattern.run c = .ok (node, d))
    (hminus : c.current.is .operator (some "-") = false) : c.current.kind.startsClause = true := by
  rw [pattern] at h
  obtain ⟨_, _, hcursor, h⟩ := run_bind_eq_ok.mp h
  cases hcursor
  rw [Cursor.reach, patternWithin, patternWith] at h
  obtain ⟨_, _, hcurrent, h⟩ := run_bind_eq_ok.mp h
  cases hcurrent
  obtain ⟨primary, _, hprimary, -⟩ := run_bind_eq_ok.mp h
  exact startsClause_of_run_primaryPattern hprimary hminus

/-- A clause starts with a token with which an expression does not go on, or with a minus sign. -/
theorem startsClause_of_run_clause {node : Node} (h : (clause Grammar.expression).run c = .ok (node, d))
    (hminus : c.current.is .operator (some "-") = false) : c.current.kind.startsClause = true := by
  rw [clause] at h
  obtain ⟨_, _, hcurrent, h⟩ := run_bind_eq_ok.mp h
  cases hcurrent
  obtain ⟨alternatives, _, halternatives, -⟩ := run_bind_eq_ok.mp h
  rw [Reading.separated] at halternatives
  obtain ⟨row, _, hrow, -⟩ := run_bind_eq_ok.mp halternatives
  rw [clausePatterns, Reading.separated] at hrow
  obtain ⟨first, _, hfirst, -⟩ := run_bind_eq_ok.mp hrow
  exact startsClause_of_run_pattern hfirst hminus

/-- So do clauses, if there are any. -/
theorem startsClause_of_run_clauses {clauses : List Node} (hne : clauses ≠ [])
    (h : (upToBrace .clausesUnfinished (clause Grammar.expression)).run c = .ok (clauses, d))
    (hminus : c.current.is .operator (some "-") = false) : c.current.kind.startsClause = true := by
  rw [run_upToBrace, Cursor.reach, collectFor] at h
  obtain ⟨answer, d', hround, hrest⟩ := run_bind_eq_ok.mp h
  rw [roundToBrace, run_sees] at hround
  split at hround
  · cases hround
    cases hrest
    exact absurd rfl hne
  · rw [run_sees] at hround
    split at hround
    · cases hround
    · obtain ⟨node, _, hclause, -⟩ := run_bind_eq_ok.mp hround
      exact startsClause_of_run_clause hclause hminus

end Grammar

end ScopeLint
