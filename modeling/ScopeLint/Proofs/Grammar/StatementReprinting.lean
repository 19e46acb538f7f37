import ScopeLint.Grammar.Block
import ScopeLint.Proofs.Grammar.PatternReprinting
import ScopeLint.Proofs.Grammar.StatementReading

/-!
# Printing statements

The statements and blocks that the rules read are read back from their words, if expressions are.  An expression stands
in front of the word that it was read up to, or in front of a mark that ends all expressions.
-/

namespace ScopeLint

theorem Token.is_some_iff_word {t : Token} {kind : TokenKind} {value : String} (hvalue : value ≠ "") :
    t.is kind (some value) = true ↔ t.word = ⟨kind, value⟩ := by
  rw [Token.is_some_iff, Token.word, Word.mk.injEq, Token.text]
  cases t.value with
  | none => simp [Ne.symm hvalue]
  | some text => simp

/-! ### Expressions -/

/-- The kinds of the marks that end expressions. -/
def expressionClosers : List TokenKind :=
  [.comma, .rightParen, .rightBracket, .leftBrace, .rightArrow]

/-- A word that may stand behind an expression that was read up to a cursor. -/
def Cursor.EndsExpression (c : Cursor) (w : Word) : Prop :=
  w = c.current.word ∨ w.kind ∈ expressionClosers

theorem Cursor.endsExpression_self (c : Cursor) : c.EndsExpression c.current.word :=
  .inl rfl

theorem Cursor.EndsExpression.kind_ne {c : Cursor} {w : Word} (h : c.EndsExpression w) {kind : TokenKind}
    (hc : c.current.kind ≠ kind) (hkind : kind ∉ expressionClosers) : w.kind ≠ kind := by
  rcases h with rfl | h
  · exact hc
  · rintro rfl
    exact hkind h

theorem Cursor.EndsExpression.ne_keyword {c : Cursor} {w : Word} (h : c.EndsExpression w) {value : String}
    (hvalue : value ≠ "") (hc : ¬ (c.current.kind = .keyword ∧ c.current.value = some value)) :
    w ≠ ⟨.keyword, value⟩ := by
  rcases h with rfl | h
  · exact fun hword => hc (Token.is_some_iff.mp ((Token.is_some_iff_word hvalue).mpr hword))
  · rintro rfl
    exact absurd (show TokenKind.keyword ∈ expressionClosers from h) (by decide)

/-- The kinds of the words with which expressions start. -/
def expressionStarts : List TokenKind :=
  [.integer, .float, .string, .name, .upName, .hash, .leftBracket, .leftBrace, .keyword, .operator, .bang]

/-- The words of an expression that was read up to a cursor are read back. -/
structure ExpressionReprints (reading : Nat → Reading Node) (first : Word) (d : Cursor) (e : Node) : Prop where
  reprints : Reprints e.words first d.EndsExpression reading e.Agrees
  unlabelled : Unlabelled e.words
  starts : first.kind ∈ expressionStarts

/-- A reading answers with expressions that are read back. -/
def ReadsExpressions (reading : Nat → Reading Node) (inner : Reading Node) : Prop :=
  ∀ c : Cursor, c.Lexical → inner.Ensures AnyFailure c fun e d =>
    d.Lexical ∧ ExpressionReprints reading c.current.word d e

theorem ExpressionReprints.kind_ne {reading : Nat → Reading Node} {first : Word} {d : Cursor} {e : Node}
    (h : ExpressionReprints reading first d e) {kind : TokenKind} (hkind : kind ∉ expressionStarts) :
    first.kind ≠ kind := by
  rintro rfl
  exact hkind h.starts

theorem ExpressionReprints.item {reading : Nat → Reading Node} {first : Word} {d : Cursor} {e : Node}
    (h : ExpressionReprints reading first d e) {closing : TokenKind} (hclosing : closing ∈ expressionClosers)
    (hstart : closing ∉ expressionStarts) : ItemReprints reading closing e := by
  refine ⟨first, h.kind_ne hstart, h.reprints.lexed, h.reprints.starts, fun n w ws hw hn => ?_⟩
  refine h.reprints.leads n w ws (.inr ?_) hn
  rcases hw with hw | hw
  · rw [hw]
    decide
  · rwa [hw]

/-- What a rule reads back is read back as an expression by a reading that leads where the rule leads. -/
theorem ExpressionReprints.of_rule {rule reading : Nat → Reading Node} {first : Word} {d : Cursor} {e : Node}
    (h : Reprints e.words first d.EndsExpression rule e.Agrees) (hname : first.kind ≠ .name)
    (hstart : first.kind ∈ expressionStarts)
    (hrule : ∀ n ws vs, (rule n).Leads (first :: ws) vs e.Agrees → (reading n).Leads (first :: ws) vs e.Agrees) :
    ExpressionReprints reading first d e := by
  refine ⟨h.lift hrule, ?_, hstart⟩
  obtain ⟨ws, hws⟩ := h.starts
  rw [hws]
  exact .of_cons hname ws

/-- An expression of one word is read back if the word is. -/
theorem ExpressionReprints.of_word {reading : Nat → Reading Node} {w : Word} {d : Cursor} {e : Node} (hw : w.Lexed)
    (hwords : e.words = [w]) (hstart : w.kind ∈ expressionStarts)
    (hleads : ∀ n v ws, (reading n).Leads (w :: v :: ws) (v :: ws) e.Agrees) : ExpressionReprints reading w d e := by
  refine ⟨⟨?_, ⟨[], hwords⟩, fun n v ws _ _ => ?_⟩, fun f v ws heq => ?_, hstart⟩
  · rw [hwords]
    exact AllLexed.cons_iff.mpr ⟨hw, .nil⟩
  · rw [hwords]
    exact hleads n v ws
  · rw [hwords] at heq
    cases heq

namespace Grammar

open Reading

variable {reading : Nat → Reading Node} {expression : Reading Node} {c : Cursor} {ws vs : List Word} {w : Word}

/-! ### Ascriptions and parameters -/

private theorem ascriptionStop_suffix (stops : List TokenKind) (depth : Nat) (before : List Token) (t : Token)
    (after : List Token) {d : Cursor} (h : ascriptionStop stops depth before t after = .ok d) :
    d.ahead <:+ t :: after := by
  induction after generalizing depth before t with
  | nil =>
    rw [ascriptionStop] at h
    split at h
    · cases h
    · cases h
      exact List.suffix_rfl
    · unfold ascriptionStuck at h
      split at h
      · split at h
        · cases h
          exact List.suffix_rfl
        · cases h
      · cases h
  | cons next after ih =>
    rw [ascriptionStop] at h
    split at h
    · cases h
    · cases h
      exact List.suffix_rfl
    · exact (ih _ _ _ h).trans (List.suffix_cons t _)

theorem ascription_lexical (hc : c.Lexical) (stops : List TokenKind) :
    (ascription stops).Ensures AnyFailure c fun _ d => d.Lexical := by
  rw [Ensures, run_ascription]
  cases hstop : ascriptionStop stops 0 c.before c.current c.after with
  | error failure => trivial
  | ok d =>
    have hsuffix := ascriptionStop_suffix stops 0 c.before c.current c.after hstop
    by_cases hempty : d.index = c.index
    · rw [Except.bind, if_pos hempty]
      trivial
    · rw [Except.bind, if_neg hempty]
      exact fun t ht => hc t (hsuffix.subset ht)

theorem ascriptionBehind_lexical (hc : c.Lexical) (mark : TokenKind) (stops : List TokenKind) :
    (ascriptionBehind mark stops).Ensures AnyFailure c fun _ d => d.Lexical := by
  rw [ascriptionBehind, ensures_behind]
  refine (accepts_lexical hc mark).mono fun b d hd => ?_
  split
  · exact ascription_lexical hd stops
  · exact hd

theorem leads_name?_some {name : String} : name?.Leads (⟨.name, name⟩ :: w :: ws) (w :: ws)
    fun second => ∃ u : Token, second = some u ∧ u.text = name := by
  refine leads_sees ?_
  rw [beq_self_eq_true, if_pos rfl]
  exact leads_advance fun u hu => leads_pure ⟨u, rfl, hu.text⟩

theorem leads_name?_none (hw : w.kind ≠ .name) :
    name?.Leads (w :: ws) (w :: ws) fun second => second = none := by
  refine leads_sees ?_
  rw [beq_false_of_ne hw, if_neg Bool.false_ne_true]
  exact leads_pure rfl

/-- A parameter is read back without its ascription. -/
theorem parameter_reprints (hc : c.Lexical) :
    parameter.Ensures AnyFailure c fun p d => d.Lexical ∧ ItemReprints (fun _ => parameter) .rightParen p := by
  simp only [parameter, ensures_bind]
  refine hc.expect fun hk _ hd => ?_
  have hfirst : Word.Lexed ⟨.name, c.current.text⟩ := hc.current_lexed hk (by decide) (by decide)
  simp only [name?, ensures_bind, ensures_sees, ensures_ite, ensures_advance, ensures_pure, Token.is_none_iff]
  -- Neither another name nor a colon stands behind the last name.
  have hends : ∀ w : Word, w.kind = .comma ∨ w.kind = .rightParen → w.kind ≠ .name ∧ w.kind ≠ .colon := by
    rintro w (hw | hw) <;> rw [hw] <;> decide
  split
  · next hname =>
    have hsecond := hd.current_lexed hname (by decide) (by decide)
    refine (ascriptionBehind_lexical hd.advance .colon _).mono fun _ e he => ⟨he, ?_⟩
    refine ⟨⟨.name, c.current.text⟩, TokenKind.noConfusion, ?_, ⟨_, by rw [Node.words]⟩, fun n w ws hw _ => ?_⟩
    · simpa [Node.words] using ⟨hfirst, hsecond⟩
    · rw [Node.words]
      refine leads_expectAny rfl rfl fun t ht => leads_name?_some.bind ?_
      rintro _ ⟨u, rfl, hu⟩
      refine leads_behind_not (hends w hw).2 (leads_pure ?_)
      simp [Node.Agrees, Node.withoutAscriptions, Node.same, hu, ht.text]
  · refine (ascriptionBehind_lexical hd .colon _).mono fun _ e he => ⟨he, ?_⟩
    refine ⟨⟨.name, c.current.text⟩, TokenKind.noConfusion, ?_, ⟨_, by rw [Node.words]⟩, fun n w ws hw _ => ?_⟩
    · simpa [Node.words] using hfirst
    · rw [Node.words]
      refine leads_expectAny rfl rfl fun t ht => (leads_name?_none (hends w hw).1).bind ?_
      rintro _ rfl
      refine leads_behind_not (hends w hw).2 (leads_pure ?_)
      simp [Node.Agrees, Node.withoutAscriptions, Node.same, ht.text]

/-- Parameters up to the closing parenthesis. -/
theorem parameters_reprints (hc : c.Lexical) :
    (commaList parameter .rightParen).Ensures AnyFailure c fun ps d =>
      d.Lexical ∧ ∀ p ∈ ps, ItemReprints (fun _ => parameter) .rightParen p :=
  commaList_all (fun _ hc => parameter_reprints hc) hc .rightParen

theorem leads_parameters {ps : List Node} (hps : ∀ p ∈ ps, ItemReprints (fun _ => parameter) .rightParen p)
    {ws : List Word} :
    (commaList parameter .rightParen).Leads (joined (.mark .comma) (wordsAll ps) ++ .mark .rightParen :: ws)
      (.mark .rightParen :: ws) (List.Forall₂ Node.Agrees ps) :=
  ItemReprints.leads hps (by decide) rfl le_rfl

/-! ### Bindings -/

theorem assignment_reprints (hexpression : ReadsExpressions reading expression) (hc : c.Lexical) :
    (assignment expression).Ensures AnyFailure c fun s d => d.Lexical ∧
      Reprints s.words ⟨.keyword, "let"⟩ d.EndsExpression (fun n => assignment (reading n)) s.Agrees := by
  simp only [assignment, ensures_traced, ensures_bind, ensures_advance, ensures_pure]
  refine (acceptsWord_lexical hc.advance .keyword "assert").mono fun asserted d hd => ?_
  refine (pattern_reprints d hd).mono fun p e hp => ?_
  refine (ascriptionBehind_lexical hp.1 .colon _).mono fun _ f hf => hf.expect fun _ _ hf => ?_
  refine (hexpression _ hf).mono fun value g hvalue => ⟨hvalue.1, ?_, ⟨_, by rw [Node.words]⟩, fun n w ws hw hn => ?_⟩
  · rw [Node.words]
    simp only [AllLexed.cons_iff, AllLexed.append_iff]
    refine ⟨Word.lexed_keyword (by decide), ⟨?_, hp.2.reprints.lexed⟩, Word.lexed_mark (by decide),
      hvalue.2.reprints.lexed⟩
    cases asserted with
    | false => exact .nil
    | true => exact AllLexed.cons_iff.mpr ⟨Word.lexed_keyword (by decide), .nil⟩
  · rw [Node.words, List.cons_append, List.append_assoc, List.cons_append] at hn ⊢
    simp only [List.length_cons, List.length_append] at hn
    have hread := hvalue.2.reprints.leads n w ws hw (by simp only [List.length_append, List.length_cons]; omega)
    have hpattern : pattern.Leads (p.words ++ .mark .equal :: (value.words ++ w :: ws))
        (.mark .equal :: (value.words ++ w :: ws)) p.Agrees :=
      leads_pattern hp.2 ⟨⟨TokenKind.noConfusion, TokenKind.noConfusion⟩, by decide⟩
    obtain ⟨us, hus⟩ := hp.2.reprints.starts
    have hassert : d.current.word ≠ ⟨.keyword, "assert"⟩ := by
      intro hword
      exact absurd (congrArg Word.kind hword) (hp.2.kind_ne (by decide))
    rw [hus, List.cons_append] at hpattern
    rw [hus, List.append_assoc, List.cons_append]
    refine (leads_traced _ _ _).mpr (leads_advance fun t _ => leads_acceptsWord_if TokenKind.noConfusion asserted hassert ?_)
    refine hpattern.bind fun q hq => leads_behind_not (by decide) (leads_expectAny rfl rfl fun _ _ => ?_)
    refine hread.bind fun v hv => leads_pure ?_
    simp only [Node.Agrees, Node.withoutAscriptions, Node.same, Bool.and_eq_true, beq_self_eq_true, and_true]
    exact ⟨hq, hv⟩

theorem usePattern_reprints (hc : c.Lexical) :
    usePattern.Ensures AnyFailure c fun p d => d.Lexical ∧ ItemReprints (fun _ => usePattern) .leftArrow p := by
  simp only [usePattern, ensures_bind, ensures_pure]
  refine (pattern_reprints c hc).mono fun p d hp => ?_
  refine (ascriptionBehind_lexical hp.1 .colon _).mono fun _ e he => ⟨he, ?_⟩
  refine ⟨_, hp.2.kind_ne (by decide), hp.2.reprints.lexed, hp.2.reprints.starts, fun n w ws hw _ => ?_⟩
  refine (leads_pattern hp.2 (endsPattern_of_kind (by decide) w hw)).bind fun q hq => leads_behind_not ?_ (leads_pure hq)
  rcases hw with hw | hw <;> rw [hw] <;> decide

theorem use_reprints (hexpression : ReadsExpressions reading expression) (hc : c.Lexical) :
    (use expression).Ensures AnyFailure c fun s d => d.Lexical ∧
      Reprints s.words ⟨.keyword, "use"⟩ d.EndsExpression (fun n => use (reading n)) s.Agrees := by
  simp only [use, ensures_traced, ensures_bind, ensures_advance, ensures_pure]
  refine (commaList_all (fun _ hc => usePattern_reprints hc) hc.advance .leftArrow).mono fun ps d hps => ?_
  refine hps.1.expect fun _ _ hd => (hexpression _ hd).mono fun function e hfunction => ⟨hfunction.1, ?_⟩
  refine ⟨?_, ⟨_, by rw [Node.words]⟩, fun n w ws hw hn => ?_⟩
  · rw [Node.words]
    simp only [AllLexed.cons_iff, AllLexed.append_iff]
    exact ⟨Word.lexed_keyword (by decide), .of_commas (ItemReprints.lexed hps.2), Word.lexed_mark (by decide),
      hfunction.2.reprints.lexed⟩
  · rw [Node.words, List.cons_append, List.append_assoc, List.cons_append] at hn ⊢
    simp only [List.length_cons, List.length_append] at hn
    have hread := hfunction.2.reprints.leads n w ws hw (by simp only [List.length_append, List.length_cons]; omega)
    refine (leads_traced _ _ _).mpr (leads_advance fun t _ => ?_)
    refine (ItemReprints.leads (n := n) hps.2 (by decide) rfl ?_).bind fun qs hqs => ?_
    · simp only [List.length_append, List.length_cons]
      omega
    · refine leads_expectAny rfl rfl fun _ _ => hread.bind fun v hv => leads_pure ?_
      simp only [Node.Agrees, Node.withoutAscriptions, Node.same, Bool.and_eq_true]
      exact ⟨sameAll_of_agrees hqs, hv⟩

/-! ### Statements and blocks -/

/-- A statement is read back, since its first word tells of what sort it is. -/
theorem statement_reprints (hexpression : ReadsExpressions reading expression) (hc : c.Lexical) :
    (statement expression).Ensures AnyFailure c fun s d => d.Lexical ∧
      Reprints s.words c.current.word d.EndsExpression (fun n => statement (reading n)) s.Agrees := by
  simp only [statement, ensures_bind, ensures_current, ensures_ite]
  split
  · next hlet =>
    rw [Token.is_some_iff_word (by decide)] at hlet
    refine (assignment_reprints hexpression hc).mono fun s d hs => ⟨hs.1, ?_⟩
    rw [hlet]
    refine ⟨hs.2.lexed, hs.2.starts, fun n w ws hw hn => ?_⟩
    have hread := hs.2.leads n w ws hw hn
    obtain ⟨us, hus⟩ := hs.2.starts
    rw [hus, List.cons_append] at hread ⊢
    refine leads_current fun t ht => ?_
    rwa [ht.is_some TokenKind.noConfusion, if_pos (by simp)]
  · next hlet =>
    rw [Token.is_some_iff_word (by decide)] at hlet
    split
    · next huse =>
      rw [Token.is_some_iff_word (by decide)] at huse
      refine (use_reprints hexpression hc).mono fun s d hs => ⟨hs.1, ?_⟩
      rw [huse]
      refine ⟨hs.2.lexed, hs.2.starts, fun n w ws hw hn => ?_⟩
      have hread := hs.2.leads n w ws hw hn
      obtain ⟨us, hus⟩ := hs.2.starts
      rw [hus, List.cons_append] at hread ⊢
      refine leads_current fun t ht => ?_
      rwa [ht.is_some TokenKind.noConfusion, ht.is_some TokenKind.noConfusion, if_neg (by simp), if_pos (by simp)]
    · next huse =>
      rw [Token.is_some_iff_word (by decide)] at huse
      refine (hexpression c hc).mono fun e d he => ⟨he.1, ?_⟩
      obtain ⟨us, hus⟩ := he.2.reprints.starts
      refine ⟨he.2.reprints.lexed, ⟨us, by rw [Node.words, hus]⟩, fun n w ws hw hn => ?_⟩
      rw [Node.words] at hn ⊢
      have hread := he.2.reprints.leads n w ws hw hn
      rw [hus, List.cons_append] at hread ⊢
      refine leads_current fun t ht => ?_
      rw [ht.is_some TokenKind.noConfusion, ht.is_some TokenKind.noConfusion, if_neg (by simpa using hlet),
        if_neg (by simpa using huse)]
      refine hread.bind fun f hf => leads_pure ?_
      rwa [Node.Agrees, Node.withoutAscriptions, Node.same]

/-- The words of a block. -/
def blockWords (statements : List Node) : List Word :=
  .mark .leftBrace :: ((wordsAll statements).flatten ++ [.mark .rightBrace])

/-- A block is read back in front of every word. -/
theorem block_reprints (hexpression : ReadsExpressions reading expression) (hc : c.Lexical) :
    (block expression).Ensures AnyFailure c fun statements d => d.Lexical ∧
      Reprints (blockWords statements) (.mark .leftBrace) (fun _ => True) (fun n => block (reading (n - 1)))
        (List.Forall₂ Node.Agrees statements) := by
  simp only [block, ensures_traced, ensures_bind, ensures_pure]
  refine hc.expect fun _ _ hd => ?_
  have hstatement : ∀ c : Cursor, c.Lexical → (statement expression).Ensures AnyFailure c fun s d =>
      d.Lexical ∧ Reprints s.words c.current.word (fun w => w = d.current.word) (fun n => statement (reading n))
        s.Agrees := by
    refine fun c hc => (statement_reprints hexpression hc).mono fun s d hs => ⟨hs.1, hs.2.lexed, hs.2.starts, ?_⟩
    rintro n _ ws rfl hn
    exact hs.2.leads n _ ws d.endsExpression_self hn
  refine (upToBrace_reprints hstatement .blockUnfinished hd).mono fun statements e hs => ?_
  refine hs.1.expect fun hbrace _ hf => ⟨hf, ?_⟩
  have hword : e.current.word = .mark .rightBrace := hs.1.current_mark hbrace (by decide)
  have hflatten : (wordsAll statements).flatten = statements.flatMap Node.words := by
    rw [wordsAll_eq_map, List.flatMap]
  refine ⟨?_, ⟨_, rfl⟩, fun n w ws _ hn => ?_⟩
  · simp only [blockWords, AllLexed.cons_iff, AllLexed.append_iff, hflatten]
    exact ⟨Word.lexed_mark (by decide), hs.2.lexed, Word.lexed_mark (by decide), .nil⟩
  · simp only [blockWords, hflatten, List.cons_append, List.append_assoc, List.nil_append, List.length_cons] at hn ⊢
    have hread := hs.2.leads (n - 1) (.mark .rightBrace) (w :: ws) hword.symm (by omega)
    refine (leads_traced _ _ _).mpr (leads_expectAny rfl rfl fun _ _ => hread.bind fun ss hss => ?_)
    exact leads_expectAny rfl rfl fun _ _ => leads_pure hss

end Grammar

end ScopeLint
