import ScopeLint.Grammar.Expression
import ScopeLint.Proofs.Grammar.StatementReprinting

/-!
# Printing expressions

The expressions that the rules read are read back from their words (`expression_reprints`).  There are no separators
between statements and no parentheses around operands, so an expression goes on as long as it can: it is read back in
front of the word at which it ended.
-/

namespace ScopeLint.Grammar

open Reading

variable {reading : Nat → Reading Node} {expression : Reading Node} {c : Cursor} {ws vs : List Word} {w : Word}

/-! ### Calls and fields -/

theorem argument_reprints (hexpression : ReadsExpressions reading expression) (hc : c.Lexical) :
    (argument expression).Ensures AnyFailure c fun p d =>
      d.Lexical ∧ ItemReprints (fun n => argument (reading n)) .rightParen p := by
  simp only [argument, ensures_bind, ensures_current]
  refine (label?_lexical hc).mono fun label d hd => (hexpression d hd.1).mono fun e f he => ⟨he.1, ?_⟩
  obtain ⟨first, hstart, hfirst⟩ := he.2.item (by decide : TokenKind.rightParen ∈ expressionClosers) (by decide)
  cases label with
  | none =>
    refine ⟨first, hstart, hfirst.lexed, ?_, fun n w ws hw hn => ?_⟩
    · obtain ⟨us, hus⟩ := hfirst.starts
      exact ⟨us, by rw [Node.words, hus]⟩
    have hunlabelled : Unlabelled (e.words ++ w :: ws) := by
      refine he.2.unlabelled.append ?_ hfirst.ne_nil ws
      rcases hw with hw | hw <;> rw [hw] <;> decide
    rw [Node.words] at hn ⊢
    have hread := hfirst.leads n w ws hw hn
    obtain ⟨us, hus⟩ := hfirst.starts
    rw [hus, List.cons_append] at hread hunlabelled ⊢
    refine leads_current fun t _ => leads_label?_none ?_ hunlabelled (hread.bind fun f hf => leads_pure ?_)
    · simp only [List.length_cons, List.length_append]
      omega
    · simp only [Node.Agrees, Node.withoutAscriptions, Node.same, beq_self_eq_true, Bool.and_true]
      exact hf
  | some label =>
    refine ⟨⟨.name, label⟩, TokenKind.noConfusion, ?_, ⟨_, by rw [Node.words]⟩, fun n w ws hw hn => ?_⟩
    · rw [Node.words]
      simp only [AllLexed.cons_iff]
      exact ⟨hd.2 label rfl, Word.lexed_mark (by decide), hfirst.lexed⟩
    · rw [Node.words, List.cons_append, List.cons_append] at hn ⊢
      have hread := hfirst.leads n w ws hw (by simp only [List.length_cons] at hn; omega)
      refine leads_current fun t _ => leads_label?_some (hread.bind fun f hf => leads_pure ?_)
      simp only [Node.Agrees, Node.withoutAscriptions, Node.same, beq_self_eq_true, Bool.and_true]
      exact hf

/-- A label of a field is told by its first character. -/
theorem fieldWord_text {w : Word} (hw : w.Lexed) (hk : w.kind = .name ∨ w.kind = .upName ∨ w.kind = .integer) :
    fieldWord w.text = w := by
  obtain ⟨kind, text⟩ := w
  have hcases : (kind = .name ∨ kind = .upName) ∨ kind = .integer := by simpa [or_assoc] using hk
  unfold fieldWord
  rcases hcases with hname | rfl
  · obtain ⟨hkind, -, c, cs, hlist, hdigit⟩ := hw.of_name hname
    dsimp only at hkind hlist
    simp [hlist, hdigit, hkind]
  · obtain ⟨c, cs, hlist, hdigit⟩ := hw.of_number (.inl rfl)
    dsimp only at hlist
    simp [hlist, hdigit]

/-- The words of what may stand behind an operand. -/
def Suffix.words : Suffix → List Word
  | .call _ arguments => .mark .leftParen :: (joined (.mark .comma) (wordsAll arguments) ++ [.mark .rightParen])
  | .field _ label => [.mark .dot, fieldWord label]

/-- The second suffix agrees with what a text keeps of the first one. -/
def Suffix.Agrees : Suffix → Suffix → Prop
  | .call _ arguments, .call _ arguments' => List.Forall₂ Node.Agrees arguments arguments'
  | .field _ label, .field _ label' => label = label'
  | _, _ => False

theorem words_suffixes (p : Node) (suffixes : List Suffix) :
    (suffixes.foldl Suffix.applyTo p).words = p.words ++ suffixes.flatMap Suffix.words := by
  induction suffixes generalizing p with
  | nil => rw [List.foldl_nil, List.flatMap_nil, List.append_nil]
  | cons s suffixes ih =>
    rw [List.foldl_cons, ih, List.flatMap_cons, ← List.append_assoc]
    cases s with
    | call a arguments => rw [Suffix.applyTo, Node.words, Suffix.words]
    | field a label => rw [Suffix.applyTo, Node.words, Suffix.words]

theorem agrees_suffixes {p q : Node} (h : p.Agrees q) {suffixes suffixes' : List Suffix}
    (hs : List.Forall₂ Suffix.Agrees suffixes suffixes') :
    (suffixes.foldl Suffix.applyTo p).Agrees (suffixes'.foldl Suffix.applyTo q) := by
  induction hs generalizing p q with
  | nil => exact h
  | @cons s s' _ _ hs _ ih =>
    refine ih ?_
    cases s with
    | call a arguments =>
      cases s' with
      | call b arguments' =>
        simp only [Suffix.applyTo, Node.Agrees, Node.withoutAscriptions, Node.same, Bool.and_eq_true]
        exact ⟨h, sameAll_of_agrees hs⟩
      | field b label => exact hs.elim
    | field a label =>
      cases s' with
      | call b arguments' => exact hs.elim
      | field b label' =>
        simp only [Suffix.applyTo, Node.Agrees, Node.withoutAscriptions, Node.same, Bool.and_eq_true, beq_iff_eq]
        exact ⟨h, hs.symm⟩

theorem fieldLabel_reprints (hc : c.Lexical) :
    fieldLabel.Ensures AnyFailure c fun label d => d.Lexical ∧ (fieldWord label).Lexed ∧
      ∀ v vs, fieldLabel.Leads (fieldWord label :: v :: vs) (v :: vs) fun found => found = label := by
  simp only [fieldLabel, ensures_bind, ensures_current]
  have hlabel : ∀ kind : TokenKind, kind = .name ∨ kind = .upName ∨ kind = .integer → c.current.kind = kind →
      (fieldWord c.current.text).Lexed ∧ fieldWord c.current.text = ⟨kind, c.current.text⟩ := by
    rintro kind hkind rfl
    have hword : c.current.word.Lexed := by
      refine hc c.current List.mem_cons_self ?_ ?_ <;>
      · intro hk
        rw [hk] at hkind
        simp at hkind
    have htext := fieldWord_text hword hkind
    exact ⟨htext ▸ hword, htext⟩
  split
  case h_4 => trivial
  all_goals
    next hk =>
      obtain ⟨hlexed, hword⟩ := hlabel _ (by simp) hk
      simp only [ensures_bind, ensures_advance, ensures_pure]
      refine ⟨hc.advance, hlexed, fun v vs => ?_⟩
      rw [hword]
      refine leads_current fun t ht => ?_
      rw [ht.kind]
      exact leads_advance fun _ _ => leads_pure ht.text

/-- Calls and fields are read back as long as there are any. -/
theorem suffixes_reprints (hexpression : ReadsExpressions reading expression) (hc : c.Lexical) :
    (collect (suffix expression)).Ensures AnyFailure c fun suffixes d => d.Lexical ∧ (∀ s ∈ suffixes, True) ∧
      ChainReprints (suffixes.flatMap Suffix.words) c.EndsExpression d.EndsExpression
        (fun n => collect (suffix (reading (n - 1)))) (List.Forall₂ Suffix.Agrees suffixes) := by
  refine collect_reprints (fun n => suffix (reading (n - 1))) Cursor.EndsExpression Cursor.endsExpression_self
    (fun c hc => ?_) hc
  simp only [suffix, ensures_bind, ensures_current, ensures_accepts, ensures_ite, ensures_pure, if_true,
    Bool.false_eq_true, if_false]
  split
  · next hk =>
    rw [hc.current_mark hk (by decide)]
    refine (commaList_all (fun _ hc => argument_reprints hexpression hc) hc.advance .rightParen).mono fun ps d hps => ?_
    refine hps.1.expect fun _ _ hd => ⟨hd, trivial, ?_, ⟨_, rfl⟩, fun n w ws _ hn => ?_⟩
    · simp only [Suffix.words, AllLexed.cons_iff, AllLexed.append_iff]
      exact ⟨Word.lexed_mark (by decide), .of_commas (ItemReprints.lexed hps.2), Word.lexed_mark (by decide), .nil⟩
    · simp only [Suffix.words, List.cons_append, List.append_assoc, List.nil_append, List.length_cons] at hn ⊢
      refine leads_current fun t _ => leads_accepts rfl ?_
      rw [if_pos rfl]
      have hlist : (commaList (argument (reading (n - 1))) .rightParen).Leads
          (joined (.mark .comma) (wordsAll ps) ++ .mark .rightParen :: w :: ws) (.mark .rightParen :: w :: ws)
          (List.Forall₂ Node.Agrees ps) := ItemReprints.leads (n := n - 1) hps.2 (by decide) rfl (by omega)
      exact hlist.bind fun qs hqs => leads_expectAny rfl rfl fun _ _ => leads_pure ⟨_, rfl, hqs⟩
  · next hparen =>
    split
    · next hk =>
      rw [hc.current_mark hk (by decide)]
      refine (fieldLabel_reprints hc.advance).mono fun label d hlabel => ?_
      refine ⟨hlabel.1, trivial, ?_, ⟨_, rfl⟩, fun n w ws _ _ => ?_⟩
      · simp only [Suffix.words, AllLexed.cons_iff]
        exact ⟨Word.lexed_mark (by decide), hlabel.2.1, .nil⟩
      · refine leads_current fun t _ => leads_accepts_not TokenKind.noConfusion ?_
        rw [if_neg Bool.false_ne_true]
        refine leads_accepts rfl ?_
        rw [if_pos rfl]
        exact (hlabel.2.2 w ws).bind fun found hfound => leads_pure ⟨_, rfl, hfound.symm⟩
    · next hdot =>
      refine ⟨trivial, fun n w ws hw => leads_current fun t _ => ?_⟩
      refine leads_accepts_not (hw.kind_ne hparen (by decide)) ?_
      rw [if_neg Bool.false_ne_true]
      refine leads_accepts_not (hw.kind_ne hdot (by decide)) ?_
      rw [if_neg Bool.false_ne_true]
      exact leads_pure rfl

/-! ### Tuples, lists and functions without names -/

theorem tuple_reprints (hexpression : ReadsExpressions reading expression) (hc : c.Lexical) :
    (tuple expression).Ensures AnyFailure c fun e d => d.Lexical ∧
      Reprints e.words (.mark .hash) (fun _ => True) (fun n => tuple (reading (n - 1))) e.Agrees := by
  simp only [tuple, ensures_bind, ensures_advance, ensures_pure]
  refine hc.advance.expect fun _ _ hd => ?_
  have hitem : ∀ c : Cursor, c.Lexical → expression.Ensures AnyFailure c fun e d =>
      d.Lexical ∧ ItemReprints reading .rightParen e :=
    fun c hc => (hexpression c hc).mono fun e d he => ⟨he.1, he.2.item (by decide) (by decide)⟩
  refine (commaList_all hitem hd .rightParen).mono fun es d hes => hes.1.expect fun _ _ hd => ⟨hd, ?_⟩
  refine ⟨?_, ⟨_, by rw [Node.words]⟩, fun n w ws _ hn => ?_⟩
  · simp only [Node.words, AllLexed.cons_iff, AllLexed.append_iff]
    exact ⟨Word.lexed_mark (by decide), Word.lexed_mark (by decide), .of_commas (ItemReprints.lexed hes.2),
      Word.lexed_mark (by decide), .nil⟩
  · simp only [Node.words, List.cons_append, List.append_assoc, List.nil_append, List.length_cons] at hn ⊢
    have hlist : (commaList (reading (n - 1)) .rightParen).Leads
        (joined (.mark .comma) (wordsAll es) ++ .mark .rightParen :: w :: ws) (.mark .rightParen :: w :: ws)
        (List.Forall₂ Node.Agrees es) := ItemReprints.leads hes.2 (by decide) rfl (by omega)
    refine leads_advance fun t _ => leads_expectAny rfl rfl fun _ _ => hlist.bind fun fs hfs => ?_
    refine leads_expectAny rfl rfl fun _ _ => leads_pure ?_
    rw [Node.Agrees, Node.withoutAscriptions, Node.same, sameAll_of_agrees hfs]

theorem list_reprints (hexpression : ReadsExpressions reading expression) (hc : c.Lexical) :
    (list expression).Ensures AnyFailure c fun e d => d.Lexical ∧
      Reprints e.words (.mark .leftBracket) (fun _ => True) (fun n => list (reading (n - 1))) e.Agrees := by
  simp only [list, ensures_bind, ensures_advance, ensures_pure]
  have hends : ∀ (d : Cursor) (w : Word), w.kind = .comma ∨ w.kind = .rightBracket → d.EndsExpression w := by
    rintro d w (hw | hw) <;> exact .inr (by rw [hw]; decide)
  have helement : ∀ c : Cursor, c.Lexical → expression.Ensures AnyFailure c fun e d =>
      d.Lexical ∧ ElementReprints reading e :=
    fun c hc => (hexpression c hc).mono fun e d he =>
      ⟨he.1, _, he.2.kind_ne (by decide), he.2.kind_ne (by decide), he.2.reprints.weaken (hends d)⟩
  have htail : ∀ (_ : Token) (c : Cursor), c.Lexical → expression.Ensures AnyFailure c fun e d =>
      d.Lexical ∧ TailReprints Node.words (fun n _ => reading n) e :=
    fun _ c hc => (hexpression c hc).mono fun e d he =>
      ⟨he.1, he.2.reprints.lexed, fun n _ w ws hw hn => he.2.reprints.leads n w ws (hends d w (.inr hw)) hn⟩
  refine (entries_reprint helement htail hc.advance).mono fun es d hes => hes.1.expect fun _ _ hd => ⟨hd, ?_⟩
  have hwords : ∀ anchor, (Node.list anchor (Entry.elements es) (Entry.tail? es)).words = .mark .leftBracket ::
      (entryWords (wordsAll (Entry.elements es)) ((Entry.tail? es).map Node.words) ++ [.mark .rightBracket]) := by
    intro anchor
    rw [Node.words, wordsOption_eq_map]
  refine ⟨?_, ⟨_, hwords _⟩, fun n w ws _ hn => ?_⟩
  · rw [hwords]
    simp only [AllLexed.cons_iff, AllLexed.append_iff]
    exact ⟨Word.lexed_mark (by decide), hes.2.lexed, Word.lexed_mark (by decide), .nil⟩
  · rw [hwords] at hn ⊢
    simp only [List.cons_append, List.append_assoc, List.nil_append, List.length_cons] at hn ⊢
    refine leads_advance fun _ _ => (hes.2.leads (n - 1) _ _ rfl (by omega)).bind fun fs hfs => ?_
    refine leads_expectAny rfl rfl fun _ _ => leads_pure ?_
    rw [Node.Agrees, Node.withoutAscriptions, Node.same, sameAll_of_agrees hfs.1, sameOption_of_agrees hfs.2,
      Bool.and_true]

theorem lambda_reprints (hexpression : ReadsExpressions reading expression) (hc : c.Lexical) :
    (lambda expression).Ensures AnyFailure c fun e d => d.Lexical ∧
      Reprints e.words ⟨.keyword, "fn"⟩ (fun _ => True) (fun n => lambda (reading (n - 1))) e.Agrees := by
  simp only [lambda, ensures_bind, ensures_advance, ensures_pure]
  refine hc.advance.expect fun _ _ hd => (parameters_reprints hd).mono fun ps d hps => hps.1.expect fun _ _ hd => ?_
  refine (ascriptionBehind_lexical hd .rightArrow _).mono fun _ e he => ?_
  refine (block_reprints hexpression he).mono fun body f hbody => ⟨hbody.1, ?_⟩
  have hwords : ∀ anchor, (Node.lambda anchor ps body).words = ⟨.keyword, "fn"⟩ :: .mark .leftParen ::
      (joined (.mark .comma) (wordsAll ps) ++ .mark .rightParen :: blockWords body) := by
    intro anchor
    rw [Node.words, blockWords]
  refine ⟨?_, ⟨_, hwords _⟩, fun n w ws _ hn => ?_⟩
  · simp only [hwords, AllLexed.cons_iff, AllLexed.append_iff]
    exact ⟨Word.lexed_keyword (by decide), Word.lexed_mark (by decide), .of_commas (ItemReprints.lexed hps.2),
      Word.lexed_mark (by decide), hbody.2.lexed⟩
  · simp only [hwords, List.cons_append, List.append_assoc, List.length_cons, List.length_append] at hn ⊢
    have hlist : (commaList parameter .rightParen).Leads
        (joined (.mark .comma) (wordsAll ps) ++ .mark .rightParen :: (blockWords body ++ w :: ws))
        (.mark .rightParen :: (blockWords body ++ w :: ws)) (List.Forall₂ Node.Agrees ps) := leads_parameters hps.2
    have hblock := hbody.2.leads n w ws trivial (by simp only [List.length_append, List.length_cons]; omega)
    refine leads_advance fun t _ => leads_expectAny rfl rfl fun _ _ => hlist.bind fun qs hqs => ?_
    refine leads_expectAny rfl rfl fun _ _ => leads_behind_not (w := .mark .leftBrace) TokenKind.noConfusion ?_
    refine hblock.bind fun body' hbody' => leads_pure ?_
    rw [Node.Agrees, Node.withoutAscriptions, Node.same, sameAll_of_agrees hqs, sameAll_of_agrees hbody', Bool.and_true]

/-! ### Case expressions -/

/-- An expression behind a keyword is read back, also if there is none. -/
theorem behindWord_reprints (hexpression : ReadsExpressions reading expression) {word : String} (hword : word ∈ keywords)
    (hne : word ≠ "") (hc : c.Lexical) :
    (behind (acceptsWord .keyword word) expression).Ensures AnyFailure c fun e d =>
      d.Lexical ∧ AllLexed (wordsBehind word (wordsOption e)) ∧
      ∀ n w ws, d.EndsExpression w → (wordsBehind word (wordsOption e) ++ w :: ws).length ≤ n →
        (behind (acceptsWord .keyword word) (reading n)).Leads (wordsBehind word (wordsOption e) ++ w :: ws) (w :: ws)
          (Option.Rel Node.Agrees e) := by
  rw [ensures_behind, ensures_acceptsWord]
  split
  · rw [if_pos rfl]
    refine (hexpression _ hc.advance).mono fun e d he => ⟨he.1, ?_, fun n w ws hw hn => ?_⟩
    · simp only [wordsOption, wordsBehind, AllLexed.cons_iff]
      exact ⟨Word.lexed_keyword hword, he.2.reprints.lexed⟩
    · simp only [wordsOption, wordsBehind, List.cons_append, List.length_cons] at hn ⊢
      exact leads_behindWord ((he.2.reprints.leads n w ws hw (by omega)).mono fun f hf => .some hf)
  · next hnot =>
    rw [if_neg Bool.false_ne_true]
    exact ⟨hc, .nil, fun n w ws hw _ => leads_behindWord_not (hw.ne_keyword hne hnot) .none⟩

/-- A word that ends the patterns of a clause, which may have further alternatives. -/
def EndsPatterns (w : Word) : Prop :=
  w = .mark .bar ∨ w = ⟨.keyword, "if"⟩ ∨ w = .mark .rightArrow

theorem clausePatterns_reprints (hc : c.Lexical) :
    clausePatterns.Ensures AnyFailure c fun ps d => d.Lexical ∧ ps ≠ [] ∧
      Reprints (joined (.mark .comma) (ps.map Node.words)) c.current.word EndsPatterns (fun _ => clausePatterns)
        (List.Forall₂ Node.Agrees ps) := by
  have hends : ∀ w : Word, w = .mark .comma ∨ EndsPatterns w → w.EndsPattern := by
    rintro w (rfl | rfl | rfl | rfl) <;>
    exact ⟨⟨TokenKind.noConfusion, TokenKind.noConfusion⟩, by decide⟩
  have hpattern : ∀ c : Cursor, c.Lexical → pattern.Ensures AnyFailure c fun p d => d.Lexical ∧
      Reprints p.words c.current.word (fun w => w = .mark .comma ∨ EndsPatterns w) (fun _ => pattern) p.Agrees :=
    fun c hc => (pattern_reprints c hc).mono fun p d hp =>
      ⟨hp.1, hp.2.reprints.lexed, hp.2.reprints.starts, fun n w ws hw _ => leads_pattern hp.2 (hends w hw)⟩
  refine separated_reprints hpattern hpattern (fun _ hc => accepts_lexical hc .comma) (fun ws hws => leads_accepts_true rfl hws)
    (fun w ws hw => leads_accepts_false ?_) (Word.lexed_mark (by decide)) hc
  rcases hw with rfl | rfl | rfl <;> exact TokenKind.noConfusion

theorem alternatives_reprints (hc : c.Lexical) :
    (separated clausePatterns (accepts .bar) clausePatterns).Ensures AnyFailure c fun rows d => d.Lexical ∧ rows ≠ [] ∧
      Reprints (joined (.mark .bar) (wordsRows rows)) c.current.word
        (fun w => w = ⟨.keyword, "if"⟩ ∨ w = .mark .rightArrow)
        (fun _ => separated clausePatterns (accepts .bar) clausePatterns)
        (List.Forall₂ (List.Forall₂ Node.Agrees) rows) := by
  simp only [wordsRows_eq_map]
  have hrow : ∀ c : Cursor, c.Lexical → clausePatterns.Ensures AnyFailure c fun ps d => d.Lexical ∧
      Reprints (joined (.mark .comma) (ps.map Node.words)) c.current.word EndsPatterns (fun _ => clausePatterns)
        (List.Forall₂ Node.Agrees ps) :=
    fun c hc => (clausePatterns_reprints hc).mono fun ps d hps => ⟨hps.1, hps.2.2⟩
  refine separated_reprints hrow hrow (fun _ hc => accepts_lexical hc .bar) (fun ws hws => leads_accepts_true rfl hws)
    (fun w ws hw => leads_accepts_false ?_) (Word.lexed_mark (by decide)) hc
  rcases hw with rfl | rfl <;> exact TokenKind.noConfusion

theorem clause_reprints (hexpression : ReadsExpressions reading expression) (hc : c.Lexical) :
    (clause expression).Ensures AnyFailure c fun e d => d.Lexical ∧
      Reprints e.words c.current.word d.EndsExpression (fun n => clause (reading n)) e.Agrees := by
  simp only [clause, ensures_bind, ensures_current, ensures_pure]
  refine (alternatives_reprints hc).mono fun rows d hrows => ?_
  refine (behindWord_reprints hexpression (by decide : "if" ∈ keywords) (by decide) hrows.1).mono fun guard e hguard => ?_
  refine hguard.1.expect fun _ _ hf => (hexpression _ hf).mono fun body f hbody => ⟨hbody.1, ?_⟩
  have hwords : ∀ anchor, (Node.clause anchor rows guard body).words = joined (.mark .bar) (wordsRows rows) ++
      (wordsBehind "if" (wordsOption guard) ++ .mark .rightArrow :: body.words) := by
    intro anchor
    rw [Node.words, List.append_assoc]
  obtain ⟨us, hus⟩ := hrows.2.2.starts
  refine ⟨?_, ⟨_, by rw [hwords, hus]; rfl⟩, fun n w ws hw hn => ?_⟩
  · rw [hwords]
    simp only [AllLexed.append_iff, AllLexed.cons_iff]
    exact ⟨hrows.2.2.lexed, hguard.2.1, Word.lexed_mark (by decide), hbody.2.reprints.lexed⟩
  · simp only [hwords, List.append_assoc, List.cons_append, List.length_append, List.length_cons] at hn ⊢
    have hread := hbody.2.reprints.leads n w ws hw (by simp only [List.length_append, List.length_cons]; omega)
    have hcondition := hguard.2.2 n (.mark .rightArrow) (body.words ++ w :: ws) (.inr (by decide))
      (by simp only [List.length_append, List.length_cons]; omega)
    -- Behind the alternatives stands the word of the guard, or the arrow.
    obtain ⟨v, vs, hvs, hv⟩ : ∃ v vs, wordsBehind "if" (wordsOption guard) ++ .mark .rightArrow :: (body.words ++ w :: ws) =
        v :: vs ∧ (v = ⟨.keyword, "if"⟩ ∨ v = .mark .rightArrow) := by
      cases guard with
      | none => exact ⟨_, _, rfl, .inr rfl⟩
      | some guard => exact ⟨_, _, rfl, .inl rfl⟩
    rw [hvs] at hcondition ⊢
    have halternatives := hrows.2.2.leads _ v vs hv le_rfl
    rw [hus, List.cons_append] at halternatives ⊢
    refine leads_current fun t _ => halternatives.bind fun rows' hrows' => hcondition.bind fun guard' hguard' => ?_
    refine leads_expectAny rfl rfl fun _ _ => hread.bind fun body' hbody' => leads_pure ?_
    simp only [Node.Agrees, Node.withoutAscriptions, Node.same, Bool.and_eq_true]
    exact ⟨⟨sameRows_of_agrees hrows', sameOption_of_agrees hguard'⟩, hbody'⟩

theorem choice_reprints (hexpression : ReadsExpressions reading expression) (hc : c.Lexical) :
    (choice expression).Ensures AnyFailure c fun e d => d.Lexical ∧
      Reprints e.words ⟨.keyword, "case"⟩ (fun _ => True) (fun n => choice (reading (n - 1))) e.Agrees := by
  simp only [choice, ensures_traced, ensures_bind, ensures_advance]
  have hsubject : ∀ c : Cursor, c.Lexical → expression.Ensures AnyFailure c fun e d => d.Lexical ∧
      Reprints e.words c.current.word (fun w => w = .mark .comma ∨ w = .mark .leftBrace) reading e.Agrees := by
    refine fun c hc => (hexpression c hc).mono fun e d he => ⟨he.1, he.2.reprints.weaken ?_⟩
    rintro w (rfl | rfl) <;> exact .inr (by decide)
  have hsubjects := separated_reprints hsubject hsubject (fun _ hc => accepts_lexical hc .comma)
    (fun ws hws => leads_accepts_true rfl hws)
    (fun w ws hw => leads_accepts_false (by rw [hw]; decide)) (Word.lexed_mark (by decide)) hc.advance
  refine hsubjects.mono fun es d hes => hes.1.expect fun _ _ hd => ?_
  have hclause : ∀ c : Cursor, c.Lexical → (clause expression).Ensures AnyFailure c fun e d => d.Lexical ∧
      Reprints e.words c.current.word (fun w => w = d.current.word) (fun n => clause (reading n)) e.Agrees := by
    refine fun c hc => (clause_reprints hexpression hc).mono fun e d he => ⟨he.1, he.2.weaken ?_⟩
    rintro _ rfl
    exact d.endsExpression_self
  refine (upToBrace_reprints hclause .clausesUnfinished hd).mono fun clauses e hclauses => ?_
  refine hclauses.1.expect fun hbrace _ hf => ?_
  have hword : e.current.word = .mark .rightBrace := hclauses.1.current_mark hbrace (by decide)
  rw [ensures_ite]
  split
  · trivial
  · next hsome =>
    refine ⟨hf, ?_⟩
    have hwords : ∀ anchor, (Node.choice anchor es clauses).words = ⟨.keyword, "case"⟩ ::
        (joined (.mark .comma) (es.map Node.words) ++
          .mark .leftBrace :: (clauses.flatMap Node.words ++ [.mark .rightBrace])) := by
      intro anchor
      rw [Node.words, wordsAll_eq_map, wordsAll_eq_map, List.flatMap]
    refine ⟨?_, ⟨_, hwords _⟩, fun n w ws _ hn => ?_⟩
    · simp only [hwords, AllLexed.cons_iff, AllLexed.append_iff]
      exact ⟨Word.lexed_keyword (by decide), hes.2.2.lexed, Word.lexed_mark (by decide), hclauses.2.lexed,
        Word.lexed_mark (by decide), .nil⟩
    · simp only [hwords, List.cons_append, List.append_assoc, List.nil_append, List.length_cons, List.length_append]
        at hn ⊢
      have hread := hes.2.2.leads (n - 1) (.mark .leftBrace) (clauses.flatMap Node.words ++ .mark .rightBrace :: w :: ws)
        rfl (by simp only [List.length_append, List.length_cons]; omega)
      have hread' := hclauses.2.leads (n - 1) (.mark .rightBrace) (w :: ws) hword.symm
        (by simp only [List.length_append, List.length_cons]; omega)
      refine (leads_traced _ _ _).mpr (leads_advance fun t _ => hread.bind fun fs hfs => ?_)
      refine leads_expectAny rfl rfl fun _ _ => hread'.bind fun clauses' hclauses' => leads_expectAny rfl rfl fun _ _ => ?_
      have hsome' : ¬ clauses'.isEmpty = true := by
        cases hclauses' with
        | nil => exact hsome
        | cons _ _ => exact Bool.false_ne_true
      rw [if_neg hsome']
      refine leads_pure ?_
      rw [Node.Agrees, Node.withoutAscriptions, Node.same, sameAll_of_agrees hfs, sameAll_of_agrees hclauses',
        Bool.and_true]

/-! ### Operands without signs and suffixes -/

/-- A word that stops the program is read back with its message, also if there is none. -/
theorem message_reprints (hexpression : ReadsExpressions reading expression) {word : String} (hword : word ∈ keywords)
    (hc : c.Lexical) :
    (message expression).Ensures AnyFailure c fun e d => d.Lexical ∧
      Reprints (⟨.keyword, word⟩ :: wordsBehind "as" (wordsOption e)) ⟨.keyword, word⟩ d.EndsExpression
        (fun n => message (reading (n - 1))) (Option.Rel Node.Agrees e) := by
  simp only [message, ensures_bind, ensures_advance]
  refine (behindWord_reprints hexpression (by decide : "as" ∈ keywords) (by decide) hc.advance).mono fun e d he => ?_
  refine ⟨he.1, AllLexed.cons_iff.mpr ⟨Word.lexed_keyword hword, he.2.1⟩, ⟨_, rfl⟩, fun n w ws hw hn => ?_⟩
  rw [List.cons_append, List.length_cons] at hn
  exact leads_advance fun _ _ => he.2.2 (n - 1) w ws hw (by omega)

theorem keywordExpression_reprints (hexpression : ReadsExpressions reading expression) (hc : c.Lexical)
    (hk : c.current.kind = .keyword) :
    (keywordExpression expression).Ensures AnyFailure c fun e d => d.Lexical ∧
      Reprints e.words c.current.word d.EndsExpression (fun n => keywordExpression (reading (n - 1))) e.Agrees := by
  simp only [keywordExpression, ensures_bind, ensures_current]
  have hword : ∀ value, c.current.value = some value → c.current.word = ⟨.keyword, value⟩ := by
    intro value hv
    rw [Token.word, hk, Token.text, hv, Option.getD_some]
  split
  · next hv =>
    rw [hword _ hv]
    refine (lambda_reprints hexpression hc).mono fun e d he => ⟨he.1, (he.2.weaken fun _ _ => trivial).lift ?_⟩
    intro n ws vs hread
    refine leads_current fun t ht => ?_
    rw [ht.value TokenKind.noConfusion]
    exact hread
  · next hv =>
    rw [hword _ hv]
    refine (choice_reprints hexpression hc).mono fun e d he => ⟨he.1, (he.2.weaken fun _ _ => trivial).lift ?_⟩
    intro n ws vs hread
    refine leads_current fun t ht => ?_
    rw [ht.value TokenKind.noConfusion]
    exact hread
  · next hv =>
    rw [hword _ hv]
    simp only [ensures_bind, ensures_pure]
    refine (message_reprints hexpression (by decide : "todo" ∈ keywords) hc).mono fun e d he => ⟨he.1, ?_⟩
    rw [Node.words]
    refine he.2.lift fun n ws vs hread => leads_current fun t ht => ?_
    rw [ht.value TokenKind.noConfusion]
    refine hread.bind fun f hf => leads_pure ?_
    rw [Node.Agrees, Node.withoutAscriptions, Node.same, sameOption_of_agrees hf]
  · next hv =>
    rw [hword _ hv]
    simp only [ensures_bind, ensures_pure]
    refine (message_reprints hexpression (by decide : "panic" ∈ keywords) hc).mono fun e d he => ⟨he.1, ?_⟩
    rw [Node.words]
    refine he.2.lift fun n ws vs hread => leads_current fun t ht => ?_
    rw [ht.value TokenKind.noConfusion]
    refine hread.bind fun f hf => leads_pure ?_
    rw [Node.Agrees, Node.withoutAscriptions, Node.same, sameOption_of_agrees hf]
  · trivial

theorem primary_reprints (hexpression : ReadsExpressions reading expression) (hc : c.Lexical) :
    (primary expression).Ensures AnyFailure c fun e d => d.Lexical ∧
      ExpressionReprints (fun n => primary (reading (n - 1))) c.current.word d e := by
  rw [primary, ensures_traced, ensures_bind, ensures_current]
  split
  case h_1 | h_2 | h_3 | h_4 | h_5 =>
    next hk =>
      have hlexed := hc.current_lexed hk (by decide) (by decide)
      rw [Token.word, hk]
      simp only [ensures_bind, ensures_advance, ensures_pure]
      refine ⟨hc.advance, .of_word hlexed (by rw [Node.words]) (by simp [expressionStarts]) fun n v ws => ?_⟩
      refine (leads_traced _ _ _).mpr (leads_current fun t ht => ?_)
      rw [ht.kind]
      refine leads_advance fun _ _ => leads_pure ?_
      simp [Node.Agrees, Node.withoutAscriptions, Node.same, ht.text]
  case h_6 =>
    next hk =>
      rw [hc.current_mark hk (by decide)]
      refine (tuple_reprints hexpression hc).mono fun e d he => ⟨he.1, ?_⟩
      refine .of_rule (he.2.weaken fun _ _ => trivial) (by decide) (by decide) fun n ws vs hread => ?_
      refine (leads_traced _ _ _).mpr (leads_current fun t ht => ?_)
      rw [ht.kind]
      exact hread
  case h_7 =>
    next hk =>
      rw [hc.current_mark hk (by decide)]
      refine (list_reprints hexpression hc).mono fun e d he => ⟨he.1, ?_⟩
      refine .of_rule (he.2.weaken fun _ _ => trivial) (by decide) (by decide) fun n ws vs hread => ?_
      refine (leads_traced _ _ _).mpr (leads_current fun t ht => ?_)
      rw [ht.kind]
      exact hread
  case h_8 =>
    next hk =>
      rw [hc.current_mark hk (by decide), ensures_bind]
      refine (block_reprints hexpression hc).mono fun statements d hs => ⟨hs.1, ?_⟩
      have hblock : Reprints (Node.block c.current.anchor statements).words (.mark .leftBrace) d.EndsExpression
          (fun n => primary (reading (n - 1))) (Node.block c.current.anchor statements).Agrees := by
        rw [Node.words]
        refine (hs.2.weaken fun _ _ => trivial).lift fun n ws vs hread => ?_
        refine (leads_traced _ _ _).mpr (leads_current fun t ht => ?_)
        rw [ht.kind]
        refine hread.bind fun ss hss => leads_pure ?_
        rw [Node.Agrees, Node.withoutAscriptions, Node.same, sameAll_of_agrees hss]
      exact .of_rule hblock (by decide) (by decide) fun _ _ _ hread => hread
  case h_9 =>
    next hk =>
      refine (keywordExpression_reprints hexpression hc hk).mono fun e d he => ⟨he.1, ?_⟩
      have hkind : c.current.word.kind = .keyword := hk
      refine .of_rule he.2 (by rw [hkind]; decide) (by rw [hkind]; decide) fun n ws vs hread => ?_
      refine (leads_traced _ _ _).mpr (leads_current fun t ht => ?_)
      rw [ht.kind, hkind]
      exact hread
  all_goals trivial

/-! ### Operands -/

/-- What a sign makes of an operand. -/
def IsSign (s : Node → Node) : Prop :=
  (∃ anchor, s = .minus anchor) ∨ ∃ anchor, s = .not anchor

/-- The words of a sign: those that stand before its operand. -/
def signWords (s : Node → Node) : List Word :=
  (s (.unknown .nowhere "")).words

/-- The second sign makes of operands what the first one does. -/
def SignsAgree (s s' : Node → Node) : Prop :=
  ∀ p q : Node, p.Agrees q → (s p).Agrees (s' q)

theorem signWords_cons {s : Node → Node} (h : IsSign s) :
    ∃ v : Word, v.kind ≠ .name ∧ v.kind ∈ expressionStarts ∧ signWords s = [v] ∧ ∀ p, (s p).words = v :: p.words := by
  rcases h with ⟨a, rfl⟩ | ⟨a, rfl⟩
  · exact ⟨⟨.operator, "-"⟩, TokenKind.noConfusion, by decide, by simp [signWords, Node.words], fun p => by rw [Node.words]⟩
  · exact ⟨.mark .bang, TokenKind.noConfusion, by decide, by simp [signWords, Node.words], fun p => by rw [Node.words]⟩

theorem words_signs {signs : List (Node → Node)} (hsigns : ∀ s ∈ signs, IsSign s) (p : Node) :
    (signs.foldr (fun sign node => sign node) p).words = signs.flatMap signWords ++ p.words := by
  induction signs with
  | nil => rfl
  | cons s signs ih =>
    rw [List.forall_mem_cons] at hsigns
    obtain ⟨v, -, -, hwords, hp⟩ := signWords_cons hsigns.1
    rw [List.foldr_cons, hp, ih hsigns.2, List.flatMap_cons, hwords]
    rfl

theorem agrees_signs {signs signs' : List (Node → Node)} (h : List.Forall₂ SignsAgree signs signs') {p q : Node}
    (hp : p.Agrees q) :
    (signs.foldr (fun sign node => sign node) p).Agrees (signs'.foldr (fun sign node => sign node) q) := by
  induction h with
  | nil => exact hp
  | cons hs _ ih => exact hs _ _ ih

/-- Signs are read back in front of the word at which they ended. -/
theorem signs_reprints (hc : c.Lexical) :
    (collect sign).Ensures AnyFailure c fun signs d => d.Lexical ∧ (∀ s ∈ signs, IsSign s) ∧
      ChainReprints (signs.flatMap signWords) (fun w => w = c.current.word) (fun w => w = d.current.word)
        (fun _ => collect sign) (List.Forall₂ SignsAgree signs) := by
  refine collect_reprints (fun _ => sign) (fun c w => w = c.current.word) (fun _ => rfl) (fun c hc => ?_) hc
  simp only [sign, ensures_bind, ensures_current, ensures_acceptsWord, ensures_accepts, ensures_ite, ensures_pure,
    if_true, Bool.false_eq_true, if_false]
  split
  · next hminus =>
    have htext : c.current.text = "-" := by simp [Token.text, hminus.2]
    have hlexed := hc.current_lexed hminus.1 (by decide) (by decide)
    rw [htext] at hlexed
    have hword : c.current.word = ⟨.operator, "-"⟩ := by rw [Token.word, hminus.1, htext]
    have hwords : signWords (.minus c.current.anchor) = [⟨.operator, "-"⟩] := by simp [signWords, Node.words]
    rw [hword, hwords]
    refine ⟨hc.advance, .inl ⟨_, rfl⟩, AllLexed.cons_iff.mpr ⟨hlexed, .nil⟩, ⟨[], rfl⟩, fun n w ws _ _ => ?_⟩
    refine leads_current fun t _ => leads_acceptsWord TokenKind.noConfusion ?_
    rw [if_pos rfl]
    refine leads_pure ⟨_, rfl, fun p q hp => ?_⟩
    rwa [Node.Agrees, Node.withoutAscriptions, Node.same]
  · next hminus =>
    split
    · next hbang =>
      have hwords : signWords (.not c.current.anchor) = [.mark .bang] := by simp [signWords, Node.words]
      rw [hc.current_mark hbang (by decide), hwords]
      refine ⟨hc.advance, .inr ⟨_, rfl⟩, AllLexed.cons_iff.mpr ⟨Word.lexed_mark (by decide), .nil⟩, ⟨[], rfl⟩, ?_⟩
      intro n w ws _ _
      refine leads_current fun t _ => leads_acceptsWord_not TokenKind.noConfusion (by decide) ?_
      rw [if_neg Bool.false_ne_true]
      refine leads_accepts rfl ?_
      rw [if_pos rfl]
      refine leads_pure ⟨_, rfl, fun p q hp => ?_⟩
      rwa [Node.Agrees, Node.withoutAscriptions, Node.same]
    · next hbang =>
      refine ⟨trivial, ?_⟩
      rintro n _ ws rfl
      have hword : c.current.word ≠ ⟨.operator, "-"⟩ := by
        intro hword
        exact hminus (Token.is_some_iff.mp ((Token.is_some_iff_word (by decide)).mpr hword))
      refine leads_current fun t _ => leads_acceptsWord_not TokenKind.noConfusion hword ?_
      rw [if_neg Bool.false_ne_true]
      refine leads_accepts_not hbang ?_
      rw [if_neg Bool.false_ne_true]
      exact leads_pure rfl

theorem unlabelled_suffixes {words : List Word} (h : Unlabelled words) (hwords : words ≠ []) (suffixes : List Suffix) :
    Unlabelled (words ++ suffixes.flatMap Suffix.words) := by
  cases suffixes with
  | nil => rwa [List.flatMap_nil, List.append_nil]
  | cons s suffixes =>
    rw [List.flatMap_cons]
    cases s with
    | call a arguments => exact h.append TokenKind.noConfusion hwords _
    | field a label => exact h.append TokenKind.noConfusion hwords _

theorem operand_reprints (hexpression : ReadsExpressions reading expression) (hc : c.Lexical) :
    (operand expression).Ensures AnyFailure c fun e d => d.Lexical ∧
      ExpressionReprints (fun n => operand (reading (n - 1))) c.current.word d e := by
  simp only [operand, ensures_bind, ensures_pure]
  refine (signs_reprints hc).mono ?_
  rintro signs d ⟨hd, hsigns, hsign⟩
  refine (primary_reprints hexpression hd).mono ?_
  rintro inner e ⟨he, hinner⟩
  refine (suffixes_reprints hexpression he).mono ?_
  rintro suffixes f ⟨hf, -, hsuffix⟩
  refine ⟨hf, ?_⟩
  have hwords : (signs.foldr (fun sign node => sign node) (suffixes.foldl Suffix.applyTo inner)).words =
      signs.flatMap signWords ++ (inner.words ++ suffixes.flatMap Suffix.words) := by
    rw [words_signs hsigns, words_suffixes]
  -- Without a sign the operand starts with the first word of what is inside.
  obtain ⟨us, hus⟩ := hinner.reprints.starts
  obtain ⟨_, vs, hvs, rfl⟩ := hsign.starts d.current.word (us ++ suffixes.flatMap Suffix.words) rfl
  refine ⟨⟨?_, ⟨vs, ?_⟩, fun n w ws hw hn => ?_⟩, ?_, ?_⟩
  · rw [hwords]
    simp only [AllLexed.append_iff]
    exact ⟨hsign.lexed, hinner.reprints.lexed, hsuffix.lexed⟩
  · rw [hwords, hus]
    exact hvs
  · rw [hwords, List.append_assoc, List.append_assoc] at hn ⊢
    obtain ⟨v, ws', hws', hv⟩ := hsuffix.starts w ws hw
    have hrest := hsuffix.leads n w ws hw (by simp only [List.length_append] at hn ⊢; omega)
    rw [hws'] at hn hrest ⊢
    have hread := hinner.reprints.leads n v ws' hv (by rw [List.length_append] at hn; omega)
    have hstart := hsign.leads n d.current.word (us ++ v :: ws') rfl (by rwa [hus] at hn)
    rw [hus, List.cons_append] at hread ⊢
    refine hstart.bind fun signs' hsigns' => hread.bind fun inner' hinner' => hrest.bind fun suffixes' hsuffixes' => ?_
    exact leads_pure (agrees_signs hsigns' (agrees_suffixes hinner' hsuffixes'))
  · rw [hwords]
    cases signs with
    | nil => exact unlabelled_suffixes hinner.unlabelled hinner.reprints.ne_nil suffixes
    | cons s signs =>
      obtain ⟨v, hname, -, hv, -⟩ := signWords_cons (hsigns s List.mem_cons_self)
      rw [List.flatMap_cons, hv]
      exact .of_cons hname _
  · cases signs with
    | nil =>
      obtain ⟨hword, -⟩ := List.cons.inj hvs
      exact hword ▸ hinner.starts
    | cons s signs =>
      obtain ⟨v, -, hstart, hv, -⟩ := signWords_cons (hsigns s List.mem_cons_self)
      rw [List.flatMap_cons, hv] at hvs
      obtain ⟨hword, -⟩ := List.cons.inj hvs
      exact hword ▸ hstart

/-! ### Operations -/

/-- How tightly a word binds, if it is an operator between two operands. -/
def tightnessOf (w : Word) : Option Nat :=
  if w.kind = .operator then tightness? w.text else none

/-- The words of an operator and its right operand. -/
def operationWords (operation : Token × Node) : List Word :=
  ⟨.operator, operation.1.text⟩ :: operation.2.words

/-- The second operation agrees with what a text keeps of the first one. -/
def OperationsAgree (o o' : Token × Node) : Prop :=
  o'.1.text = o.1.text ∧ o.2.Agrees o'.2

theorem words_operations (p : Node) (operations : List (Token × Node)) :
    (operationsApplied p operations).words = p.words ++ operations.flatMap operationWords := by
  induction operations generalizing p with
  | nil => rw [operationsApplied, List.foldl_nil, List.flatMap_nil, List.append_nil]
  | cons o operations ih =>
    rw [operationsApplied, List.foldl_cons, ← operationsApplied, ih, Node.words, List.flatMap_cons, List.append_assoc,
      operationWords]

theorem agrees_operations {p q : Node} (h : p.Agrees q) {operations operations' : List (Token × Node)}
    (ho : List.Forall₂ OperationsAgree operations operations') :
    (operationsApplied p operations).Agrees (operationsApplied q operations') := by
  induction ho generalizing p q with
  | nil => exact h
  | cons ho _ ih =>
    refine ih ?_
    simp only [Node.Agrees, Node.withoutAscriptions, Node.same, Bool.and_eq_true, beq_iff_eq]
    exact ⟨⟨ho.1, h⟩, ho.2⟩

theorem leads_operation {inner : Int → Reading Node} {least : Int} {tightness : Nat} (hw : tightnessOf w = some tightness)
    (hleast : ¬ (tightness : Int) < least) {good : Node → Prop} (h : (inner (tightness + 1)).Leads ws vs good)
    (hws : ws ≠ []) :
    (operation inner least).Leads (w :: ws) vs fun answer => ∃ o : Token × Node,
      answer = .more o ∧ o.1.text = w.text ∧ good o.2 := by
  refine leads_current fun t ht => ?_
  have htightness : (if t.kind = .operator then tightness? t.text else none) = some tightness := by
    rwa [ht.kind, ht.text]
  rw [htightness]
  dsimp only
  rw [if_neg hleast]
  exact (leads_advance_token hws).bind fun _ _ => h.bind fun e he => leads_pure ⟨(t, e), rfl, ht.text, he⟩

theorem leads_operation_stop {inner : Int → Reading Node} {least : Int}
    (hw : ∀ tightness, tightnessOf w = some tightness → (tightness : Int) < least) :
    (operation inner least).Leads (w :: ws) (w :: ws) fun answer => answer = .stop := by
  refine leads_current fun t ht => ?_
  have htightness : (if t.kind = .operator then tightness? t.text else none) = tightnessOf w := by
    rw [ht.kind, ht.text, tightnessOf]
  rw [htightness]
  cases hcase : tightnessOf w with
  | none => exact leads_pure rfl
  | some tightness =>
    dsimp only
    rw [if_pos (hw tightness hcase)]
    exact leads_pure rfl

/-- What may stand behind an expression binds an operand before it as the next word does, or not at all. -/
theorem tightnessOf_ends (h : c.EndsExpression w) :
    tightnessOf w = tightnessOf c.current.word ∨ tightnessOf w = none := by
  rcases h with rfl | h
  · exact .inl rfl
  · have hkind : w.kind ≠ .operator := by
      intro heq
      rw [heq] at h
      exact absurd h (by decide)
    exact .inr (if_neg hkind)

variable {readings : Nat → Int → Reading Node} {inner : Int → Reading Node}

/-- Operations are read back as long as their operators bind tightly enough. -/
theorem operations_reprints (hinner : ∀ least, ReadsExpressions (fun n => readings n least) (inner least)) (least : Int)
    (hc : c.Lexical) :
    (collect (operation inner least)).Ensures AnyFailure c fun operations d => d.Lexical ∧ (∀ o ∈ operations, True) ∧
      ChainReprints (operations.flatMap operationWords) c.EndsExpression d.EndsExpression
        (fun n => collect (operation (readings (n - 1)) least)) (List.Forall₂ OperationsAgree operations) := by
  refine collect_reprints (fun n => operation (readings (n - 1)) least) Cursor.EndsExpression
    Cursor.endsExpression_self (fun c hc => ?_) hc
  have hstop : (∀ tightness, tightnessOf c.current.word = some tightness → (tightness : Int) < least) →
      ∀ n w ws, c.EndsExpression w → (operation (readings (n - 1)) least).Leads (w :: ws) (w :: ws)
        fun answer => answer = .stop := by
    refine fun hless n w ws hw => leads_operation_stop fun tightness htightness => ?_
    rcases tightnessOf_ends hw with heq | heq
    · exact hless tightness (heq ▸ htightness)
    · rw [heq] at htightness
      cases htightness
  rw [operation, ensures_bind, ensures_current]
  split
  · next tightness htightness =>
    have hword : tightnessOf c.current.word = some tightness := htightness
    rw [ensures_ite]
    split
    · next hless =>
      refine ⟨rfl, hstop fun tightness' htightness' => ?_⟩
      obtain rfl : tightness = tightness' := Option.some.inj (hword.symm.trans htightness')
      exact hless
    · next hleast =>
      have hk : c.current.kind = .operator := by
        by_contra hk
        rw [if_neg hk] at htightness
        cases htightness
      have hcurrent : c.current.word = ⟨.operator, c.current.text⟩ := by rw [Token.word, hk]
      have hlexed := hc.current_lexed hk (by decide) (by decide)
      simp only [ensures_bind, ensures_advance, ensures_pure]
      refine (hinner _ _ hc.advance).mono fun e d he => ⟨he.1, trivial, ?_, ⟨_, by rw [operationWords, hcurrent]⟩, ?_⟩
      · exact AllLexed.cons_iff.mpr ⟨hlexed, he.2.reprints.lexed⟩
      · intro n w ws hw hn
        simp only [operationWords, List.cons_append, List.length_cons] at hn
        rw [operationWords, ← hcurrent, List.cons_append]
        have hread := he.2.reprints.leads (n - 1) w ws hw (by omega)
        refine (leads_operation hword hleast hread (by simp)).mono ?_
        rintro _ ⟨o, rfl, htext, ho⟩
        exact ⟨o, rfl, htext, ho⟩
  · next hnone =>
    refine ⟨rfl, hstop fun tightness htightness => ?_⟩
    have hword : tightnessOf c.current.word = none := hnone
    rw [hword] at htightness
    cases htightness

/-! ### Expressions -/

theorem expressionWith_reprints (hinner : ∀ least, ReadsExpressions (fun n => readings n least) (inner least))
    (least : Int) :
    ReadsExpressions (fun n => expressionWith (readings (n - 1)) least) (expressionWith inner least) := by
  intro c hc
  simp only [expressionWith, ensures_bind, ensures_pure]
  refine (operand_reprints (hinner loosest) hc).mono ?_
  rintro first d ⟨hd, hfirst⟩
  refine (operations_reprints hinner least hd).mono ?_
  rintro operations e ⟨he, -, hoperations⟩
  refine ⟨he, ?_⟩
  obtain ⟨us, hus⟩ := hfirst.reprints.starts
  refine ⟨⟨?_, ⟨_, by rw [words_operations, hus]; rfl⟩, fun n w ws hw hn => ?_⟩, ?_, hfirst.starts⟩
  · rw [words_operations, AllLexed.append_iff]
    exact ⟨hfirst.reprints.lexed, hoperations.lexed⟩
  · rw [words_operations, List.append_assoc] at hn ⊢
    obtain ⟨v, vs, hvs, hv⟩ := hoperations.starts w ws hw
    have hrest := hoperations.leads n w ws hw (by rw [List.length_append] at hn; omega)
    rw [hvs] at hn hrest ⊢
    refine (hfirst.reprints.leads n v vs hv hn).bind fun first' hfirst' => hrest.bind fun operations' hoperations' => ?_
    exact leads_pure (agrees_operations hfirst' hoperations')
  · rw [words_operations]
    cases operations with
    | nil => simpa using hfirst.unlabelled
    | cons o operations => exact hfirst.unlabelled.append TokenKind.noConfusion hfirst.reprints.ne_nil _

theorem expressionWithin_reprints (depth : Nat) (least : Int) :
    ReadsExpressions (fun n => expressionWithin n least) (expressionWithin depth least) := by
  induction depth generalizing least with
  | zero => exact fun c _ => trivial
  | succ depth ih =>
    intro c hc
    refine (expressionWith_reprints ih least c hc).mono fun e d he => ⟨he.1, ?_, he.2.unlabelled, he.2.starts⟩
    refine ⟨he.2.reprints.lexed, he.2.reprints.starts, fun n w ws hw hn => ?_⟩
    have hread := he.2.reprints.leads n w ws hw hn
    obtain ⟨n, rfl⟩ : ∃ m, n = m + 1 := by
      refine Nat.exists_eq_succ_of_ne_zero ?_
      rintro rfl
      simp at hn
    exact hread

/-- An expression is read back from its words. -/
theorem expression_reprints : ReadsExpressions (fun _ => Grammar.expression) Grammar.expression := by
  intro c hc
  rw [Grammar.expression, expressionFrom, ensures_bind, ensures_cursor]
  refine (expressionWithin_reprints _ loosest c hc).mono fun e d he => ⟨he.1, ?_, he.2.unlabelled, he.2.starts⟩
  refine ⟨he.2.reprints.lexed, he.2.reprints.starts, fun n w ws hw _ => leads_cursor fun f hf => ?_⟩
  refine he.2.reprints.leads _ w ws hw ?_
  simp only [Cursor.reach]
  omega

end ScopeLint.Grammar
