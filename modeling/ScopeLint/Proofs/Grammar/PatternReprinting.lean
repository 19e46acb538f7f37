import ScopeLint.Proofs.Grammar.Reprinting

/-!
# Printing patterns

The patterns that the rules read are read back from their words (`pattern_reprints`), in front of every word that cannot
go on a pattern.
-/

namespace ScopeLint

/-- A word that does not go on a pattern that has no name given to its whole match. -/
def Word.EndsPrimaryPattern (w : Word) : Prop :=
  w.kind ≠ .leftParen ∧ w.kind ≠ .dot

/-- A word that does not go on a pattern. -/
def Word.EndsPattern (w : Word) : Prop :=
  w.EndsPrimaryPattern ∧ w ≠ ⟨.keyword, "as"⟩

/-- The kinds of the words with which patterns start. -/
def patternStarts : List TokenKind :=
  [.name, .upName, .integer, .float, .string, .operator, .hash, .leftBracket]

/-- The words of a pattern are read back. -/
structure PatternReprints (ends : Word → Prop) (reading : Nat → Reading Node) (first : Word) (p : Node) : Prop where
  reprints : Reprints p.words first ends reading p.Agrees
  unlabelled : Unlabelled p.words
  starts : first.kind ∈ patternStarts

/-- A reading answers with patterns that are read back. -/
def ReadsPatterns (inner : Reading Node) : Prop :=
  ∀ c : Cursor, c.Lexical → inner.Ensures AnyFailure c fun p d =>
    d.Lexical ∧ PatternReprints Word.EndsPattern Grammar.patternWithin c.current.word p

theorem PatternReprints.kind_ne {ends : Word → Prop} {reading : Nat → Reading Node} {first : Word} {p : Node}
    (h : PatternReprints ends reading first p) {kind : TokenKind} (hkind : kind ∉ patternStarts) :
    first.kind ≠ kind := by
  rintro rfl
  exact hkind h.starts

/-- A pattern that is read back is not the tail that has two dots only, since its name has a character. -/
theorem PatternReprints.not_isBareTail {ends : Word → Prop} {reading : Nat → Reading Node} {first : Word} {p : Node}
    (h : PatternReprints ends reading first p) : p.isBareTail = false := by
  have hlexed := h.reprints.lexed
  unfold Node.isBareTail
  split
  · next name =>
    rw [Node.words, AllLexed.cons_iff] at hlexed
    obtain ⟨-, -, c, cs, hlist, -⟩ := hlexed.1.of_name (.inl rfl)
    rw [beq_eq_false_iff_ne]
    rintro rfl
    cases hlist
  · rfl

namespace Grammar

open Reading

variable {inner : Reading Node} {c : Cursor} {ws vs : List Word} {w : Word}

theorem patternWithin_of_pos {n : Nat} (h : 0 < n) : patternWithin n = patternWith (patternWithin (n - 1)) := by
  obtain ⟨n, rfl⟩ := Nat.exists_eq_succ_of_ne_zero (Nat.ne_of_gt h)
  rfl

/-! ### Arguments -/

/-- Words that do not start with a label are read without one. -/
theorem leads_label?_none {α : Type} {f : Option String → Reading α} {good : α → Prop} (hws : 2 ≤ ws.length)
    (h : Unlabelled ws) (hf : (f none).Leads ws vs good) : (label? >>= f).Leads ws vs good := by
  match ws, hws with
  | w :: v :: ws, _ =>
    refine Leads.bind (g := fun label => label = none) ?_ fun label hlabel => hlabel ▸ hf
    refine leads_sees (leads_seesNext ?_)
    have hnot : ¬ ((w.kind == .name) && (v.kind == .colon)) = true := by
      intro hboth
      simp only [Bool.and_eq_true, beq_iff_eq] at hboth
      exact h w v ws rfl hboth.1 hboth.2
    rw [if_neg hnot]
    exact leads_pure rfl

/-- A label is read back. -/
theorem leads_label?_some [Stand ws] {α : Type} {f : Option String → Reading α} {label : String} {good : α → Prop}
    (hf : (f (some label)).Leads ws vs good) :
    (label? >>= f).Leads (⟨.name, label⟩ :: .mark .colon :: ws) vs good := by
  refine Leads.bind (g := fun found => found = some label) ?_ fun found hfound => hfound ▸ hf
  refine leads_sees (leads_seesNext ?_)
  rw [if_pos (by rfl)]
  exact leads_advance fun t ht => leads_advance fun _ _ => leads_pure (by rw [ht.text])

theorem label?_lexical (hc : c.Lexical) :
    label?.Ensures AnyFailure c fun label d => d.Lexical ∧ ∀ name, label = some name → Word.Lexed ⟨.name, name⟩ := by
  simp only [label?, ensures_bind, ensures_sees, ensures_seesNext, ensures_ite, ensures_advance, ensures_pure]
  split
  · next h =>
    have hname := Token.is_none_iff.mp (Bool.and_eq_true_iff.mp h).1
    refine ⟨hc.advance.advance, fun name heq => ?_⟩
    rw [← Option.some.inj heq]
    exact hc.current_lexed hname (by decide) (by decide)
  · exact ⟨hc, by simp⟩

/-- A word that has one of two kinds ends a pattern if words of these kinds do. -/
theorem endsPattern_of_kind {first second : TokenKind}
    (h : ∀ kind ∈ [first, second], kind ≠ .leftParen ∧ kind ≠ .dot ∧ kind ≠ .keyword) (w : Word)
    (hw : w.kind = first ∨ w.kind = second) : w.EndsPattern := by
  have hkind : w.kind ∈ [first, second] := by simpa using hw
  obtain ⟨hparen, hdot, hkeyword⟩ := h w.kind hkind
  exact ⟨⟨hparen, hdot⟩, fun heq => hkeyword (by rw [heq])⟩

theorem item_of_pattern {first : Word} {p : Node} (h : PatternReprints Word.EndsPattern patternWithin first p)
    {closing : TokenKind} (hstart : closing ∉ patternStarts)
    (hends : ∀ kind ∈ [.comma, closing], kind ≠ .leftParen ∧ kind ≠ .dot ∧ kind ≠ .keyword) :
    ItemReprints patternWithin closing p :=
  ⟨first, h.kind_ne hstart, h.reprints.lexed, h.reprints.starts, fun n w ws hw hn =>
    h.reprints.leads n w ws (endsPattern_of_kind hends w hw) hn⟩

/-- The readings of the arguments of constructor patterns. -/
def argumentWithin (n : Nat) : Reading Node :=
  patternArgument (patternWithin n)

theorem patternArgument_reprints (hinner : ReadsPatterns inner) (hc : c.Lexical) :
    (patternArgument inner).Ensures AnyFailure c fun p d =>
      d.Lexical ∧ ItemReprints argumentWithin .rightParen p := by
  rw [patternArgument, ensures_bind]
  refine (label?_lexical hc).mono fun label d hd => (hinner d hd.1).mono fun p e he => ⟨he.1, ?_⟩
  obtain ⟨ws, hws⟩ := he.2.reprints.starts
  refine ⟨_, he.2.kind_ne (by decide), he.2.reprints.lexed, ⟨ws, hws⟩, fun n v vs hv hn => leads_label?_none ?_ ?_ ?_⟩
  · simp only [hws, List.cons_append, List.length_cons, List.length_append]
    omega
  · refine he.2.unlabelled.append ?_ he.2.reprints.ne_nil vs
    rcases hv with hv | hv <;> rw [hv] <;> decide
  · exact he.2.reprints.leads n v vs (endsPattern_of_kind (by decide) v hv) hn

theorem patternArguments_reprints (hinner : ReadsPatterns inner) (hc : c.Lexical) :
    (patternArguments inner).Ensures AnyFailure c fun ps d =>
      d.Lexical ∧ ∀ p ∈ ps, ItemReprints argumentWithin .rightParen p := by
  simp only [patternArguments, ensures_bind, ensures_accepts, ensures_ite, ensures_pure, if_true, Bool.false_eq_true,
    if_false]
  split
  · refine (commaList_all (fun c hc => patternArgument_reprints hinner hc) hc.advance .rightParen).mono fun ps d hd => ?_
    exact hd.1.expect fun _ _ he => ⟨he, hd.2⟩
  · exact ⟨hc, by simp⟩

/-- The arguments of a constructor pattern are read back, also if there are none. -/
theorem leads_patternArguments {ps : List Node} (hps : ∀ p ∈ ps, ItemReprints argumentWithin .rightParen p) {n : Nat}
    (hw : w.EndsPrimaryPattern) (hn : (argumentWords (wordsAll ps) ++ w :: ws).length ≤ n) :
    (patternArguments (patternWithin n)).Leads (argumentWords (wordsAll ps) ++ w :: ws) (w :: ws)
      (List.Forall₂ Node.Agrees ps) := by
  cases ps with
  | nil =>
    refine leads_accepts_not hw.1 ?_
    rw [if_neg Bool.false_ne_true]
    exact leads_pure .nil
  | cons p ps =>
    have hwords : argumentWords (wordsAll (p :: ps)) ++ w :: ws =
        .mark .leftParen :: (joined (.mark .comma) (wordsAll (p :: ps)) ++ .mark .rightParen :: w :: ws) := by
      simp [argumentWords, wordsAll]
    rw [hwords, List.length_cons] at hn
    rw [hwords]
    refine leads_accepts rfl ?_
    rw [if_pos rfl]
    have hitems : (commaList (argumentWithin n) .rightParen).Leads
        (joined (.mark .comma) (wordsAll (p :: ps)) ++ .mark .rightParen :: w :: ws) (.mark .rightParen :: w :: ws)
        (List.Forall₂ Node.Agrees (p :: ps)) := ItemReprints.leads hps (by decide) rfl (by omega)
    exact hitems.bind fun qs hqs => leads_expectAny rfl rfl fun _ _ => leads_pure hqs

/-! ### Primary patterns -/

/-- Primary patterns nested no deeper than a bound. -/
def primaryWithin (n : Nat) : Reading Node :=
  primaryPattern (patternWithin (n - 1))

theorem notMem_of_isNamePart {cs : List Char} (h : ∀ c ∈ cs, isNamePart c = true) {c : Char}
    (hc : isNamePart c = false) : c ∉ cs := by
  intro hmem
  rw [h c hmem] at hc
  cases hc

theorem constructorWords_qualified {home own : String} (hhome : '.' ∉ home.toList) :
    constructorWords (home ++ "." ++ own) = [⟨.name, home⟩, .mark .dot, ⟨.upName, own⟩] := by
  have hlist : (home ++ "." ++ own).toList = home.toList ++ '.' :: own.toList := by simp
  have hcs : ∀ c ∈ home.toList, decide (c ≠ '.') = true := by
    intro c hc
    exact decide_eq_true fun heq => hhome (heq ▸ hc)
  have hstop : ∀ c ∈ ('.' :: own.toList).head?, decide (c ≠ '.') = false := by simp
  unfold constructorWords
  rw [hlist, dropWhile_append_stop hcs hstop, takeWhile_append_stop hcs hstop, String.ofList_toList]
  simp only [String.ofList_toList]

theorem constructorWords_plain {own : String} (hown : '.' ∉ own.toList) :
    constructorWords own = [⟨.upName, own⟩] := by
  have hcs : ∀ c ∈ own.toList, decide (c ≠ '.') = true := by
    intro c hc
    exact decide_eq_true fun heq => hown (heq ▸ hc)
  have hdrop := dropWhile_append_stop hcs (by simp : ∀ c ∈ ([] : List Char).head?, decide (c ≠ '.') = false)
  rw [List.append_nil] at hdrop
  unfold constructorWords
  rw [hdrop]

/-- A pattern of one word is read back if the word is. -/
theorem word_reprints {w : Word} (hw : w.Lexed) (hstart : w.kind ∈ patternStarts) {p : Node} (hwords : p.words = [w])
    (hleads : ∀ n v ws, v.EndsPrimaryPattern → (primaryWithin n).Leads (w :: v :: ws) (v :: ws) p.Agrees) :
    PatternReprints Word.EndsPrimaryPattern primaryWithin w p := by
  refine ⟨⟨?_, ⟨[], hwords⟩, ?_⟩, ?_, hstart⟩
  · rw [hwords]
    simpa using hw
  · intro n v ws hv _
    rw [hwords]
    exact hleads n v ws hv
  · intro f v ws heq
    rw [hwords] at heq
    cases heq

/-- A constructor of another module is read back with its arguments. -/
private theorem qualified_reprints {home own : String} (hhome : Word.Lexed ⟨.name, home⟩)
    (hown : Word.Lexed ⟨.upName, own⟩) {ps : List Node}
    (hps : ∀ p ∈ ps, ItemReprints argumentWithin .rightParen p) (anchor : Anchor) :
    PatternReprints Word.EndsPrimaryPattern primaryWithin ⟨.name, home⟩
      (.patConstructor anchor (home ++ "." ++ own) ps) := by
  have hnodot := notMem_of_isNamePart (hhome.of_name (.inl rfl)).2.1 (by decide : isNamePart '.' = false)
  have hwords : (Node.patConstructor anchor (home ++ "." ++ own) ps).words =
      ⟨.name, home⟩ :: .mark .dot :: ⟨.upName, own⟩ :: argumentWords (wordsAll ps) := by
    rw [Node.words, constructorWords_qualified hnodot]
    rfl
  refine ⟨⟨?_, ⟨_, hwords⟩, fun n w ws hw hn => ?_⟩, ?_, by simp [patternStarts]⟩
  · rw [hwords]
    simp only [AllLexed.cons_iff]
    exact ⟨hhome, Word.lexed_mark (by decide), hown, .of_argumentWords (ItemReprints.lexed hps)⟩
  · rw [hwords] at hn ⊢
    simp only [List.cons_append, List.length_cons] at hn ⊢
    have harguments : (patternArguments (patternWithin (n - 1))).Leads (argumentWords (wordsAll ps) ++ w :: ws) (w :: ws)
        (List.Forall₂ Node.Agrees ps) := leads_patternArguments hps hw (by omega)
    refine leads_current fun t ht => ?_
    rw [ht.kind]
    refine leads_advance fun t ht => leads_sees (leads_seesNext ?_)
    rw [if_pos (by rfl)]
    refine leads_advance fun _ _ => leads_advance fun t' ht' => harguments.bind fun qs hqs => leads_pure ?_
    rw [Node.Agrees, Node.withoutAscriptions, Node.same, sameAll_of_agrees hqs, ht.text, ht'.text]
    simp
  · intro f v us heq _
    rw [hwords] at heq
    obtain ⟨-, rfl, -⟩ : _ ∧ Word.mark .dot = v ∧ _ := by simpa using heq
    decide

/-- A constructor of the module itself is read back with its arguments. -/
private theorem constructor_reprints {own : String} (hown : Word.Lexed ⟨.upName, own⟩) {ps : List Node}
    (hps : ∀ p ∈ ps, ItemReprints argumentWithin .rightParen p) (anchor : Anchor) :
    PatternReprints Word.EndsPrimaryPattern primaryWithin ⟨.upName, own⟩ (.patConstructor anchor own ps) := by
  have hnodot := notMem_of_isNamePart (hown.of_name (.inr rfl)).2.1 (by decide : isNamePart '.' = false)
  have hwords : (Node.patConstructor anchor own ps).words = ⟨.upName, own⟩ :: argumentWords (wordsAll ps) := by
    rw [Node.words, constructorWords_plain hnodot]
    rfl
  refine ⟨⟨?_, ⟨_, hwords⟩, fun n w ws hw hn => ?_⟩, ?_, by simp [patternStarts]⟩
  · rw [hwords]
    simp only [AllLexed.cons_iff]
    exact ⟨hown, .of_argumentWords (ItemReprints.lexed hps)⟩
  · rw [hwords] at hn ⊢
    simp only [List.cons_append, List.length_cons] at hn ⊢
    have harguments : (patternArguments (patternWithin (n - 1))).Leads (argumentWords (wordsAll ps) ++ w :: ws) (w :: ws)
        (List.Forall₂ Node.Agrees ps) := leads_patternArguments hps hw (by omega)
    refine leads_current fun t ht => ?_
    rw [ht.kind]
    refine leads_advance fun _ _ => harguments.bind fun qs hqs => leads_pure ?_
    rw [Node.Agrees, Node.withoutAscriptions, Node.same, sameAll_of_agrees hqs, ht.text]
    simp
  · rw [hwords]
    exact .of_cons TokenKind.noConfusion _

theorem namePattern_reprints (hinner : ReadsPatterns inner) (hc : c.Lexical) (hk : c.current.kind = .name) :
    (namePattern inner).Ensures AnyFailure c fun p d =>
      d.Lexical ∧ PatternReprints Word.EndsPrimaryPattern primaryWithin c.current.word p := by
  have hname := hc.current_lexed hk (by decide) (by decide)
  have hword : c.current.word = ⟨.name, c.current.text⟩ := by rw [Token.word, hk]
  rw [hword]
  simp only [namePattern, ensures_bind, ensures_advance, ensures_sees, ensures_seesNext, ensures_ite, ensures_pure]
  split
  · next h =>
    obtain ⟨hdot, hup⟩ := Bool.and_eq_true_iff.mp h
    have hown := hc.advance.advance.current_lexed (Cursor.kind_advance_of_next? hup) (by decide) (by decide)
    exact (patternArguments_reprints hinner hc.advance.advance.advance).mono fun ps d hd =>
      ⟨hd.1, qualified_reprints hname hown hd.2 _⟩
  · rw [ensures_valueOf]
    split
    · next name hvalue =>
      obtain rfl : c.current.text = name := by simp [Token.text, hvalue]
      -- Whether the name is bound is seen from the name alone.
      have hleads : ∀ n v ws, v.EndsPrimaryPattern →
          (primaryWithin n).Leads (⟨.name, c.current.text⟩ :: v :: ws) (v :: ws) fun q => ∃ a,
            q = if isDiscarded c.current.text then .patDiscard a c.current.text else .patName a c.current.text := by
        intro n v ws hv
        refine leads_current fun t ht => ?_
        rw [ht.kind]
        refine leads_advance fun t ht => leads_sees (leads_seesNext_any fun b => ?_)
        rw [beq_false_of_ne hv.2, Bool.false_and, if_neg Bool.false_ne_true]
        refine leads_valueOf ht (by simp) ?_
        split <;> exact leads_pure ⟨_, rfl⟩
      split
      · next hd =>
        refine ⟨hc.advance, word_reprints hname (by simp [patternStarts]) (by rw [Node.words]) fun n v ws hv => ?_⟩
        refine (hleads n v ws hv).mono ?_
        rintro q ⟨a, rfl⟩
        simp [hd, Node.Agrees, Node.withoutAscriptions, Node.same]
      · next hd =>
        refine ⟨hc.advance, word_reprints hname (by simp [patternStarts]) (by rw [Node.words]) fun n v ws hv => ?_⟩
        refine (hleads n v ws hv).mono ?_
        rintro q ⟨a, rfl⟩
        simp [hd, Node.Agrees, Node.withoutAscriptions, Node.same]
    · trivial

theorem numberWords_negated (kind : TokenKind) (digits : String) :
    numberWords kind ("-" ++ digits) = [⟨.operator, "-"⟩, ⟨kind, digits⟩] := by
  have hlist : ("-" ++ digits).toList = '-' :: digits.toList := by simp
  unfold numberWords
  rw [hlist]
  simp only [String.ofList_toList]

theorem numberWords_plain {kind : TokenKind} {digits : String} (h : Word.Lexed ⟨kind, digits⟩)
    (hk : kind = .integer ∨ kind = .float) : numberWords kind digits = [⟨kind, digits⟩] := by
  obtain ⟨c, cs, hlist, hdigit⟩ := h.of_number hk
  unfold numberWords
  split
  · next hminus =>
    rw [hlist] at hminus
    obtain ⟨rfl, -⟩ := List.cons.inj hminus
    exact absurd hdigit (by decide)
  · rfl

/-- A negated number is read back. -/
private theorem negated_reprints {kind : TokenKind} {digits : String} (hminus : Word.Lexed ⟨.operator, "-"⟩)
    (hnumber : Word.Lexed ⟨kind, digits⟩) {p : Node} (hwords : p.words = numberWords kind ("-" ++ digits))
    (hleads : ∀ v ws, negatedPattern.Leads (⟨.operator, "-"⟩ :: ⟨kind, digits⟩ :: v :: ws) (v :: ws) p.Agrees) :
    PatternReprints Word.EndsPrimaryPattern primaryWithin ⟨.operator, "-"⟩ p := by
  rw [numberWords_negated] at hwords
  refine ⟨⟨?_, ⟨_, hwords⟩, fun n w ws _ _ => ?_⟩, ?_, by simp [patternStarts]⟩
  · rw [hwords]
    simp only [AllLexed.cons_iff]
    exact ⟨hminus, hnumber, .nil⟩
  · rw [hwords]
    refine leads_current fun t ht => ?_
    rw [ht.kind]
    simp only [ht.value TokenKind.noConfusion, if_true]
    exact hleads w ws
  · rw [hwords]
    exact .of_cons TokenKind.noConfusion _

theorem negatedPattern_reprints (hc : c.Lexical) (hk : c.current.kind = .operator) (hv : c.current.value = some "-") :
    negatedPattern.Ensures AnyFailure c fun p d =>
      d.Lexical ∧ PatternReprints Word.EndsPrimaryPattern primaryWithin c.current.word p := by
  have htext : c.current.text = "-" := by simp [Token.text, hv]
  have hminus := hc.current_lexed hk (by decide) (by decide)
  rw [Token.word, hk, htext]
  rw [htext] at hminus
  simp only [negatedPattern, ensures_bind, ensures_advance, ensures_current]
  split
  · next hnumber =>
    simp only [ensures_bind, ensures_advance, ensures_valueOf, ensures_pure]
    split
    · next value hvalue =>
      have hlexed := hc.advance.current_lexed hnumber (by decide) (by decide)
      obtain rfl : c.advance.current.text = value := by simp [Token.text, hvalue]
      refine ⟨hc.advance.advance, negated_reprints hminus hlexed (by rw [Node.words]) fun v ws => ?_⟩
      refine leads_advance fun t _ => leads_current fun u hu => ?_
      rw [hu.kind]
      refine leads_advance fun _ _ => leads_valueOf hu TokenKind.noConfusion (leads_pure ?_)
      simp [Node.Agrees, Node.withoutAscriptions, Node.same]
    · trivial
  · next hnumber =>
    simp only [ensures_bind, ensures_advance, ensures_valueOf, ensures_pure]
    split
    · next value hvalue =>
      have hlexed := hc.advance.current_lexed hnumber (by decide) (by decide)
      obtain rfl : c.advance.current.text = value := by simp [Token.text, hvalue]
      refine ⟨hc.advance.advance, negated_reprints hminus hlexed (by rw [Node.words]) fun v ws => ?_⟩
      refine leads_advance fun t _ => leads_current fun u hu => ?_
      rw [hu.kind]
      refine leads_advance fun _ _ => leads_valueOf hu TokenKind.noConfusion (leads_pure ?_)
      simp [Node.Agrees, Node.withoutAscriptions, Node.same]
    · trivial
  · trivial

theorem tuplePattern_reprints (hinner : ReadsPatterns inner) (hc : c.Lexical) (hk : c.current.kind = .hash) :
    (tuplePattern inner).Ensures AnyFailure c fun p d =>
      d.Lexical ∧ PatternReprints Word.EndsPrimaryPattern primaryWithin c.current.word p := by
  rw [hc.current_mark hk (by decide)]
  simp only [tuplePattern, ensures_bind, ensures_advance, ensures_pure]
  refine hc.advance.expect fun _ _ hd => ?_
  have hitem : ∀ c : Cursor, c.Lexical → inner.Ensures AnyFailure c fun p d =>
      d.Lexical ∧ ItemReprints patternWithin .rightParen p :=
    fun c hc => (hinner c hc).mono fun p d hd => ⟨hd.1, item_of_pattern hd.2 (by decide) (by decide)⟩
  refine (commaList_all hitem hd .rightParen).mono fun ps d hps => hps.1.expect fun _ _ hd => ⟨hd, ?_⟩
  refine ⟨⟨?_, ⟨_, by rw [Node.words]⟩, fun n w ws hw hn => ?_⟩, ?_, by simp [patternStarts, Word.mark]⟩
  · simp only [Node.words, AllLexed.cons_iff, AllLexed.append_iff]
    exact ⟨Word.lexed_mark (by decide), Word.lexed_mark (by decide), .of_commas (ItemReprints.lexed hps.2),
      Word.lexed_mark (by decide), .nil⟩
  · simp only [Node.words, List.cons_append, List.append_assoc, List.nil_append, List.length_cons] at hn ⊢
    have hlist : (commaList (patternWithin (n - 1)) .rightParen).Leads
        (joined (.mark .comma) (wordsAll ps) ++ .mark .rightParen :: w :: ws) (.mark .rightParen :: w :: ws)
        (List.Forall₂ Node.Agrees ps) := ItemReprints.leads hps.2 (by decide) rfl (by omega)
    refine leads_current fun t ht => ?_
    rw [ht.kind]
    refine leads_advance fun _ _ => leads_expectAny rfl rfl fun _ _ => hlist.bind fun qs hqs => ?_
    refine leads_expectAny rfl rfl fun _ _ => leads_pure ?_
    rw [Node.Agrees, Node.withoutAscriptions, Node.same, sameAll_of_agrees hqs]
  · rw [Node.words]
    exact .of_cons TokenKind.noConfusion _

/-! ### List patterns -/

/-- The words of the tail of a list pattern. -/
def tailWordsOf (p : Node) : List Word :=
  if p.isBareTail then [] else p.words

theorem tailPattern_reprints (hinner : ReadsPatterns inner) (dots : Token) (hc : c.Lexical) :
    (tailPattern inner dots).Ensures AnyFailure c fun p d =>
      d.Lexical ∧ TailReprints tailWordsOf (fun n => tailPattern (patternWithin n)) p := by
  simp only [tailPattern, ensures_bind, ensures_sees, ensures_ite, ensures_pure]
  split
  · refine ⟨hc, .nil, fun n t w ws hw _ => leads_sees (leads_sees ?_)⟩
    rw [hw, beq_self_eq_true, Bool.true_or, if_pos rfl]
    exact leads_pure (by simp [Node.Agrees, Node.withoutAscriptions, Node.same])
  · refine (hinner c hc).mono fun p d hp => ⟨hp.1, ?_⟩
    have hwords : tailWordsOf p = p.words := by rw [tailWordsOf, hp.2.not_isBareTail, if_neg Bool.false_ne_true]
    refine ⟨by rw [hwords]; exact hp.2.reprints.lexed, fun n t w ws hw hn => ?_⟩
    have hends : w.EndsPattern :=
      endsPattern_of_kind (by decide) w (.inr hw : w.kind = .comma ∨ w.kind = .rightBracket)
    rw [hwords] at hn ⊢
    have hread := hp.2.reprints.leads n w ws hends hn
    obtain ⟨us, hus⟩ := hp.2.reprints.starts
    rw [hus, List.cons_append] at hread ⊢
    refine leads_sees (leads_sees ?_)
    rw [beq_false_of_ne (hp.2.kind_ne (by decide)), beq_false_of_ne (hp.2.kind_ne (by decide)), Bool.or_false,
      if_neg Bool.false_ne_true]
    exact hread

theorem listPattern_reprints (hinner : ReadsPatterns inner) (hc : c.Lexical) (hk : c.current.kind = .leftBracket) :
    (listPattern inner).Ensures AnyFailure c fun p d =>
      d.Lexical ∧ PatternReprints Word.EndsPrimaryPattern primaryWithin c.current.word p := by
  rw [hc.current_mark hk (by decide)]
  simp only [listPattern, ensures_bind, ensures_advance, ensures_pure]
  have hitem : ∀ c : Cursor, c.Lexical → inner.Ensures AnyFailure c fun p d =>
      d.Lexical ∧ ElementReprints patternWithin p := by
    refine fun c hc => (hinner c hc).mono fun p d hd => ⟨hd.1, _, hd.2.kind_ne (by decide), hd.2.kind_ne (by decide), ?_⟩
    exact ⟨hd.2.reprints.lexed, hd.2.reprints.starts, fun n w ws hw hn =>
      hd.2.reprints.leads n w ws (endsPattern_of_kind (by decide) w hw) hn⟩
  refine (entries_reprint hitem (fun t c hc => tailPattern_reprints hinner t hc) hc.advance).mono fun es d hes => ?_
  refine hes.1.expect fun _ _ hd => ⟨hd, ?_⟩
  have hwords : ∀ anchor, (Node.patList anchor (Entry.elements es) (Entry.tail? es)).words = .mark .leftBracket ::
      (entryWords (wordsAll (Entry.elements es)) ((Entry.tail? es).map tailWordsOf) ++ [.mark .rightBracket]) := by
    intro anchor
    rw [Node.words, tailWords_eq_map]
    rfl
  refine ⟨⟨?_, ⟨_, hwords _⟩, fun n w ws hw hn => ?_⟩, ?_, by simp [patternStarts, Word.mark]⟩
  · rw [hwords]
    simp only [AllLexed.cons_iff, AllLexed.append_iff]
    exact ⟨Word.lexed_mark (by decide), hes.2.lexed, Word.lexed_mark (by decide), .nil⟩
  · rw [hwords] at hn ⊢
    simp only [List.cons_append, List.append_assoc, List.nil_append, List.length_cons] at hn ⊢
    refine leads_current fun t ht => ?_
    rw [ht.kind]
    refine leads_advance fun _ _ => (hes.2.leads (n - 1) _ _ rfl (by omega)).bind fun fs hfs => ?_
    refine leads_expectAny rfl rfl fun _ _ => leads_pure ?_
    rw [Node.Agrees, Node.withoutAscriptions, Node.same, sameAll_of_agrees hfs.1, sameOption_of_agrees hfs.2,
      Bool.and_true]
  · rw [hwords]
    exact .of_cons TokenKind.noConfusion _

/-! ### Whole patterns -/

theorem primaryPattern_reprints (hinner : ReadsPatterns inner) (hc : c.Lexical) :
    (primaryPattern inner).Ensures AnyFailure c fun p d =>
      d.Lexical ∧ PatternReprints Word.EndsPrimaryPattern primaryWithin c.current.word p := by
  simp only [primaryPattern, ensures_bind, ensures_current]
  split
  · next hk => exact namePattern_reprints hinner hc hk
  · next hk =>
    have hown := hc.current_lexed hk (by decide) (by decide)
    rw [Token.word, hk]
    simp only [ensures_bind, ensures_advance, ensures_pure]
    exact (patternArguments_reprints hinner hc.advance).mono fun ps d hd =>
      ⟨hd.1, constructor_reprints hown hd.2 _⟩
  · next hk =>
    have hnumber := hc.current_lexed hk (by decide) (by decide)
    rw [Token.word, hk]
    simp only [ensures_bind, ensures_advance, ensures_pure]
    refine ⟨hc.advance, word_reprints hnumber (by simp [patternStarts]) ?_ fun n v ws _ => ?_⟩
    · rw [Node.words, numberWords_plain hnumber (.inl rfl)]
    · refine leads_current fun t ht => ?_
      rw [ht.kind]
      refine leads_advance fun _ _ => leads_pure ?_
      simp [Node.Agrees, Node.withoutAscriptions, Node.same, ht.text]
  · next hk =>
    have hnumber := hc.current_lexed hk (by decide) (by decide)
    rw [Token.word, hk]
    simp only [ensures_bind, ensures_advance, ensures_pure]
    refine ⟨hc.advance, word_reprints hnumber (by simp [patternStarts]) ?_ fun n v ws _ => ?_⟩
    · rw [Node.words, numberWords_plain hnumber (.inr rfl)]
    · refine leads_current fun t ht => ?_
      rw [ht.kind]
      refine leads_advance fun _ _ => leads_pure ?_
      simp [Node.Agrees, Node.withoutAscriptions, Node.same, ht.text]
  · next hk =>
    have hstring := hc.current_lexed hk (by decide) (by decide)
    rw [Token.word, hk]
    simp only [ensures_bind, ensures_advance, ensures_pure]
    refine ⟨hc.advance, word_reprints hstring (by simp [patternStarts]) (by rw [Node.words]) fun n v ws _ => ?_⟩
    refine leads_current fun t ht => ?_
    rw [ht.kind]
    refine leads_advance fun _ _ => leads_pure ?_
    simp [Node.Agrees, Node.withoutAscriptions, Node.same, ht.text]
  · next hk =>
    rw [ensures_ite]
    split
    · next hv => exact negatedPattern_reprints hc hk hv
    · trivial
  · next hk => exact tuplePattern_reprints hinner hc hk
  · next hk => exact listPattern_reprints hinner hc hk
  · trivial
  · trivial

/-- The words of the names given to the whole match of a pattern. -/
def aliasWords (names : List String) : List Word :=
  names.flatMap fun name => [⟨.keyword, "as"⟩, ⟨.name, name⟩]

theorem words_aliases (anchor : Anchor) (p : Node) (names : List String) :
    (names.foldl (.patAlias anchor) p).words = p.words ++ aliasWords names := by
  induction names generalizing p with
  | nil => rw [List.foldl_nil, aliasWords, List.flatMap_nil, List.append_nil]
  | cons name names ih =>
    rw [List.foldl_cons, ih, Node.words, List.append_assoc]
    rfl

theorem agrees_aliases {p q : Node} (h : p.Agrees q) (a b : Anchor) (names : List String) :
    (names.foldl (.patAlias a) p).Agrees (names.foldl (.patAlias b) q) := by
  induction names generalizing p q with
  | nil => exact h
  | cons name names ih =>
    refine ih ?_
    rw [Node.Agrees, Node.withoutAscriptions, Node.same, h, beq_self_eq_true, Bool.and_true]

/-- The names given to the whole match of a pattern are read back. -/
theorem leads_aliases (names : List String) (ws : List Word) (hw : w ≠ ⟨.keyword, "as"⟩) :
    (collect do
      if ← acceptsWord .keyword "as" then return .more (← expect .patternAlias).text else return .stop).Leads
      (aliasWords names ++ w :: ws) (w :: ws) fun found => found = names := by
  refine Rounds.leads ?_
  induction names with
  | nil =>
    refine .stop (leads_acceptsWord_not TokenKind.noConfusion hw ?_) rfl
    rw [if_neg Bool.false_ne_true]
    exact leads_pure rfl
  | cons name names ih =>
    obtain ⟨u, us, hu⟩ : ∃ u us, aliasWords names ++ w :: ws = u :: us := List.exists_cons_of_ne_nil (by simp)
    have hwords : aliasWords (name :: names) ++ w :: ws = ⟨.keyword, "as"⟩ :: ⟨.name, name⟩ :: u :: us := by
      rw [← hu]
      rfl
    rw [hwords]
    rw [hu] at ih
    refine .more (u :: us) (fun found => found = name) (leads_acceptsWord TokenKind.noConfusion ?_) ?_ ?_
    · rw [if_pos rfl]
      exact leads_expectAny rfl rfl fun t ht => leads_pure ⟨_, rfl, ht.text⟩
    · simp only [List.length_cons]
      omega
    · rintro _ rfl
      exact ih.mono fun found hfound => by rw [hfound]

theorem patternWith_reprints (hinner : ReadsPatterns inner) : ReadsPatterns (patternWith inner) := by
  intro c hc
  simp only [patternWith, ensures_bind, ensures_current, ensures_pure]
  refine (primaryPattern_reprints hinner hc).mono fun p d hp => ?_
  have hnames : (collect do
      if ← acceptsWord .keyword "as" then return .more (← expect .patternAlias).text else return .stop).Ensures
      AnyFailure d fun names e => e.Lexical ∧ ∀ name ∈ names, Word.Lexed ⟨.name, name⟩ := by
    refine ensures_collect (P := fun _ names e => e.Lexical ∧ ∀ name ∈ names, Word.Lexed ⟨.name, name⟩)
      (I := Cursor.Lexical) (fun c hc => ?_) hp.1
    simp only [ensures_bind, ensures_acceptsWord, ensures_ite, ensures_pure, if_true, Bool.false_eq_true, if_false]
    split
    · refine hc.advance.expect fun hname _ hd => ⟨hd, .inl trivial, fun names e hnames => ⟨hnames.1, ?_⟩⟩
      exact List.forall_mem_cons.mpr ⟨hc.advance.current_lexed hname (by decide) (by decide), hnames.2⟩
    · exact ⟨hc, by simp⟩
  refine hnames.mono fun names e hnames => ⟨hnames.1, ?_⟩
  obtain ⟨tail, htail⟩ := hp.2.reprints.starts
  refine ⟨⟨?_, ⟨_, by rw [words_aliases, htail]; rfl⟩, fun n w ws hw hn => ?_⟩, ?_, hp.2.starts⟩
  · rw [words_aliases, AllLexed.append_iff]
    refine ⟨hp.2.reprints.lexed, fun v hv => ?_⟩
    obtain ⟨name, hname, hv⟩ := List.mem_flatMap.mp hv
    rcases List.mem_cons.mp hv with rfl | hv
    · exact Word.lexed_keyword (by decide)
    · rw [List.mem_singleton.mp hv]
      exact hnames.2 name hname
  · rw [words_aliases, List.append_assoc] at hn ⊢
    -- The word behind the primary pattern is the first one before a name, or the word behind the whole.
    obtain ⟨v, vs, hvs, hv⟩ : ∃ v vs, aliasWords names ++ w :: ws = v :: vs ∧ v.EndsPrimaryPattern := by
      cases names with
      | nil => exact ⟨w, ws, rfl, hw.1⟩
      | cons name names => exact ⟨⟨.keyword, "as"⟩, _, rfl, TokenKind.noConfusion, TokenKind.noConfusion⟩
    have haliases := leads_aliases names ws hw.2
    rw [hvs] at hn haliases ⊢
    have hprimary := hp.2.reprints.leads n v vs hv hn
    have hpos : 0 < n := by
      simp only [List.length_append, List.length_cons] at hn
      omega
    rw [patternWithin_of_pos hpos]
    rw [htail, List.cons_append] at hprimary ⊢
    refine leads_current fun t _ => hprimary.bind fun q hq => haliases.bind fun found hfound => ?_
    rw [hfound]
    exact leads_pure (agrees_aliases hq _ _ names)
  · rw [words_aliases]
    cases names with
    | nil => simpa [aliasWords] using hp.2.unlabelled
    | cons name names => exact hp.2.unlabelled.append TokenKind.noConfusion (by simp [htail]) _

theorem patternWithin_reprints (n : Nat) : ReadsPatterns (patternWithin n) := by
  induction n with
  | zero => exact fun c _ => trivial
  | succ n ih => exact patternWith_reprints ih

/-- A pattern is read back from its words. -/
theorem pattern_reprints : ReadsPatterns pattern := by
  intro c hc
  rw [pattern, ensures_bind, ensures_cursor]
  exact patternWithin_reprints _ c hc

theorem leads_pattern {first : Word} {p : Node} (hp : PatternReprints Word.EndsPattern patternWithin first p)
    (hw : w.EndsPattern) : pattern.Leads (p.words ++ w :: ws) (w :: ws) p.Agrees := by
  refine leads_cursor fun c hc => hp.reprints.leads _ w ws hw ?_
  simp only [Cursor.reach]
  omega

end Grammar

end ScopeLint
