import Mathlib.Algebra.Order.BigOperators.Group.List
import ScopeLint.Grammar.Definition
import ScopeLint.Proofs.Grammar.ExpressionReading
import ScopeLint.Token.Scan

/-!
# Reading modules

The rules for imports, functions and modules read the spellings of their answers.  From that come two results about
token lists that end with the mark for the end of the input.

* `Module.ofTokens_spelled`: the words before the mark spell the module that is read.
* `rules_end`: every rule comes to an end, with a fault or behind tokens that it has passed over, all before the mark.
-/

namespace ScopeLint

open Spelling

/-! ### Separated members -/

theorem Spelling.separated_mono {α : Type} (separator : Language Word) {f g : α → Language Word} (h : ∀ a, f a ≤ g a)
    (as : List α) : separated separator (as.map f) ≤ separated separator (as.map g) := by
  cases as with
  | nil => exact le_refl _
  | cons a as =>
    simp only [separated, List.map_cons, List.map_map]
    refine mul_le_mul' (h a) (List.prod_le_prod' fun b _ => ?_)
    exact mul_le_mul_right (h b) separator

theorem Spelling.mem_of_mem_separated {separator : Language Word} {ls : List (Language Word)} {ws : List Word}
    (h : ws ∈ separated separator ls) {l : Language Word} (hl : l ∈ ls) : ∃ vs, vs ∈ l := by
  induction ls generalizing ws with
  | nil => exact absurd h (Language.notMem_zero ws)
  | cons m ls ih =>
    obtain ⟨us, hus, vs, hvs, rfl⟩ := Language.mem_mul.mp h
    rcases List.mem_cons.mp hl with rfl | hl
    · exact ⟨us, hus⟩
    · cases ls with
      | nil => cases hl
      | cons k ls =>
        rw [separated_cons] at h
        obtain ⟨-, -, vs, hvs, -⟩ := Language.mem_mul.mp h
        exact ih hvs hl

namespace Grammar

open Reading

variable {allowed : ReadFailure → Prop} {c d : Cursor} {l : Language Word} {n : Nat}

/-! ### Values -/

theorem ensures_mapM_valueOf {ts : List Token} (h : ∀ t ∈ ts, allowed .noToken ∨ t.value.isSome = true)
    {Q : List String → Cursor → Prop} (hQ : Q (ts.map Token.text) c) : (ts.mapM valueOf).Ensures allowed c Q := by
  have hloop : ∀ (ts : List Token) (values : List String), (∀ t ∈ ts, allowed .noToken ∨ t.value.isSome = true) →
      Q (values.reverse ++ ts.map Token.text) c → (List.mapM.loop valueOf ts values).Ensures allowed c Q := by
    intro ts
    induction ts with
    | nil =>
      intro values _ hQ
      simpa [List.mapM.loop] using hQ
    | cons t ts ih =>
      intro values h hQ
      rw [List.mapM.loop, ensures_bind, ensures_valueOf]
      split
      · next value hv =>
        refine ih _ (fun u hu => h u (List.mem_cons_of_mem t hu)) ?_
        simpa [Token.text, hv] using hQ
      · next hv => exact (h t List.mem_cons_self).resolve_right (by simp [hv])
  exact hloop ts [] h hQ

variable [Tolerant allowed]

/-! ### Imports -/

theorem nameOr_reads (hc : c.Ended allowed) (cause : FaultCause) :
    (nameOr cause).Reads allowed (fun t => eitherName t.text) c := by
  rw [Reads, nameOr, ensures_bind, ensures_current]
  split
  case h_1 hk =>
    have h := (Cursor.Reaches.start hc).advance hk (by decide)
    rw [one_mul] at h
    exact h.le le_self_add
  case h_2 hk =>
    have h := (Cursor.Reaches.start hc).advance hk (by decide)
    rw [one_mul] at h
    exact h.le le_add_self
  case h_3 => exact Tolerant.fault _

theorem eitherName_le (name : String) : eitherName name ≤ anyOf .name + anyOf .upName :=
  add_le_add (only_le_anyOf .name name) (only_le_anyOf .upName name)

theorem importedName_reads (hc : c.Ended allowed) : importedName.Reads allowed Spelling.importedName c := by
  rw [Reads, importedName, ensures_bind]
  refine (acceptsWord_reads hc .name (by decide) "type").mono fun typed d h => ?_
  replace h : c.Reaches allowed (optional (only .name "type")) d := by
    refine h.le ?_
    split
    · exact le_add_self
    · exact le_self_add
  simp only [ensures_bind, ensures_acceptsWord, ensures_ite, ensures_pure, if_true, Bool.false_eq_true, if_false]
  refine ((nameOr_reads h.ended _).behind h).mono fun name d h' => ?_
  split
  · next has =>
    refine ((nameOr_reads (h'.advanceWord has.1 has.2 (by decide)).ended _).behind
      (h'.advanceWord has.1 has.2 (by decide))).mono fun own e h => h.le ?_
    refine mul_le_mul_left ?_ _
    rw [mul_assoc]
    exact mul_le_mul_right ((mul_le_mul_left (eitherName_le name.text) _).trans le_add_self) _
  · refine h'.le (mul_le_mul_left ?_ _)
    exact le_mul_of_one_le_right' le_self_add

theorem importedNames_reads (hc : c.Ended allowed) :
    importedNames.Reads allowed Spelling.importedNames c := by
  simp only [Reads, importedNames, ensures_bind, ensures_sees, ensures_seesNext, ensures_ite, ensures_advance,
    ensures_pure]
  split
  · next hseen =>
    obtain ⟨hdot, hbrace⟩ := Bool.and_eq_true_iff.mp hseen
    have h := ((Cursor.Reaches.start hc).advanceAny (Token.is_none_iff.mp hdot) (by decide)).advanceAny
      (Cursor.kind_advance_of_next? hbrace) (by decide)
    rw [one_mul] at h
    refine ((commaList_readsWithin (fun _ hc _ => importedName_reads hc) .rightBrace).behind h
      (Nat.lt_succ_self _)).mono fun names d h => ?_
    exact (expectAny_behind h .rightBrace rfl).mono fun _ d h => h.le le_add_self
  · exact (Cursor.Reaches.start hc).le le_self_add

/-- The segments of a path have values, unless a reading may fail for a missing value. -/
private theorem segment_reads (hc : c.Ended allowed) {e : Expectation} (he : e.kind = .name) :
    (expect e).Reads allowed
      (fun t => {ws | (allowed .noToken ∨ t.value.isSome = true) ∧ ws ∈ only .name t.text}) c := by
  refine ensures_expect Tolerant.fault fun hmet => ?_
  have hk := hmet.1.trans he
  have h := (Cursor.Reaches.start hc).advance hk (by decide)
  rw [one_mul] at h
  refine h.le fun ws hws => ⟨?_, hws⟩
  exact (hc.value (by rw [hk]; decide)).imp_right fun hv => by rw [hv, Option.isSome_some]

theorem importing_reads (hc : c.Ended allowed) : importing.Reads allowed (Node.spellingAs Node.isImport) c := by
  simp only [Reads, importing, ensures_traced, ensures_bind, ensures_pure]
  refine (expectWord_behind (.start hc) .keyword rfl rfl).mono fun _ d h => ?_
  rw [one_mul] at h
  have hfirst : (expect .modulePath).ReadsWithin allowed (d.after.length + 1) _ := fun _ hc _ => segment_reads hc rfl
  have hpath := separated_readsWithin hfirst
    (fun _ hc => acceptsWord_reads hc .operator (by decide) "/") (by simp)
    (fun _ hc _ => segment_reads (e := .pathSegment) hc rfl)
  refine (hpath d h.ended (Nat.lt_succ_self _)).mono fun segments e hsegments => ?_
  have hvalued : ∀ t ∈ segments, allowed .noToken ∨ t.value.isSome = true := by
    obtain ⟨-, ts, -, -, -, hmem⟩ := hsegments
    intro t ht
    obtain ⟨-, hvs, -⟩ := mem_of_mem_separated hmem (List.mem_map_of_mem ht)
    exact hvs
  replace h := h.trans (hsegments.le (separated_mono _ (fun t ws hws => hws.2) segments))
  refine ((importedNames_reads h.ended).behind h).mono fun names e h => ?_
  have hname : (expect .importAlias).ReadsWithin allowed (e.after.length + 1) fun t => only .name t.text := by
    intro c hc _
    have h := expect_behind (.start hc) (e := .importAlias) .name rfl
    simp only [one_mul] at h
    exact h
  refine ((behindWord_readsWithin hname "as").behind h (Nat.lt_succ_self _)).mono fun asName e h => ?_
  refine ensures_mapM_valueOf hvalued (h.le ?_)
  simp only [Node.spellingAs, Node.isImport, provided, if_true, Node.spelling, Option.map_map, Function.comp_def]
  refine mul_le_mul_left (mul_le_mul_left (mul_le_mul_right ?_ _) _) _
  refine fun ws hws => ⟨segments.map Token.text, rfl, ?_⟩
  rw [List.map_map]
  exact hws

/-! ### Functions -/

theorem function_reads (hc : c.Ended allowed) : function.Reads allowed (Node.spellingAs Node.isFunction) c := by
  simp only [Reads, function, ensures_traced, ensures_bind, ensures_current, ensures_pure]
  refine (acceptsWord_reads hc .keyword (by decide) "pub").mono fun visible d h => ?_
  refine (expectWord_behind h .keyword rfl rfl).mono fun _ d h => ?_
  refine (expect_behind h .name rfl).mono fun name d h => ?_
  refine (expectAny_behind h .leftParen rfl).mono fun _ d h => ?_
  refine ((parameters_readsWithin _).behind h (Nat.lt_succ_self _)).mono fun parameters d h => ?_
  refine (expectAny_behind h .rightParen rfl).mono fun _ d h => ?_
  refine ((ascriptionBehind_reads h.ended (by decide) _).behind h).mono fun text d h => ?_
  have hexpression : expression.ReadsWithin allowed (d.after.length + 1) _ := fun _ hc _ => expression_reads hc
  refine ((block_readsWithin hexpression).behind h (by omega)).mono fun body d h => ?_
  cases visible <;>
    simpa only [Node.spellingAs, Node.isFunction, provided, if_true, Node.spelling, spellings_eq_map, if_false,
      Bool.false_eq_true] using h

/-! ### Modules -/

/-- The spellings of a part of a module. -/
def Definition.spelling : Definition → Language Word
  | importing node => node.spellingAs Node.isImport
  | function node => node.spellingAs Node.isFunction

/-- Parts of a module, spelled one after the other, spell its functions and imports. -/
theorem definitionsSpelled_of_mem {definitions : List Definition} {ws : List Word}
    (h : ws ∈ (definitions.map Definition.spelling).prod) :
    DefinitionsSpelled (Definition.functions definitions) (Definition.imports definitions) ws := by
  induction definitions generalizing ws with
  | nil =>
    obtain rfl := h
    exact .nothing
  | cons a definitions ih =>
    rw [List.map_cons, List.prod_cons] at h
    obtain ⟨us, hus, vs, hvs, rfl⟩ := Language.mem_mul.mp h
    cases a with
    | importing node =>
      have hhead := mem_provided.mp hus
      exact .importing hhead.1 hhead.2 (ih hvs)
    | function node =>
      have hhead := mem_provided.mp hus
      exact .function hhead.1 hhead.2 (ih hvs)

/-- The parts of a module are read one after the other up to the mark for the end of the input. -/
theorem definitions_reads (hc : c.Ended allowed) :
    (collect definition).Ensures allowed c fun definitions d =>
      c.Reaches allowed (definitions.map Definition.spelling).prod d ∧ d.current.kind = .endOfInput := by
  refine ensures_collect
    (P := fun c definitions d => c.Reaches allowed (definitions.map Definition.spelling).prod d ∧
        d.current.kind = .endOfInput)
    (I := fun c => c.Ended allowed) (fun c hc => ?_) hc
  simp only [definition, ensures_bind, ensures_current, ensures_ite, ensures_pure]
  split
  · next hend => exact ⟨.start hc, hend⟩
  · split
    · refine (importing_reads hc).mono fun node d h => ⟨h.ended, .inr (h.lt ?_), ?_⟩
      · exact node.nil_notMem_spellingAs Node.isImport
      · exact fun definitions e hes => ⟨h.trans hes.1, hes.2⟩
    · split
      · refine (function_reads hc).mono fun node d h => ⟨h.ended, .inr (h.lt ?_), ?_⟩
        · exact node.nil_notMem_spellingAs Node.isFunction
        · exact fun definitions e hes => ⟨h.trans hes.1, hes.2⟩
      · exact Tolerant.fault _

theorem wholeModule_reads (hc : c.Ended allowed) :
    wholeModule.Ensures allowed c fun m d =>
      c.Reaches allowed {ws | m.Spelled ws} d ∧ d.current.kind = .endOfInput := by
  simp only [wholeModule, ensures_traced, ensures_bind, ensures_current, ensures_note, ensures_pure]
  refine (definitions_reads hc).mono fun definitions d h => ⟨h.1.le fun ws hws => ?_, h.2⟩
  exact definitionsSpelled_of_mem hws

end Grammar

/-! ### What is spelled -/

/-- All failures but that of a reading without an end. -/
def ReadFailure.Ends (failure : ReadFailure) : Prop :=
  failure ≠ .endless

instance : Tolerant ReadFailure.Ends :=
  ⟨fun _ => ReadFailure.noConfusion⟩

theorem Module.ofTokens_cons (t : Token) (ts : List Token) :
    Module.ofTokens (t :: ts) = (Grammar.wholeModule.run ⟨[], t, ts⟩).map Prod.fst :=
  rfl

theorem Module.exists_of_isSome {ts : List Token} (h : (Module.ofTokens ts).toOption.isSome = true) :
    ∃ m, Module.ofTokens ts = .ok m := by
  cases hm : Module.ofTokens ts with
  | error failure =>
    rw [hm] at h
    cases h
  | ok m => exact ⟨m, rfl⟩

/-- The words before the mark for the end of the input spell the module that is read. -/
theorem Module.ofTokens_spelled (tokens : List Token) (m : Module)
    (hend : ∀ t ∈ tokens.getLast?, t.kind = .endOfInput) (hm : Module.ofTokens tokens = .ok m) :
    m.Spelled ((tokens.takeWhile fun t => t.kind ≠ .endOfInput).map Token.word) := by
  cases tokens with
  | nil => cases hm
  | cons t ts =>
    have hc : Cursor.Ended ReadFailure.Ends ⟨[], t, ts⟩ := ⟨hend, .inl ReadFailure.noConfusion⟩
    rw [Module.ofTokens_cons] at hm
    cases hrun : Grammar.wholeModule.run ⟨[], t, ts⟩ with
    | error failure => simp [hrun, Except.map] at hm
    | ok answer =>
      obtain ⟨m', d⟩ := answer
      obtain rfl : m' = m := by simpa [hrun, Except.map] using hm
      obtain ⟨⟨-, us, hahead, -, hinside, hspelled⟩, hkind⟩ := (Grammar.wholeModule_reads hc).of_run hrun
      have htake : (t :: ts).takeWhile (fun t => t.kind ≠ .endOfInput) = us := by
        rw [show t :: ts = us ++ d.ahead from hahead, List.takeWhile_append_of_pos (by simpa using hinside)]
        simp [Cursor.ahead, hkind]
      rw [htake]
      exact hspelled

/-- The tokens of an import with a needless comma and of a function whose parameter has an ascription. -/
def commaTokens : List Token :=
  [⟨.keyword, some "import", 1, 1, 0, 6⟩, ⟨.name, some "a", 1, 8, 7, 8⟩, ⟨.dot, some ".", 1, 9, 8, 9⟩,
   ⟨.leftBrace, some "\x7b", 1, 10, 9, 10⟩, ⟨.upName, some "B", 1, 11, 10, 11⟩, ⟨.comma, some ",", 1, 12, 11, 12⟩,
   ⟨.rightBrace, some "\x7d", 1, 13, 12, 13⟩, ⟨.keyword, some "fn", 2, 1, 14, 16⟩, ⟨.name, some "f", 2, 4, 17, 18⟩,
   ⟨.leftParen, some "(", 2, 5, 18, 19⟩, ⟨.name, some "x", 2, 6, 19, 20⟩, ⟨.colon, some ":", 2, 7, 20, 21⟩,
   ⟨.upName, some "T", 2, 8, 21, 22⟩, ⟨.rightParen, some ")", 2, 9, 22, 23⟩,
   ⟨.leftBrace, some "\x7b", 2, 10, 23, 24⟩, ⟨.name, some "x", 2, 11, 24, 25⟩,
   ⟨.rightBrace, some "\x7d", 2, 12, 25, 26⟩, ⟨.endOfInput, none, 2, 13, 26, 26⟩]

/-- What the tokens spell. -/
def commaModule : Module :=
  ⟨⟨some 1, some 1⟩,
    [.function ⟨some 2, some 1⟩ "f" .priv [.parameter ⟨some 2, some 6⟩ "x" none (some "T")]
      [.expression ⟨some 2, some 11⟩ (.var ⟨some 2, some 11⟩ "x")] none],
    [.importing ⟨some 1, some 1⟩ "a" none ["B"]]⟩

theorem commaTokens_spelled :
    Module.ofTokens commaTokens = .ok commaModule ∧ commaModule.Spelled (commaTokens.dropLast.map Token.word) := by
  have hm : Module.ofTokens commaTokens = .ok commaModule := by rfl
  exact ⟨hm, Module.ofTokens_spelled commaTokens commaModule (by decide) hm⟩

/-! ### Where a reading ends -/

/-- A finished token list: it ends with the mark for the end of the input, and its other tokens have values. -/
structure Finished (tokens : List Token) : Prop where
  closed : ∃ last ∈ tokens.getLast?, last.kind = .endOfInput
  valued : ∀ t ∈ tokens, t.kind ≠ .endOfInput → t.value.isSome = true

theorem finished_tokenize (text : List Char) : Finished (tokenize text) := by
  refine ⟨⟨Token.ending (scan .start text).stop, ?_, rfl⟩, ?_⟩
  · simp [tokenize, Scanned.tokens]
  · intro t ht hne
    rcases List.mem_append.mp ht with ht | ht
    · obtain ⟨piece, -, rfl⟩ := List.mem_map.mp ht
      rfl
    · exact absurd (List.mem_singleton.mp ht ▸ rfl) hne

/-- A failure that is a fault of the token list. -/
def ReadFailure.IsFault (failure : ReadFailure) : Prop :=
  ∃ fault, failure = .fault fault

instance : Tolerant ReadFailure.IsFault :=
  ⟨fun fault => ⟨fault, rfl⟩⟩

/-- A reading of a list ends with a fault, or it answers from a later token of the same list, and the mark for the end
of the input is not among the tokens that it has passed over. -/
def Reading.Advances {α : Type} (r : Reading α) (c : Cursor) : Prop :=
  r.Ensures ReadFailure.IsFault c fun _ d =>
    d.tokens = c.tokens ∧ c.index < d.index ∧ d.index < c.tokens.length ∧
      ∀ t ∈ (c.tokens.take d.index).drop c.index, t.kind ≠ .endOfInput

theorem Cursor.ended_of_finished {c : Cursor} (h : Finished c.tokens) : c.Ended ReadFailure.IsFault := by
  obtain ⟨⟨last, hlast, hend⟩, hvalued⟩ := h
  have htokens : c.tokens = c.before.reverse ++ c.ahead := rfl
  refine ⟨fun e he => ?_, .inr fun t ht hne => hvalued t ?_ hne⟩
  · have hsame : c.tokens.getLast? = c.ahead.getLast? := by
      simp [htokens, Cursor.ahead, List.getLast?_cons]
    rw [hsame] at hlast
    rw [Option.mem_unique he hlast]
    exact hend
  · rw [htokens]
    exact List.mem_append_right _ ht

/-- What a finished token list can be read as: a fault of the list, or a module that is spelled. -/
theorem Module.ofTokens_cases {ts : List Token} (hts : Finished ts) :
    (∃ fault, Module.ofTokens ts = .error (.fault fault)) ∨
      ∃ m ws, Module.ofTokens ts = .ok m ∧ m.Spelled ws := by
  cases ts with
  | nil =>
    obtain ⟨⟨_, hlast, -⟩, -⟩ := hts
    cases hlast
  | cons t ts =>
    have h := Grammar.wholeModule_reads (Cursor.ended_of_finished (c := ⟨[], t, ts⟩) hts)
    unfold Reading.Ensures at h
    rw [Module.ofTokens_cons]
    cases hrun : Grammar.wholeModule.run ⟨[], t, ts⟩ with
    | error failure =>
      rw [hrun] at h
      obtain ⟨fault, rfl⟩ := h
      exact .inl ⟨fault, rfl⟩
    | ok answer =>
      rw [hrun] at h
      obtain ⟨m, d⟩ := answer
      obtain ⟨⟨-, us, -, -, -, hspelled⟩, -⟩ := h
      exact .inr ⟨m, us.map Token.word, rfl, hspelled⟩

theorem Cursor.Reaches.advances {allowed : ReadFailure → Prop} {c d : Cursor} {l : Language Word}
    (h : c.Reaches allowed l d) (hl : [] ∉ l) :
    d.tokens = c.tokens ∧ c.index < d.index ∧ d.index < c.tokens.length ∧
      ∀ t ∈ (c.tokens.take d.index).drop c.index, t.kind ≠ .endOfInput := by
  obtain ⟨-, ts, hahead, hbefore, hinside, hmem⟩ := h
  have htokens : c.tokens = c.before.reverse ++ (ts ++ d.ahead) := by
    rw [← hahead]
    rfl
  have hindex : d.index = c.index + ts.length := by
    simp [Cursor.index, hbefore, Nat.add_comm]
  have hpos : 0 < ts.length := List.length_pos_iff.mpr fun hnil => hl (by simpa [hnil] using hmem)
  have hlength : c.before.reverse.length = c.index := List.length_reverse
  refine ⟨?_, by omega, ?_, ?_⟩
  · rw [htokens]
    show d.before.reverse ++ d.ahead = _
    rw [hbefore, List.reverse_append, List.reverse_reverse, List.append_assoc]
  · rw [htokens]
    simp only [List.length_append, hlength, Cursor.ahead, List.length_cons]
    omega
  · rw [htokens, ← List.append_assoc, List.take_left' (by rw [List.length_append]; omega), List.drop_left' hlength]
    exact hinside

/-- Every rule ends, from every token of a finished list: with a fault, or behind tokens that it has passed over, the
mark for the end of the input not among them.  Only a whole module may have no tokens. -/
theorem rules_end :
    (∀ text, Finished (tokenize text)) ∧
      ∀ c : Cursor, Finished c.tokens →
        Grammar.wholeModule.Ensures ReadFailure.IsFault c (fun _ _ => True) ∧
          Grammar.importing.Advances c ∧ Grammar.function.Advances c ∧ (Grammar.block Grammar.expression).Advances c ∧
          (Grammar.statement Grammar.expression).Advances c ∧ Grammar.pattern.Advances c ∧
          (∀ least, (Grammar.expressionFrom least).Advances c) ∧ ∀ stops, (Grammar.ascription stops).Advances c := by
  refine ⟨finished_tokenize, fun c hfinished => ?_⟩
  have hc := Cursor.ended_of_finished hfinished
  have hexpression : Grammar.expression.ReadsWithin ReadFailure.IsFault (c.after.length + 1)
      (Node.spellingAs Node.isExpression) := fun _ hd _ => Grammar.expression_reads hd
  -- What is spelled by something is behind the cursor.
  have hadvances : ∀ {r : Reading Node} {fits : Node → Bool},
      r.Reads ReadFailure.IsFault (Node.spellingAs fits) c → r.Advances c :=
    fun hr => hr.mono fun node d h => h.advances (node.nil_notMem_spellingAs _)
  refine ⟨(Grammar.wholeModule_reads hc).mono fun _ _ _ => trivial, hadvances (Grammar.importing_reads hc),
    hadvances (Grammar.function_reads hc), ?_, ?_, hadvances (Grammar.pattern_reads hc),
    fun least => hadvances (Grammar.expressionFrom_reads hc least), fun stops => ?_⟩
  · exact (Grammar.block_readsWithin hexpression c hc (by omega)).mono fun _ d h => h.advances (by simp)
  · exact hadvances (Grammar.statement_readsWithin hexpression c hc (by omega))
  · exact (Grammar.ascription_reads hc stops).mono fun _ d h => h.advances fun hnil => hnil.1 rfl

/-- A function with a binding, whose value is a block of its own, and a call behind it. -/
def nestedBlockText : List Char :=
  "fn f() \x7b let x = \x7b -1 \x7d g(x) \x7d".toList

/-- The cursor on the brace that opens the body of the function. -/
def nestedBlock : Cursor :=
  ⟨((tokenize nestedBlockText).take 4).reverse, ⟨.leftBrace, some "\x7b", 1, 8, 7, 8⟩,
    (tokenize nestedBlockText).drop 5⟩

/-- The block advances to the end of the input, over two statements and the block in the first of them. -/
theorem nestedBlock_advances :
    Finished nestedBlock.tokens ∧ (Grammar.block Grammar.expression).Advances nestedBlock ∧
      ((Grammar.block Grammar.expression).run nestedBlock).toOption.map
        (fun answer => (answer.1.length, answer.2.ahead.length)) = some (2, 1) := by
  have htokens : nestedBlock.tokens = tokenize nestedBlockText := by decide +kernel
  have hfinished : Finished nestedBlock.tokens := htokens ▸ rules_end.1 nestedBlockText
  exact ⟨hfinished, (rules_end.2 nestedBlock hfinished).2.2.2.1, by decide +kernel⟩

end ScopeLint
