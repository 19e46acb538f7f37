import ScopeLint.Proofs.Grammar.ExpressionReprinting
import ScopeLint.Proofs.Grammar.ModuleReading

/-!
# Printing modules

The parts of a module start with words that nothing else starts with, so they are read back in any order, and the text
of a module that was read from a text is read as the module again, without its ascriptions
(`Module.ofTokens_printed`).
-/

namespace ScopeLint

/-- A word with which the next part of a module starts, or the word behind the last one. -/
def Word.StartsDefinition (w : Word) : Prop :=
  w = ⟨.keyword, "import"⟩ ∨ w = ⟨.keyword, "pub"⟩ ∨ w = ⟨.keyword, "fn"⟩ ∨ w.kind = .endOfInput

theorem mem_joined {separator w : Word} {ws : List Word} {ls : List (List Word)} (hls : ws ∈ ls) (hw : w ∈ ws) :
    w ∈ joined separator ls := by
  cases ls with
  | nil => cases hls
  | cons vs ls =>
    rw [joined_eq_flatMap]
    rcases List.mem_cons.mp hls with rfl | hls
    · exact List.mem_append_left _ hw
    · exact List.mem_append_right _ (List.mem_flatMap.mpr ⟨ws, hls, List.mem_cons_of_mem separator hw⟩)

namespace Grammar

open Reading

variable {c : Cursor} {ws vs : List Word} {w : Word}

/-! ### Names that imports bring in -/

/-- A name of either case. -/
def EitherName (name : String) : Prop :=
  Word.Lexed ⟨Lexeme.wordKind name.toList, name⟩ ∧
    (Lexeme.wordKind name.toList = .name ∨ Lexeme.wordKind name.toList = .upName)

theorem nameOr_lexical (hc : c.Lexical) (cause : FaultCause) :
    (nameOr cause).Ensures AnyFailure c fun t d => d.Lexical ∧ EitherName t.text := by
  rw [nameOr, ensures_bind, ensures_current]
  split
  case h_3 => trivial
  all_goals
    next hk =>
      have hlexed := hc.current_lexed hk (by decide) (by decide)
      obtain ⟨hkind, -⟩ := hlexed.of_name (by simp)
      dsimp only at hkind
      rw [hkind] at hlexed
      exact ⟨hc.advance, hlexed, by simp [← hkind]⟩

theorem importedName_lexical (hc : c.Lexical) :
    importedName.Ensures AnyFailure c fun name d => d.Lexical ∧ EitherName name := by
  rw [importedName, ensures_bind]
  refine (acceptsWord_lexical hc .name "type").mono fun _ d hd => ?_
  rw [ensures_bind]
  refine (nameOr_lexical hd _).mono fun t e he => ?_
  rw [ensures_bind, ensures_acceptsWord]
  split
  · rw [if_pos rfl, ensures_bind]
    exact nameOr_lexical he.1.advance _
  · exact he

/-- A name that an import brings in is read back behind the word for types. -/
theorem leads_importedName {name : String} (hname : EitherName name) (hw : w ≠ ⟨.keyword, "as"⟩) :
    importedName.Leads (⟨.name, "type"⟩ :: ⟨Lexeme.wordKind name.toList, name⟩ :: w :: ws) (w :: ws)
      fun found => found = name := by
  refine leads_acceptsWord TokenKind.noConfusion ?_
  have hread : (nameOr .noImportedName).Leads (⟨Lexeme.wordKind name.toList, name⟩ :: w :: ws) (w :: ws)
      fun t => t.text = name := by
    refine leads_current fun t ht => ?_
    rw [ht.kind]
    rcases hname.2 with hk | hk <;> rw [hk]
    · exact (leads_advance_token (by simp)).mono fun t ht => ht.text
    · exact (leads_advance_token (by simp)).mono fun t ht => ht.text
  refine hread.bind fun t ht => leads_acceptsWord_not TokenKind.noConfusion hw ?_
  rw [if_neg Bool.false_ne_true]
  exact leads_pure ht

theorem importedNames_reprints (hc : c.Lexical) :
    importedNames.Ensures AnyFailure c fun names d => d.Lexical ∧ AllLexed (importedWords names) ∧
      ∀ w ws, w.kind ≠ .dot → importedNames.Leads (importedWords names ++ w :: ws) (w :: ws) fun found => found = names := by
  simp only [importedNames, ensures_bind, ensures_sees, ensures_seesNext, ensures_ite, ensures_advance, ensures_pure]
  have hnone : ∀ (w : Word) (ws : List Word), w.kind ≠ .dot → importedNames.Leads (w :: ws) (w :: ws)
      fun found => found = [] := by
    refine fun w ws hw => leads_sees (leads_seesNext_any fun b => ?_)
    rw [beq_false_of_ne hw, Bool.false_and, if_neg Bool.false_ne_true]
    exact leads_pure rfl
  split
  · refine (commaList_all (fun _ hc => importedName_lexical hc) hc.advance.advance .rightBrace).mono fun names d hnames => ?_
    refine hnames.1.expect fun _ _ hd => ⟨hd, ?_⟩
    cases names with
    | nil => exact ⟨.nil, hnone⟩
    | cons name names =>
      have hwords : importedWords (name :: names) = .mark .dot :: .mark .leftBrace ::
          (joined (.mark .comma) ((name :: names).map importedNameWords) ++ [.mark .rightBrace]) := rfl
      refine ⟨?_, fun w ws _ => ?_⟩
      · rw [hwords]
        simp only [AllLexed.cons_iff, AllLexed.append_iff]
        refine ⟨Word.lexed_mark (by decide), Word.lexed_mark (by decide), .of_commas fun ws hws => ?_,
          Word.lexed_mark (by decide), .nil⟩
        obtain ⟨own, hown, rfl⟩ := List.mem_map.mp hws
        simp only [importedNameWords, AllLexed.cons_iff]
        exact ⟨⟨'t', ['y', 'p', 'e'], by decide⟩, (hnames.2 own hown).1, .nil⟩
      · rw [hwords]
        simp only [List.cons_append, List.append_assoc, List.nil_append]
        have hlist : (commaList importedName .rightBrace).Leads
            (joined (.mark .comma) ((name :: names).map importedNameWords) ++ .mark .rightBrace :: w :: ws)
            (.mark .rightBrace :: w :: ws) (List.Forall₂ (fun a b => b = a) (name :: names)) := by
          refine leads_commaList (by decide) (fun own hown v vs hv _ => ?_) (fun own _ => ?_) rfl le_rfl
          · refine leads_importedName (hnames.2 own hown) ?_
            rintro rfl
            rcases hv with hv | hv <;> exact TokenKind.noConfusion hv
          · exact ⟨_, _, rfl, TokenKind.noConfusion⟩
        refine leads_sees (leads_seesNext ?_)
        rw [if_pos (by rfl)]
        refine leads_advance fun _ _ => leads_advance fun _ _ => hlist.bind fun found hfound => ?_
        refine leads_expectAny rfl rfl fun _ _ => leads_pure ?_
        exact (List.forall₂_eq_eq_eq ▸ hfound.flip : found = name :: names)
  · exact ⟨hc, .nil, hnone⟩

/-! ### Imports -/

theorem segment_reprints (hc : c.Lexical) {e : Expectation} (hkind : e.kind = .name) (hvalue : e.value = none)
    {ends : Word → Prop} :
    (expect e).Ensures AnyFailure c fun t d => d.Lexical ∧
      Reprints [⟨.name, t.text⟩] c.current.word ends (fun _ => expect e) fun t' => t'.value = some t.text := by
  refine hc.expect fun hk _ hd => ?_
  rw [hkind] at hk
  have hword : c.current.word = ⟨.name, c.current.text⟩ := by rw [Token.word, hk]
  refine ⟨hd, AllLexed.cons_iff.mpr ⟨hc.current_lexed hk (by decide) (by decide), .nil⟩, ⟨[], by rw [hword]⟩, ?_⟩
  intro n w ws _ _
  refine (leads_expect_token hkind.symm (fun value hv => ?_) (by simp)).mono fun t ht => ht.value TokenKind.noConfusion
  rw [hvalue] at hv
  cases hv

/-- The words of a path are those of its segments, since there are no slashes in names. -/
theorem pathWords_intercalate {segments : List String} (hne : segments ≠ [])
    (hsegments : ∀ s ∈ segments, Word.Lexed ⟨.name, s⟩) :
    pathWords (String.intercalate "/" segments) = joined ⟨.operator, "/"⟩ (segments.map fun s => [⟨.name, s⟩]) := by
  have hlist : (String.intercalate "/" segments).toList = ['/'].intercalate (segments.map String.toList) := by
    rw [String.toList_intercalate]
    rfl
  have hnone : ∀ cs ∈ segments.map String.toList, '/' ∉ cs := by
    intro cs hcs
    obtain ⟨s, hs, rfl⟩ := List.mem_map.mp hcs
    exact notMem_of_isNamePart ((hsegments s hs).of_name (.inl rfl)).2.1 (by decide)
  rw [pathWords, hlist, List.splitOn_intercalate '/' hnone (by simpa using hne), List.map_map]
  congr 2
  funext s
  rw [Function.comp, String.ofList_toList]

theorem texts_of_values {ts us : List Token} (h : List.Forall₂ (fun t u => u.value = some t.text) ts us) :
    us.map Token.text = ts.map Token.text ∧ ∀ u ∈ us, u.value.isSome = true := by
  induction h with
  | nil => exact ⟨rfl, by simp⟩
  | cons hu _ ih =>
    refine ⟨?_, List.forall_mem_cons.mpr ⟨by rw [hu, Option.isSome_some], ih.2⟩⟩
    rw [List.map_cons, List.map_cons, ih.1, Token.text, hu, Option.getD_some]

theorem leads_mapM_valueOf {ts us : List Token} (h : List.Forall₂ (fun t u => u.value = some t.text) ts us) {β : Type}
    {f : List String → Reading β} {good : β → Prop} (hf : (f (ts.map Token.text)).Leads ws vs good) :
    (us.mapM valueOf >>= f).Leads ws vs good := by
  obtain ⟨htexts, hvalues⟩ := texts_of_values h
  refine Leads.bind (g := fun values => values = ts.map Token.text) (fun c hc => ?_) fun values hv => hv ▸ hf
  have hrun : (us.mapM valueOf).Ensures (fun _ => False) c fun values d => values = ts.map Token.text ∧ d = c :=
    ensures_mapM_valueOf (fun u hu => .inr (hvalues u hu)) ⟨htexts, rfl⟩
  unfold Ensures at hrun
  split at hrun
  · next values d heq =>
    obtain ⟨hvalues, rfl⟩ := hrun
    exact ⟨values, d, heq, hc, hvalues⟩
  · exact hrun.elim

/-- A path is read back in front of every word that is no slash. -/
theorem path_reprints (hc : c.Lexical) :
    (separated (expect .modulePath) (acceptsWord .operator "/") (expect .pathSegment)).Ensures AnyFailure c fun ts d =>
      d.Lexical ∧ ts ≠ [] ∧ Reprints (joined ⟨.operator, "/"⟩ (ts.map fun t => [⟨.name, t.text⟩])) c.current.word
        (fun w => w ≠ ⟨.operator, "/"⟩)
        (fun _ => separated (expect .modulePath) (acceptsWord .operator "/") (expect .pathSegment))
        (List.Forall₂ (fun t u => u.value = some t.text) ts) :=
  separated_reprints (fun _ hc => segment_reprints hc rfl rfl) (fun _ hc => segment_reprints hc rfl rfl)
    (fun _ hc => acceptsWord_lexical hc .operator "/") (fun _ hws => leads_acceptsWord_true TokenKind.noConfusion hws)
    (fun _ _ hw => leads_acceptsWord_false TokenKind.noConfusion hw) ⟨'/', [], by decide⟩ hc

/-- The name that an import gives to its module is read back, also if there is none. -/
theorem importAlias_reprints (hc : c.Lexical) :
    (behind (acceptsWord .keyword "as") (expect .importAlias)).Ensures AnyFailure c fun own d => d.Lexical ∧
      AllLexed (wordsBehind "as" ((own.map Token.text).map fun name => [⟨.name, name⟩])) ∧
      ∀ w ws, w ≠ ⟨.keyword, "as"⟩ → (behind (acceptsWord .keyword "as") (expect .importAlias)).Leads
        (wordsBehind "as" ((own.map Token.text).map fun name => [⟨.name, name⟩]) ++ w :: ws) (w :: ws)
        fun found => found.map Token.text = own.map Token.text := by
  rw [ensures_behind, ensures_acceptsWord]
  split
  · rw [if_pos rfl]
    refine hc.advance.expect fun hk _ hd => ⟨hd, ?_, fun w ws _ => ?_⟩
    · simp only [Option.map_some, wordsBehind, AllLexed.cons_iff]
      exact ⟨Word.lexed_keyword (by decide), hc.advance.current_lexed hk (by decide) (by decide), .nil⟩
    · refine leads_behindWord (.mono (leads_expect_token rfl (by simp [Expectation.value]) Stand.ne_nil) fun t ht => ?_)
      rw [Option.map_some, Option.map_some, ht.text]
  · rw [if_neg Bool.false_ne_true]
    exact ⟨hc, .nil, fun w ws hw => leads_behindWord_not hw rfl⟩

/-- An import is read back in front of the next part of a module. -/
theorem importing_reprints (hc : c.Lexical) :
    importing.Ensures AnyFailure c fun p d => d.Lexical ∧
      Reprints p.words ⟨.keyword, "import"⟩ Word.StartsDefinition (fun _ => importing) p.Agrees := by
  simp only [importing, ensures_traced, ensures_bind, ensures_pure]
  refine hc.expect fun _ _ hd => (path_reprints hd).mono ?_
  rintro path d ⟨hd, hne, hpath⟩
  refine (importedNames_reprints hd).mono ?_
  rintro names e ⟨he, hlexed, hnames⟩
  refine (importAlias_reprints he).mono ?_
  rintro own f ⟨hf, hlexed', hown⟩
  refine ensures_mapM_valueOf (fun _ _ => .inl trivial) ⟨hf, ?_⟩
  have hsegments : ∀ s ∈ path.map Token.text, Word.Lexed ⟨.name, s⟩ := by
    intro s hs
    obtain ⟨t, ht, rfl⟩ := List.mem_map.mp hs
    exact hpath.lexed _ (mem_joined (List.mem_map.mpr ⟨t, ht, rfl⟩) List.mem_cons_self)
  have hwords : ∀ anchor, (Node.importing anchor (String.intercalate "/" (path.map Token.text)) (own.map Token.text)
      names).words = ⟨.keyword, "import"⟩ :: (joined ⟨.operator, "/"⟩ (path.map fun t => [⟨.name, t.text⟩]) ++
        (importedWords names ++ wordsBehind "as" ((own.map Token.text).map fun name => [⟨.name, name⟩]))) := by
    intro anchor
    rw [Node.words, pathWords_intercalate (by simpa using hne) hsegments, List.map_map, List.append_assoc]
    rfl
  refine ⟨?_, ⟨_, hwords _⟩, fun n w ws hw _ => ?_⟩
  · rw [hwords]
    simp only [AllLexed.cons_iff, AllLexed.append_iff]
    exact ⟨Word.lexed_keyword (by decide), hpath.lexed, hlexed, hlexed'⟩
  · have hslash : w ≠ ⟨.operator, "/"⟩ ∧ w.kind ≠ .dot ∧ w ≠ ⟨.keyword, "as"⟩ := by
      rcases hw with rfl | rfl | rfl | hend
      · decide
      · decide
      · decide
      · refine ⟨?_, by rw [hend]; decide, ?_⟩ <;>
        · rintro rfl
          cases hend
    simp only [hwords, List.cons_append, List.append_assoc]
    -- Behind the names stands the word before the alias, or the next part of the module.
    obtain ⟨v, vs, hvs, hv⟩ : ∃ v vs, wordsBehind "as" ((own.map Token.text).map fun name => [⟨.name, name⟩]) ++ w :: ws =
        v :: vs ∧ v ≠ ⟨.operator, "/"⟩ ∧ v.kind ≠ .dot := by
      cases own with
      | none => exact ⟨w, ws, rfl, hslash.1, hslash.2.1⟩
      | some t => exact ⟨_, _, rfl, by decide, by decide⟩
    have halias := hown w ws hslash.2.2
    rw [hvs] at halias ⊢
    obtain ⟨u, us, hus, hu⟩ : ∃ u us, importedWords names ++ v :: vs = u :: us ∧ u ≠ ⟨.operator, "/"⟩ := by
      cases names with
      | nil => exact ⟨v, vs, rfl, hv.1⟩
      | cons name names => exact ⟨.mark .dot, _, rfl, by decide⟩
    have hread := hnames v vs hv.2
    rw [hus] at hread ⊢
    refine (leads_traced _ _ _).mpr (leads_expect rfl (fun value hvalue => Option.some.inj hvalue) fun t _ => ?_)
    refine (hpath.leads _ u us hu le_rfl).bind fun path' hpath' => hread.bind fun names' hnames' => ?_
    refine halias.bind fun own' hown' => leads_mapM_valueOf hpath' (leads_pure ?_)
    simp [Node.Agrees, Node.withoutAscriptions, Node.same, hnames', hown']

/-! ### Functions -/

/-- A function is read back in front of every word, without its ascription. -/
theorem function_reprints (hc : c.Lexical) :
    function.Ensures AnyFailure c fun p d => d.Lexical ∧ ∃ first : Word,
      (first = ⟨.keyword, "pub"⟩ ∨ first = ⟨.keyword, "fn"⟩) ∧
        Reprints p.words first (fun _ => True) (fun _ => function) p.Agrees := by
  simp only [function, ensures_traced, ensures_bind, ensures_current, ensures_pure]
  refine (acceptsWord_lexical hc .keyword "pub").mono fun visible d hd => hd.expect fun _ _ hd => ?_
  refine hd.expect fun hk _ hd' => hd'.expect fun _ _ hd' => (parameters_reprints hd').mono ?_
  rintro ps e ⟨he, hps⟩
  have hname : Word.Lexed ⟨.name, d.advance.current.text⟩ := hd.current_lexed hk (by decide) (by decide)
  refine he.expect fun _ _ he => (ascriptionBehind_lexical he .rightArrow _).mono fun _ f hf => ?_
  refine (block_reprints expression_reprints hf).mono ?_
  rintro body g ⟨hg, hbody⟩
  refine ⟨hg, ?_⟩
  have hwords : ∀ anchor ascription, (Node.function anchor d.advance.current.text (if visible then .pub else .priv) ps
      body ascription).words = (if visible then [⟨.keyword, "pub"⟩] else []) ++ ⟨.keyword, "fn"⟩ ::
        ⟨.name, d.advance.current.text⟩ :: .mark .leftParen ::
          (joined (.mark .comma) (wordsAll ps) ++ .mark .rightParen :: blockWords body) := by
    intro anchor ascription
    cases visible <;> simp [Node.words, blockWords]
  have hfirst : ∃ (first : Word) (us : List Word), (first = ⟨.keyword, "pub"⟩ ∨ first = ⟨.keyword, "fn"⟩) ∧
      ∀ vs : List Word, (if visible then [⟨.keyword, "pub"⟩] else []) ++ ⟨.keyword, "fn"⟩ :: vs = first :: (us ++ vs) := by
    cases visible with
    | false => exact ⟨_, [], .inr rfl, fun _ => rfl⟩
    | true => exact ⟨_, [⟨.keyword, "fn"⟩], .inl rfl, fun _ => rfl⟩
  obtain ⟨first, us, hstart, hus⟩ := hfirst
  refine ⟨first, hstart, ?_, ⟨_, by rw [hwords, hus]⟩, fun n w ws _ _ => ?_⟩
  · rw [hwords]
    simp only [AllLexed.append_iff, AllLexed.cons_iff]
    refine ⟨?_, Word.lexed_keyword (by decide), hname, Word.lexed_mark (by decide), .of_commas (ItemReprints.lexed hps),
      Word.lexed_mark (by decide), hbody.lexed⟩
    cases visible with
    | false => exact .nil
    | true => exact AllLexed.cons_iff.mpr ⟨Word.lexed_keyword (by decide), .nil⟩
  · simp only [hwords, List.append_assoc, List.cons_append]
    refine (leads_traced _ _ _).mpr (leads_current_any fun t => ?_)
    refine leads_acceptsWord_if TokenKind.noConfusion visible (by decide) ?_
    refine leads_expect rfl (fun value hvalue => Option.some.inj hvalue) fun _ _ => leads_expectAny rfl rfl fun u hu => ?_
    refine leads_expectAny rfl rfl fun _ _ => (leads_parameters hps).bind fun qs hqs => ?_
    refine leads_expectAny rfl rfl fun _ _ => leads_behind_not (w := .mark .leftBrace) TokenKind.noConfusion ?_
    refine (hbody.leads _ w ws trivial le_rfl).bind fun body' hbody' => leads_pure ?_
    rw [Node.Agrees, Node.withoutAscriptions, Node.same, sameAll_of_agrees hqs, sameAll_of_agrees hbody', hu.text]
    simp

/-! ### The parts of a module -/

/-- The words of a part of a module. -/
def Definition.words : Definition → List Word
  | .importing node | .function node => node.words

/-- The second part of a module agrees with what a text keeps of the first one. -/
def Definition.Agrees : Definition → Definition → Prop
  | .importing p, .importing q => p.Agrees q
  | .function p, .function q => p.Agrees q
  | _, _ => False

/-- A part of a module is read back in front of the next part. -/
def DefinitionReprints (a : Definition) : Prop :=
  ∃ first : Word, first.StartsDefinition ∧
    Reprints a.words first Word.StartsDefinition (fun _ => definition) fun answer => ∃ b, answer = .more b ∧ a.Agrees b

theorem definition_reprints (hc : c.Lexical) :
    definition.Ensures AnyFailure c fun answer d =>
      match answer with
      | .stop => True
      | .last _ => False
      | .more a => d.Lexical ∧ DefinitionReprints a := by
  rw [definition, ensures_bind, ensures_current, ensures_ite]
  split
  · trivial
  rw [ensures_ite]
  split
  · rw [ensures_bind]
    refine (importing_reprints hc).mono ?_
    rintro p d ⟨hd, hp⟩
    refine ⟨hd, _, .inl rfl, hp.lift fun n ws vs hread => ?_⟩
    refine leads_current fun t ht => ?_
    have hkind : t.kind ≠ .endOfInput := by rw [ht.kind]; exact TokenKind.noConfusion
    rw [if_neg hkind, ht.is_some TokenKind.noConfusion, if_pos (by simp)]
    exact hread.bind fun q hq => leads_pure ⟨_, rfl, hq⟩
  rw [ensures_ite]
  split
  · rw [ensures_bind]
    refine (function_reprints hc).mono ?_
    rintro p d ⟨hd, first, hfirst, hp⟩
    refine ⟨hd, first, .inr ?_, ?_⟩
    · exact hfirst.imp_right .inl
    refine (hp.weaken fun _ _ => trivial).lift fun n ws vs hread => leads_current fun t ht => ?_
    have hkind : t.kind ≠ .endOfInput := by
      rw [ht.kind]
      rcases hfirst with rfl | rfl <;> exact TokenKind.noConfusion
    have himport : ¬ t.is .keyword (some "import") = true := by
      rw [ht.is_some TokenKind.noConfusion]
      rcases hfirst with rfl | rfl <;> decide
    have hfunction : (t.is .keyword (some "pub") || t.is .keyword (some "fn")) = true := by
      rw [ht.is_some TokenKind.noConfusion, ht.is_some TokenKind.noConfusion]
      rcases hfirst with rfl | rfl <;> decide
    rw [if_neg hkind, if_neg himport, if_pos hfunction]
    exact hread.bind fun q hq => leads_pure ⟨_, rfl, hq⟩
  · trivial

theorem definitions_reprints (hc : c.Lexical) :
    (collect definition).Ensures AnyFailure c fun definitions _ => ∀ a ∈ definitions, DefinitionReprints a := by
  refine ensures_collect (P := fun _ definitions _ => ∀ a ∈ definitions, DefinitionReprints a) (I := Cursor.Lexical)
    (fun c hc => (definition_reprints hc).mono fun answer d h => ?_) hc
  cases answer with
  | stop => simp
  | last a => exact h.elim
  | more a => exact ⟨h.1, .inl trivial, fun as _ has => List.forall_mem_cons.mpr ⟨h.2, has⟩⟩

/-- The parts of a module are read back in every order. -/
theorem leads_definitions {definitions : List Definition} (h : ∀ a ∈ definitions, DefinitionReprints a) :
    (collect definition).Leads (definitions.flatMap Definition.words ++ [⟨.endOfInput, ""⟩]) [⟨.endOfInput, ""⟩]
      (List.Forall₂ Definition.Agrees definitions) := by
  refine Rounds.leads ?_
  induction definitions with
  | nil =>
    refine .stop (leads_current fun t ht => ?_) .nil
    rw [if_pos ht.kind]
    exact leads_pure rfl
  | cons a definitions ih =>
    rw [List.forall_mem_cons] at h
    obtain ⟨first, -, hfirst⟩ := h.1
    obtain ⟨v, vs, hvs, hv⟩ : ∃ v vs, definitions.flatMap Definition.words ++ [⟨.endOfInput, ""⟩] = v :: vs ∧
        v.StartsDefinition := by
      cases definitions with
      | nil => exact ⟨_, _, rfl, .inr (.inr (.inr rfl))⟩
      | cons b definitions =>
        obtain ⟨start, hstart, hb⟩ := h.2 b List.mem_cons_self
        obtain ⟨us, hus⟩ := hb.starts
        rw [List.flatMap_cons, hus]
        exact ⟨_, _, rfl, hstart⟩
    have hrest := ih h.2
    rw [List.flatMap_cons, List.append_assoc]
    rw [hvs] at hrest ⊢
    refine .more (v :: vs) a.Agrees (hfirst.leads _ v vs hv le_rfl) ?_ fun b hb => hrest.mono fun bs hbs => .cons hb hbs
    obtain ⟨us, hus⟩ := hfirst.starts
    simp only [hus, List.length_append, List.length_cons]
    omega

theorem imports_of_agrees {as bs : List Definition} (h : List.Forall₂ Definition.Agrees as bs) :
    List.Forall₂ Node.Agrees (Definition.imports as) (Definition.imports bs) := by
  induction h with
  | nil => exact .nil
  | @cons a b _ _ hab _ ih =>
    cases a with
    | importing p =>
      cases b with
      | importing q => exact .cons hab ih
      | function q => exact hab.elim
    | function p =>
      cases b with
      | importing q => exact hab.elim
      | function q => exact ih

theorem functions_of_agrees {as bs : List Definition} (h : List.Forall₂ Definition.Agrees as bs) :
    List.Forall₂ Node.Agrees (Definition.functions as) (Definition.functions bs) := by
  induction h with
  | nil => exact .nil
  | @cons a b _ _ hab _ ih =>
    cases a with
    | importing p =>
      cases b with
      | importing q => exact ih
      | function q => exact hab.elim
    | function p =>
      cases b with
      | importing q => exact hab.elim
      | function q => exact .cons hab ih

/-! ### Whole modules -/

/-- The parts of a module in the order of its text: imports first. -/
def Definition.inOrder (ps qs : List Node) : List Definition :=
  ps.map importing ++ qs.map function

theorem imports_inOrder (ps qs : List Node) : Definition.imports (Definition.inOrder ps qs) = ps := by
  simp [Definition.inOrder, Definition.imports, List.filterMap_append, List.filterMap_map]

theorem functions_inOrder (ps qs : List Node) : Definition.functions (Definition.inOrder ps qs) = qs := by
  simp [Definition.inOrder, Definition.functions, List.filterMap_append, List.filterMap_map]

theorem mem_of_mem_inOrder {definitions : List Definition} {a : Definition}
    (ha : a ∈ Definition.inOrder (Definition.imports definitions) (Definition.functions definitions)) :
    a ∈ definitions := by
  rcases List.mem_append.mp ha with ha | ha
  · obtain ⟨p, hp, rfl⟩ := List.mem_map.mp ha
    obtain ⟨b, hb, heq⟩ := List.mem_filterMap.mp hp
    cases b with
    | importing q =>
      cases heq
      exact hb
    | function q => cases heq
  · obtain ⟨p, hp, rfl⟩ := List.mem_map.mp ha
    obtain ⟨b, hb, heq⟩ := List.mem_filterMap.mp hp
    cases b with
    | importing q => cases heq
    | function q =>
      cases heq
      exact hb

theorem words_inOrder (anchor : Anchor) (ps qs : List Node) :
    (Definition.inOrder ps qs).flatMap Definition.words = (⟨anchor, qs, ps⟩ : Module).words := by
  rw [Module.words, Module.toNode, Node.words, wordsAll_eq_map, wordsAll_eq_map, Definition.inOrder, List.flatMap_append,
    List.flatMap_map, List.flatMap_map]
  rfl

/-- A module is read back from its words, without its ascriptions. -/
theorem wholeModule_reprints (hc : c.Lexical) :
    wholeModule.Ensures AnyFailure c fun m _ => AllLexed m.words ∧
      wholeModule.Leads (m.words ++ [⟨.endOfInput, ""⟩]) [⟨.endOfInput, ""⟩]
        fun m' => m'.toNode.same m.withoutAscriptions.toNode = true := by
  simp only [wholeModule, ensures_traced, ensures_bind, ensures_current, ensures_note, ensures_pure]
  refine (definitions_reprints hc).mono fun definitions d hdefinitions => ?_
  have hinOrder : ∀ a ∈ Definition.inOrder (Definition.imports definitions) (Definition.functions definitions),
      DefinitionReprints a := fun a ha => hdefinitions a (mem_of_mem_inOrder ha)
  rw [← words_inOrder]
  refine ⟨fun w hw => ?_, ?_⟩
  · obtain ⟨a, ha, hw⟩ := List.mem_flatMap.mp hw
    obtain ⟨first, -, hfirst⟩ := hinOrder a ha
    exact hfirst.lexed w hw
  · refine (leads_traced _ _ _).mpr (leads_current_any fun t => ?_)
    refine (leads_definitions hinOrder).bind fun found hfound => leads_note (leads_pure ?_)
    have himports := imports_of_agrees hfound
    have hfunctions := functions_of_agrees hfound
    rw [imports_inOrder] at himports
    rw [functions_inOrder] at hfunctions
    rw [Module.toNode, Module.toNode, Module.withoutAscriptions, Node.same, sameAll_of_agrees himports,
      sameAll_of_agrees hfunctions, Bool.and_true]

end Grammar

/-! ### Texts -/

/-- The tokens of a text say their words, since only the mark for the end of the input has no value. -/
theorem forall₂_says_word {ts : List Token} (h : Finished ts) : List.Forall₂ Token.Says ts (ts.map Token.word) := by
  rw [List.forall₂_map_right_iff, List.forall₂_same]
  intro t ht
  refine ⟨rfl, rfl, fun hend => ?_⟩
  obtain ⟨value, hvalue⟩ := Option.isSome_iff_exists.mp (h.valued t ht hend)
  rw [hvalue, Token.word, Token.text, hvalue, Option.getD_some]

/-- Reading undoes printing: the text of a module that was read is read as the module without its ascriptions, wherever
its nodes stand. -/
theorem Module.ofTokens_printed (text : List Char) (m : Module) (hm : Module.ofTokens (tokenize text) = .ok m) :
    ∃ m', Module.ofTokens (tokenize m.printed) = .ok m' ∧ m'.toNode.same m.withoutAscriptions.toNode = true := by
  cases htokens : tokenize text with
  | nil =>
    rw [htokens] at hm
    cases hm
  | cons t ts =>
    rw [htokens, Module.ofTokens_cons] at hm
    cases hrun : Grammar.wholeModule.run ⟨[], t, ts⟩ with
    | error failure => simp [hrun, Except.map] at hm
    | ok answer =>
      obtain ⟨m₁, d⟩ := answer
      obtain rfl : m₁ = m := by simpa [hrun, Except.map] using hm
      have hlexical : Cursor.Lexical ⟨[], t, ts⟩ := by
        intro u hu hend hvalid
        have hmem : u ∈ tokenize text := by rwa [htokens]
        exact lexed_of_mem_tokenize hmem hend hvalid
      obtain ⟨hlexed, hleads⟩ := (Grammar.wholeModule_reprints hlexical).of_run hrun
      have hwords := forall₂_says_word (finished_tokenize m₁.printed)
      rw [Module.printed, words_tokenize hlexed, ← Module.printed] at hwords
      cases hprinted : tokenize m₁.printed with
      | nil =>
        rw [hprinted] at hwords
        exact absurd (List.forall₂_nil_left_iff.mp hwords) (by simp)
      | cons t' ts' =>
        rw [hprinted] at hwords
        obtain ⟨m', d', hrun', -, hsame⟩ := hleads ⟨[], t', ts'⟩ hwords
        exact ⟨m', by rw [Module.ofTokens_cons, hrun']; rfl, hsame⟩

/-- A text whose tokens are `commaTokens`. -/
def commaText : List Char :=
  "import a.\x7bB,\x7d\nfn f(x:T)\x7bx\x7d".toList

theorem commaText_printed :
    Module.ofTokens (tokenize commaText) = .ok commaModule ∧
      ∃ m', Module.ofTokens (tokenize commaModule.printed) = .ok m' ∧
        m'.toNode.same commaModule.withoutAscriptions.toNode = true := by
  have htokens : tokenize commaText = commaTokens := by decide +kernel
  have hm : Module.ofTokens (tokenize commaText) = .ok commaModule := by
    rw [htokens]
    rfl
  exact ⟨hm, Module.ofTokens_printed commaText commaModule hm⟩

example : commaModule.printed = "import a . \x7b type B \x7d fn f ( x ) \x7b x \x7d".toList := by decide

end ScopeLint
