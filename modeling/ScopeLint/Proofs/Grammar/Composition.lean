import ScopeLint.Proofs.Grammar.ModuleReading

/-!
# How spellings are composed

The languages of the grammar are put together in a few ways: from single words, from languages side by side and one
behind the other, from a language in a pair of brackets, and from ascriptions behind their marks
(`Spelling.Composed`).  An ascription stands in a few places only, and behind it there is always a word that it ends
before, so that it is told where the words of a language stand what is behind them.

What every way to put languages together keeps holds of the spellings of every node and of every module.  Brackets come
in pairs only, and invalid words not at all, but for the insides of ascriptions.
-/

namespace ScopeLint

namespace TokenKind

/-- The kind of the bracket that closes what a bracket opens. -/
def closing? : TokenKind → Option TokenKind
  | leftParen => some rightParen
  | leftBracket => some rightBracket
  | leftBrace => some rightBrace
  | _ => none

/-- Words of this kind may stand by themselves: they are valid and no brackets. -/
def isPlain (kind : TokenKind) : Bool :=
  !kind.opens && !kind.closes && kind != .invalid

end TokenKind

namespace Spelling

/-- The marks that ascriptions stand behind, and for each place the kinds of the words that an ascription ends before:
in a binding, behind a pattern of a use, behind a parameter and before a body. -/
def ascriptionPlaces : List (TokenKind × List TokenKind) :=
  [(.colon, [.equal]), (.colon, [.comma, .leftArrow]), (.colon, [.comma, .rightParen]), (.rightArrow, [.leftBrace])]

theorem mark_of_ascriptionPlaces {mark : TokenKind} {stops : List TokenKind} (h : (mark, stops) ∈ ascriptionPlaces) :
    mark = .colon ∨ mark = .rightArrow := by
  simp only [ascriptionPlaces, List.mem_cons, Prod.mk.injEq, List.not_mem_nil, or_false] at h
  tauto

theorem invalid_notMem_of_ascriptionPlaces {mark : TokenKind} {stops : List TokenKind}
    (h : (mark, stops) ∈ ascriptionPlaces) : .invalid ∉ stops := by
  simp only [ascriptionPlaces, List.mem_cons, Prod.mk.injEq, List.not_mem_nil, or_false] at h
  rcases h with ⟨-, rfl⟩ | ⟨-, rfl⟩ | ⟨-, rfl⟩ | ⟨-, rfl⟩ <;> decide

/-- The first of some words is of one of the first kinds.  If there are no words it is the one behind them, which is of
one of the next kinds. -/
def Begins (first next : Set TokenKind) (ws : List Word) : Prop :=
  (∀ w ∈ ws.head?, w.kind ∈ first) ∧ (ws = [] → next ⊆ first)

/-- All words of a language begin with the first kinds. -/
def Leads (first next : Set TokenKind) (l : Language Word) : Prop :=
  ∀ ws ∈ l, Begins first next ws

/-- A language that is put together as the languages of the grammar are, where words of the next kinds stand behind
it. -/
inductive Composed : Set TokenKind → Language Word → Prop where
  | union {next : Set TokenKind} {ι : Type} {part : ι → Language Word} (parts : ∀ i, Composed next (part i)) :
      Composed next (⨆ i, part i)
  | one {next : Set TokenKind} : Composed next 1
  | led {first next : Set TokenKind} {l m : Language Word} (left : Composed first l) (right : Composed next m)
      (leads : Leads first next m) : Composed next (l * m)
  | only {next : Set TokenKind} {kind : TokenKind} (plain : kind.isPlain = true) (text : String) :
      Composed next (only kind text)
  | bracketed {next : Set TokenKind} {opening closing : TokenKind} {l : Language Word}
      (pair : opening.closing? = some closing) (inner : Composed {closing} l) :
      Composed next (anyOf opening * l * anyOf closing)
  | ascription {next : Set TokenKind} {mark : TokenKind} {stops : List TokenKind}
      (place : (mark, stops) ∈ ascriptionPlaces) (ends : next ⊆ {kind | kind ∈ stops}) :
      Composed next (anyOf mark * ascription stops)

variable {first mid next : Set TokenKind} {l m : Language Word} {us vs : List Word}

/-! ### What words begin with -/

theorem Begins.univ : Begins Set.univ next us :=
  ⟨fun _ _ => trivial, fun _ => Set.subset_univ next⟩

theorem Begins.append (h : Begins first mid us) (h' : Begins mid next vs) : Begins first next (us ++ vs) := by
  cases us with
  | nil => exact ⟨fun w hw => h.2 rfl (h'.1 w hw), fun hvs => (h'.2 hvs).trans (h.2 rfl)⟩
  | cons u us => exact ⟨h.1, fun hvs => absurd hvs (List.cons_ne_nil _ _)⟩

theorem Begins.mono (h : Begins first next us) (hle : mid ⊆ next) : Begins first mid us :=
  ⟨h.1, fun hus => hle.trans (h.2 hus)⟩

namespace Leads

theorem univ : Leads Set.univ next l :=
  fun _ _ => .univ

theorem anyOf {kind : TokenKind} (h : kind ∈ first) : Leads first next (Spelling.anyOf kind) := by
  rintro ws ⟨text, rfl⟩
  exact ⟨fun w hw => Option.some.inj hw ▸ h, fun hnil => absurd hnil (List.cons_ne_nil _ _)⟩

theorem mul (hl : Leads first mid l) (hm : Leads mid next m) : Leads first next (l * m) := by
  intro ws hws
  obtain ⟨us, hus, vs, hvs, rfl⟩ := Language.mem_mul.mp hws
  exact (hl us hus).append (hm vs hvs)

/-- Words with a word of one kind at their start. -/
theorem behind {kind : TokenKind} (h : kind ∈ first) : Leads first next (Spelling.anyOf kind * l) :=
  (anyOf h).mul univ

theorem one (h : next ⊆ first) : Leads first next 1 := by
  rintro ws rfl
  exact ⟨fun w hw => absurd hw (by simp), fun _ => h⟩

theorem optional (hl : Leads first next l) (h : next ⊆ first) : Leads first next (Spelling.optional l) := by
  intro ws hws
  rcases (Language.mem_add _ _ _).mp hws with hws | hws
  · exact one h ws hws
  · exact hl ws hws

theorem prod {ls : List (Language Word)} (h : ∀ l ∈ ls, Leads first first l) : Leads first first ls.prod := by
  induction ls with
  | nil => exact one subset_rfl
  | cons l ls ih =>
    rw [List.prod_cons]
    exact (h l List.mem_cons_self).mul (ih fun m hm => h m (List.mem_cons_of_mem l hm))

end Leads

namespace Composed

/-- Less may stand behind a language than is told. -/
theorem mono (h : Composed next l) (hle : mid ⊆ next) : Composed mid l := by
  induction h with
  | union _ ih => exact .union fun i => ih i hle
  | one => exact .one
  | led left _ leads _ ih => exact .led left (ih hle) fun ws hws => (leads ws hws).mono hle
  | only plain text => exact .only plain text
  | bracketed pair inner _ => exact .bracketed pair inner
  | ascription place ends => exact .ascription place (hle.trans ends)

/-! ### Further ways to put languages together -/

/-- One language behind another that anything may stand behind. -/
theorem mul (left : Composed Set.univ l) (right : Composed next m) : Composed next (l * m) :=
  left.led right .univ

/-- A language each of whose members is in a composed part of it. -/
theorem of_parts (h : ∀ ws ∈ l, ∃ part ≤ l, ws ∈ part ∧ Composed next part) : Composed next l := by
  choose part hle hmem hpart using h
  have hunion : l = ⨆ ws : {ws // ws ∈ l}, part ws.1 ws.2 := by
    refine le_antisymm (fun ws hws => ?_) (iSup_le fun ws => hle ws.1 ws.2)
    exact Language.mem_iSup.mpr ⟨⟨ws, hws⟩, hmem ws hws⟩
  rw [hunion]
  exact .union fun ws => hpart ws.1 ws.2

theorem zero : Composed next 0 :=
  of_parts fun ws hws => absurd hws (Language.notMem_zero ws)

theorem add (hl : Composed next l) (hm : Composed next m) : Composed next (l + m) := by
  refine of_parts fun ws hws => ?_
  rcases (Language.mem_add l m ws).mp hws with hws | hws
  · exact ⟨l, le_self_add, hws, hl⟩
  · exact ⟨m, le_add_self, hws, hm⟩

theorem anyOf {kind : TokenKind} (plain : kind.isPlain = true) : Composed next (Spelling.anyOf kind) := by
  refine of_parts fun ws hws => ?_
  obtain ⟨text, rfl⟩ := hws
  exact ⟨Spelling.only kind text, only_le_anyOf kind text, rfl, .only plain text⟩

/-- A word of the kind that stands behind a language. -/
theorem before {kind : TokenKind} (h : Composed {kind} l) (plain : kind.isPlain = true) :
    Composed next (l * Spelling.anyOf kind) :=
  h.led (anyOf plain) (.anyOf rfl)

/-- A language where a condition holds with which it is composed. -/
theorem provided {condition : Bool} (h : condition = true → Composed next l) :
    Composed next (Spelling.provided condition l) := by
  unfold Spelling.provided
  split
  · next hcondition => exact h hcondition
  · exact zero

theorem optional (h : Composed next l) : Composed next (Spelling.optional l) :=
  one.add h

/-- A pair of brackets behind something. -/
theorem enclosed {opening closing : TokenKind} (pair : opening.closing? = some closing) (hl : Composed Set.univ l)
    (hm : Composed {closing} m) : Composed next (l * Spelling.anyOf opening * m * Spelling.anyOf closing) := by
  have hassoc : l * Spelling.anyOf opening * m * Spelling.anyOf closing =
      l * (Spelling.anyOf opening * m * Spelling.anyOf closing) := by
    simp only [mul_assoc]
  rw [hassoc]
  exact hl.mul (.bracketed pair hm)

/-- Languages one behind the other, where a word of the next kinds is at the start of each. -/
theorem prod_of_leads {ls : List (Language Word)} (h : ∀ l ∈ ls, Composed next l ∧ Leads next next l) :
    Composed next ls.prod := by
  induction ls with
  | nil => exact one
  | cons l ls ih =>
    have hls : ∀ m ∈ ls, Composed next m ∧ Leads next next m := fun m hm => h m (List.mem_cons_of_mem l hm)
    rw [List.prod_cons]
    exact (h l List.mem_cons_self).1.led (ih hls) (.prod fun m hm => (hls m hm).2)

theorem prod {ls : List (Language Word)} (h : ∀ l ∈ ls, Composed Set.univ l) : Composed next ls.prod :=
  (prod_of_leads fun l hl => ⟨h l hl, .univ⟩).mono (Set.subset_univ next)

theorem prod_map {α : Type} {f : α → Language Word} {as : List α} (h : ∀ a ∈ as, Composed Set.univ (f a)) :
    Composed next (as.map f).prod := by
  refine prod fun l hl => ?_
  obtain ⟨a, ha, rfl⟩ := List.mem_map.mp hl
  exact h a ha

/-- Languages with separators between them, which are of the next kinds. -/
theorem separated {ls : List (Language Word)} (hm : Composed Set.univ m) (leads : ∀ k, Leads next next (m * k))
    (h : ∀ l ∈ ls, Composed next l) : Composed next (Spelling.separated m ls) := by
  cases ls with
  | nil => exact zero
  | cons l ls =>
    have hrest : ∀ k ∈ ls.map (m * ·), Composed next k ∧ Leads next next k := by
      intro k hk
      obtain ⟨part, hpart, rfl⟩ := List.mem_map.mp hk
      exact ⟨hm.mul (h part (List.mem_cons_of_mem l hpart)), leads part⟩
    exact (h l List.mem_cons_self).led (prod_of_leads hrest) (.prod fun k hk => (hrest k hk).2)

/-- Languages with commas between them, each of which there may be a comma behind. -/
theorem commaList_of_comma {ls : List (Language Word)} (h : ∀ l ∈ ls, Composed (insert .comma next) l) :
    Composed next (Spelling.commaList ls) := by
  have hcomma : ∀ {kinds}, Composed kinds (Spelling.anyOf .comma) := anyOf (by decide)
  have hfirst : TokenKind.comma ∈ insert .comma next := Set.mem_insert _ _
  cases ls with
  | nil => exact one
  | cons l ls =>
    have hitems := separated hcomma (fun _ => .behind hfirst) h
    exact hitems.led hcomma.optional (.optional (.anyOf hfirst) (Set.subset_insert _ _))

theorem commaList {ls : List (Language Word)} (h : ∀ l ∈ ls, Composed Set.univ l) :
    Composed next (Spelling.commaList ls) :=
  commaList_of_comma fun l hl => (h l hl).mono (Set.subset_univ _)

theorem entries {ls : List (Language Word)} {tail : Option (Language Word)} (h : ∀ l ∈ ls, Composed Set.univ l)
    (htail : ∀ l ∈ tail, Composed Set.univ l) : Composed next (Spelling.entries ls tail) := by
  have hcomma : ∀ {kinds}, Composed kinds (Spelling.anyOf .comma) := anyOf (by decide)
  cases tail with
  | none => exact commaList h
  | some tail =>
    have hdots : Composed Set.univ (Spelling.anyOf .dotDot) := anyOf (by decide)
    have hitems : ∀ l ∈ ls, Composed Set.univ (l * Spelling.anyOf .comma) := fun l hl => (h l hl).mul hcomma
    exact (((prod_map hitems).mul hdots).mul (htail tail rfl)).mul hcomma.optional

theorem behindWord (keyword : String) {l : Option (Language Word)} (h : ∀ m ∈ l, Composed next m) :
    Composed next (Spelling.behindWord keyword l) := by
  cases l with
  | none => exact one
  | some l => exact (only (by decide) keyword).mul (h l rfl)

/-! ### Ascriptions -/

theorem ascribed {mark : TokenKind} {stops : List TokenKind} (place : (mark, stops) ∈ ascriptionPlaces)
    (ends : next ⊆ {kind | kind ∈ stops}) (text : Option String) :
    Composed next (Spelling.ascribed mark stops text) := by
  cases text with
  | none => exact one
  | some text => exact ascription place ends

/-! ### Names and literals -/

theorem labelled (label : Option String) : Composed next (Spelling.labelled label) := by
  cases label with
  | none => exact one
  | some label => exact (only (by decide) label).mul (anyOf (by decide))

theorem negated {kind : TokenKind} (h : kind.isPlain = true) (value : String) :
    Composed next (Spelling.negated kind value) := by
  refine of_parts fun ws hws => ?_
  obtain ⟨digits, hvalue, hmem⟩ := hws
  refine ⟨_, fun vs hvs => ⟨digits, hvalue, hvs⟩, hmem, ?_⟩
  exact (only (by decide) "-").mul (only h digits)

theorem qualified (name : String) : Composed next (Spelling.qualified name) := by
  refine of_parts fun ws hws => ?_
  obtain ⟨home, own, hname, hmem⟩ := hws
  refine ⟨_, fun vs hvs => ⟨home, own, hname, hvs⟩, hmem, ?_⟩
  exact ((only (by decide) home).mul (anyOf (by decide))).mul (only (by decide) own)

theorem eitherName (name : String) : Composed next (Spelling.eitherName name) :=
  (only (by decide) name).add (only (by decide) name)

theorem importedName (name : String) : Composed next (Spelling.importedName name) := by
  have htype : Composed Set.univ (Spelling.only .name "type") := only (by decide) "type"
  have has : Composed Set.univ (Spelling.only .keyword "as") := only (by decide) "as"
  have hown : Composed Set.univ (Spelling.anyOf .name + Spelling.anyOf .upName) :=
    (anyOf (by decide)).add (anyOf (by decide))
  exact (htype.optional.mul (hown.mul has).optional).mul (eitherName name)

theorem path (modulePath : String) : Composed Set.univ (Spelling.path modulePath) := by
  refine of_parts fun ws hws => ?_
  obtain ⟨segments, hpath, hmem⟩ := hws
  refine ⟨_, fun vs hvs => ⟨segments, hpath, hvs⟩, hmem, ?_⟩
  refine separated (only (by decide) "/") (fun _ => .univ) fun l hl => ?_
  obtain ⟨segment, -, rfl⟩ := List.mem_map.mp hl
  exact only (by decide) segment

theorem importedNames (names : List String) : Composed next (Spelling.importedNames names) := by
  have hitems : ∀ l ∈ names.map Spelling.importedName, Composed Set.univ l := by
    intro l hl
    obtain ⟨name, -, rfl⟩ := List.mem_map.mp hl
    exact importedName name
  exact (provided fun _ => one).add (.enclosed rfl (anyOf (by decide)) (commaList hitems))

end Composed

end Spelling

open Spelling

/-! ### Nodes -/

namespace Node

/-- The kinds of the words that there may be behind a node.  Only a parameter ends with an ascription. -/
def follow : Node → Set TokenKind
  | parameter .. => {.comma, .rightParen}
  | _ => Set.univ

variable (node : Node)

theorem follow_of_isPattern (h : node.isPattern = true) : node.follow = Set.univ := by
  cases node <;> first | rfl | cases h

theorem follow_of_isOperand {least : Nat} (hleast : 1 ≤ least) (h : node.isOperand least = true) :
    node.follow = Set.univ := by
  have htight : 1 ≤ node.tightness := hleast.trans (isOperand_iff.mp h)
  cases node <;> first | rfl | cases htight

theorem follow_of_isExpression (h : node.isExpression = true) : node.follow = Set.univ :=
  node.follow_of_isOperand le_rfl h

theorem follow_of_isStatement (h : node.isStatement = true) : node.follow = Set.univ := by
  cases node <;> first | rfl | cases h

theorem follow_of_isArgument (h : node.isArgument = true) : node.follow = Set.univ := by
  cases node <;> first | rfl | cases h

theorem follow_of_isClause (h : node.isClause = true) : node.follow = Set.univ := by
  cases node <;> first | rfl | cases h

theorem follow_of_isParameter (h : node.isParameter = true) : node.follow = {.comma, .rightParen} := by
  cases node <;> first | rfl | cases h

theorem follow_of_isFunction (h : node.isFunction = true) : node.follow = Set.univ := by
  cases node <;> first | rfl | cases h

theorem follow_of_isImport (h : node.isImport = true) : node.follow = Set.univ := by
  cases node <;> first | rfl | cases h

end Node

/-- A part, where it may stand. -/
theorem Spelling.Composed.part {node : Node} {fits : Bool} {next : Set TokenKind}
    (h : Composed node.follow node.spelling) (behind : fits = true → node.follow = next) :
    Composed next (Spelling.provided fits node.spelling) :=
  .provided fun hfits => behind hfits ▸ h

mutual

/-- The spellings of a node are composed. -/
theorem Node.composed_spelling : ∀ node : Node, Composed node.follow node.spelling
  | .patName _ name => by
    rw [Node.spelling]
    exact .provided fun _ => .only (by decide) name
  | .patDiscard _ name => by
    rw [Node.spelling]
    exact .provided fun _ => .only (by decide) name
  | .patTuple _ elements => by
    rw [Node.spelling]
    have helements := composed_spellings Node.follow_of_isPattern elements
    exact .enclosed rfl (.anyOf (by decide)) (.commaList helements)
  | .patList _ elements tail => by
    rw [Node.spelling]
    have helements := composed_spellings Node.follow_of_isPattern elements
    exact .bracketed rfl (.entries helements (composed_tailSpelling tail))
  | .patAlias _ inner name => by
    rw [Node.spelling]
    have hinner := inner.composed_spelling.part inner.follow_of_isPattern
    exact (hinner.mul (.only (by decide) "as")).mul (.only (by decide) name)
  | .patInt _ value => by
    rw [Node.spelling]
    exact (Composed.only (by decide) value).add (.negated (by decide) value)
  | .patFloat _ value => by
    rw [Node.spelling]
    exact (Composed.only (by decide) value).add (.negated (by decide) value)
  | .patString _ value => by
    rw [Node.spelling]
    exact .only (by decide) value
  | .patConstructor _ name arguments => by
    rw [Node.spelling]
    have hlabel : Composed Set.univ (optional (anyOf .name * anyOf .colon)) :=
      ((Composed.anyOf (by decide)).mul (.anyOf (by decide))).optional
    have harguments : ∀ l ∈ (spellings Node.isPattern arguments).map (optional (anyOf .name * anyOf .colon) * ·),
        Composed Set.univ l := by
      intro l hl
      obtain ⟨k, hk, rfl⟩ := List.mem_map.mp hl
      exact hlabel.mul (composed_spellings Node.follow_of_isPattern arguments k hk)
    have hname : Composed Set.univ (only .upName name + qualified name) :=
      (Composed.only (by decide) name).add (.qualified name)
    exact hname.mul ((Composed.provided fun _ => .one).add (.bracketed rfl (.commaList harguments)))
  | .var _ name => by
    rw [Node.spelling]
    exact .only (by decide) name
  | .constructor _ name => by
    rw [Node.spelling]
    exact .only (by decide) name
  | .minus _ operand => by
    rw [Node.spelling]
    have hoperand := operand.composed_spelling.part (operand.follow_of_isOperand (show 1 ≤ 9 by decide))
    exact (Composed.only (by decide) "-").mul hoperand
  | .not _ operand => by
    rw [Node.spelling]
    have hoperand := operand.composed_spelling.part (operand.follow_of_isOperand (show 1 ≤ 9 by decide))
    exact (Composed.anyOf (by decide)).mul hoperand
  | .block _ statements => by
    rw [Node.spelling]
    have hstatements := composed_spellings Node.follow_of_isStatement statements
    exact .bracketed rfl (.prod hstatements)
  | .tuple _ elements => by
    rw [Node.spelling]
    have helements := composed_spellings Node.follow_of_isExpression elements
    exact .enclosed rfl (.anyOf (by decide)) (.commaList helements)
  | .int _ value => by
    rw [Node.spelling]
    exact .only (by decide) value
  | .float _ value => by
    rw [Node.spelling]
    exact .only (by decide) value
  | .string _ value => by
    rw [Node.spelling]
    exact .only (by decide) value
  | .list _ elements tail => by
    rw [Node.spelling]
    have helements := composed_spellings Node.follow_of_isExpression elements
    exact .bracketed rfl (.entries helements (composed_spellingOption tail))
  | .argument _ value label => by
    rw [Node.spelling]
    exact (Composed.labelled label).mul (value.composed_spelling.part value.follow_of_isExpression)
  | .call _ function arguments => by
    rw [Node.spelling]
    have harguments := composed_spellings Node.follow_of_isArgument arguments
    have hfunction := function.composed_spelling.part (function.follow_of_isOperand (show 1 ≤ 10 by decide))
    exact .enclosed rfl hfunction (.commaList harguments)
  | .field _ container label => by
    rw [Node.spelling]
    have hcontainer := container.composed_spelling.part (container.follow_of_isOperand (show 1 ≤ 10 by decide))
    exact (hcontainer.mul (.anyOf (by decide))).mul ((Composed.eitherName label).add (.only (by decide) label))
  | .binary _ operator left right => by
    rw [Node.spelling]
    split
    · exact .zero
    · next tightness htightness =>
      have hbound := (Grammar.tightness?_bounds htightness).1
      have hleft := left.composed_spelling.part (left.follow_of_isOperand hbound)
      have hright := right.composed_spelling.part (right.follow_of_isOperand (Nat.le_succ_of_le hbound))
      exact (hleft.mul (.only (by decide) operator)).mul hright
  | .clause _ alternatives guard body => by
    rw [Node.spelling]
    have hbar : Composed Set.univ (anyOf .bar) := .anyOf (by decide)
    have hrows := hbar.separated (fun _ => .univ) (composed_rowSpellings alternatives)
    have hguard := Composed.behindWord "if" (composed_spellingOption guard)
    have hbody := body.composed_spelling.part body.follow_of_isExpression
    exact ((hrows.mul hguard).mul (.anyOf (by decide))).mul hbody
  | .choice _ subjects clauses => by
    rw [Node.spelling]
    have hcomma : Composed Set.univ (anyOf .comma) := .anyOf (by decide)
    have hsubjects := hcomma.separated (fun _ => .univ) (composed_spellings Node.follow_of_isExpression subjects)
    have hclauses := composed_spellings Node.follow_of_isClause clauses
    exact .enclosed rfl ((Composed.only (by decide) "case").mul hsubjects) (.provided fun _ => .prod hclauses)
  | .lambda _ parameters body => by
    rw [Node.spelling]
    have hparameters := composed_spellings Node.follow_of_isParameter parameters
    have hascription : Composed {.leftBrace} (optional (anyOf .rightArrow * ascription [.leftBrace])) :=
      (Composed.ascription (by decide) (by simp)).optional
    have hbody := composed_spellings Node.follow_of_isStatement body
    refine (Composed.mul ?_ hascription).led (.bracketed rfl (.prod hbody)) (.mul (.behind rfl) .univ)
    exact .enclosed rfl (.only (by decide) "fn") (.commaList_of_comma hparameters)
  | .todo _ message => by
    rw [Node.spelling]
    exact (Composed.only (by decide) "todo").mul
      (.behindWord "as" (composed_spellingOption message))
  | .panic _ message => by
    rw [Node.spelling]
    exact (Composed.only (by decide) "panic").mul
      (.behindWord "as" (composed_spellingOption message))
  | .assignment _ pattern value asserted text => by
    rw [Node.spelling]
    have hassert : Composed Set.univ (if asserted then only .keyword "assert" else 1) := by
      split
      · exact .only (by decide) "assert"
      · exact .one
    have hpattern := pattern.composed_spelling.part pattern.follow_of_isPattern
    have hascription : Composed {.equal} (ascribed .colon [.equal] text) := .ascribed (by decide) (by simp) text
    have hvalue := value.composed_spelling.part value.follow_of_isExpression
    exact (((((Composed.only (by decide) "let").mul hassert).mul hpattern).mul hascription).before
      (by decide)).mul hvalue
  | .use _ patterns function => by
    rw [Node.spelling]
    have hascription : Composed {.comma, .leftArrow} (optional (anyOf .colon * ascription [.comma, .leftArrow])) :=
      (Composed.ascription (by decide) (by simp [Set.insert_subset_iff])).optional
    have hpatterns : ∀ l ∈ (spellings Node.isPattern patterns).map
        (· * optional (anyOf .colon * ascription [.comma, .leftArrow])), Composed {.comma, .leftArrow} l := by
      intro l hl
      obtain ⟨k, hk, rfl⟩ := List.mem_map.mp hl
      exact (composed_spellings Node.follow_of_isPattern patterns k hk).mul hascription
    have hfunction := function.composed_spelling.part function.follow_of_isExpression
    exact (((Composed.only (by decide) "use").mul (.commaList_of_comma hpatterns)).before (by decide)).mul hfunction
  | .expression _ inner => by
    rw [Node.spelling]
    exact inner.composed_spelling.part inner.follow_of_isExpression
  | .parameter _ name label text => by
    unfold Node.spelling
    have hascription : Composed {.comma, .rightParen} (ascribed .colon [.comma, .rightParen] text) :=
      .ascribed (by decide) (by simp [Set.insert_subset_iff]) text
    refine Composed.mul (.mul ?_ (.only (by decide) name)) hascription
    cases label with
    | none => exact .one
    | some label => exact .only (by decide) label
  | .function _ name visibility parameters body text => by
    unfold Node.spelling
    have hparameters := composed_spellings Node.follow_of_isParameter parameters
    have hascription : Composed {.leftBrace} (ascribed .rightArrow [.leftBrace] text) :=
      .ascribed (by decide) (by simp) text
    have hbody := composed_spellings Node.follow_of_isStatement body
    refine (Composed.mul (.enclosed rfl (.mul (.mul ?_ (.only (by decide) "fn")) (.only (by decide) name))
      (.commaList_of_comma hparameters)) hascription).led (.bracketed rfl (.prod hbody)) (.mul (.behind rfl) .univ)
    cases visibility with
    | pub => exact .only (by decide) "pub"
    | priv => exact .one
  | .importing _ modulePath asName names => by
    rw [Node.spelling]
    have hasName : ∀ l ∈ asName.map (only .name), Composed Set.univ l := by
      intro l hl
      obtain ⟨name, -, rfl⟩ := Option.mem_map.mp hl
      exact .only (by decide) name
    exact (((Composed.only (by decide) "import").mul (.path modulePath)).mul (.importedNames names)).mul
      (.behindWord "as" hasName)
  | .wholeModule .. | .unknown .. => by
    rw [Node.spelling]
    exact .zero

theorem composed_spellings {fits : Node → Bool} {next : Set TokenKind}
    (behind : ∀ node : Node, fits node = true → node.follow = next) :
    ∀ nodes : List Node, ∀ l ∈ spellings fits nodes, Composed next l
  | [], l, hl => by
    rw [spellings] at hl
    cases hl
  | node :: nodes, l, hl => by
    rw [spellings] at hl
    rcases List.mem_cons.mp hl with rfl | hl
    · exact node.composed_spelling.part (behind node)
    · exact composed_spellings behind nodes l hl

theorem composed_spellingOption : ∀ message : Option Node, ∀ l ∈ spellingOption Node.isExpression message,
    Composed Set.univ l
  | none, l, hl => by
    rw [spellingOption] at hl
    cases hl
  | some node, l, hl => by
    rw [spellingOption] at hl
    cases hl
    exact node.composed_spelling.part node.follow_of_isExpression

theorem composed_tailSpelling : ∀ tail : Option Node, ∀ l ∈ tailSpelling tail, Composed Set.univ l
  | none, l, hl => by
    rw [tailSpelling] at hl
    cases hl
  | some node, l, hl => by
    rw [tailSpelling] at hl
    cases hl
    exact (Composed.provided fun _ => .one).add (node.composed_spelling.part node.follow_of_isPattern)

theorem composed_rowSpellings : ∀ rows : List (List Node), ∀ l ∈ rowSpellings rows, Composed Set.univ l
  | [], l, hl => by
    rw [rowSpellings] at hl
    cases hl
  | row :: rows, l, hl => by
    rw [rowSpellings] at hl
    rcases List.mem_cons.mp hl with rfl | hl
    · have hrow := composed_spellings Node.follow_of_isPattern row
      exact .separated (.anyOf (by decide)) (fun _ => .univ) hrow
    · exact composed_rowSpellings rows l hl

end

/-! ### Modules -/

theorem DefinitionsSpelled.exists_definitions {functions imports : List Node} {ws : List Word}
    (h : DefinitionsSpelled functions imports ws) :
    ∃ definitions, Grammar.Definition.functions definitions = functions ∧
      Grammar.Definition.imports definitions = imports ∧
      ws ∈ (definitions.map Grammar.Definition.spelling).prod := by
  induction h with
  | nothing => exact ⟨[], rfl, rfl, rfl⟩
  | @function node _ _ _ _ stands head _ ih =>
    obtain ⟨definitions, rfl, rfl, hmem⟩ := ih
    refine ⟨.function node :: definitions, rfl, rfl, ?_⟩
    rw [List.map_cons, List.prod_cons]
    exact Language.append_mem_mul (mem_provided.mpr ⟨stands, head⟩) hmem
  | @importing node _ _ _ _ stands head _ ih =>
    obtain ⟨definitions, rfl, rfl, hmem⟩ := ih
    refine ⟨.importing node :: definitions, rfl, rfl, ?_⟩
    rw [List.map_cons, List.prod_cons]
    exact Language.append_mem_mul (mem_provided.mpr ⟨stands, head⟩) hmem

theorem Module.composed_spelled (m : Module) : Composed Set.univ {ws | m.Spelled ws} := by
  refine Composed.of_parts fun ws hws => ?_
  obtain ⟨definitions, hfunctions, himports, hmem⟩ := DefinitionsSpelled.exists_definitions hws
  refine ⟨_, fun vs hvs => ?_, hmem, Composed.prod_map fun definition _ => ?_⟩
  · have hspelled := Grammar.definitionsSpelled_of_mem hvs
    rwa [hfunctions, himports] at hspelled
  · cases definition with
    | importing node => exact node.composed_spelling.part node.follow_of_isImport
    | function node => exact node.composed_spelling.part node.follow_of_isFunction

end ScopeLint
