import ScopeLint.Proofs.Grammar.Passage
import ScopeLint.Proofs.Grammar.Rereading
import ScopeLint.Proofs.Token.Relexing

/-!
# Printing what was read

What is said here of the answer of a reading does not depend on the tokens that it was read from: that its words are
words of the language, and that they are read back (`Reprints`).  It is proved of each rule along the reading of the
tokens, whose failures are of no interest.  How a node is read back depends on the word behind it, so each sort of nodes
has its words that may stand there.
-/

namespace ScopeLint

/-! ### Trees that agree -/

/-- The second node agrees with what a text keeps of the first one. -/
def Node.Agrees (p q : Node) : Prop :=
  q.same p.withoutAscriptions = true

theorem sameAll_of_agrees {ps qs : List Node} (h : List.Forall₂ Node.Agrees ps qs) :
    sameAll qs (withoutAscriptionsAll ps) = true := by
  induction h with
  | nil => rw [withoutAscriptionsAll, sameAll]
  | cons hp _ ih => rw [withoutAscriptionsAll, sameAll, hp, ih, Bool.and_true]

theorem sameOption_of_agrees {p q : Option Node} (h : Option.Rel Node.Agrees p q) :
    sameOption q (withoutAscriptionsOption p) = true := by
  cases h with
  | none => rw [withoutAscriptionsOption, sameOption]
  | some hp => rwa [withoutAscriptionsOption, sameOption]

theorem sameRows_of_agrees {ps qs : List (List Node)} (h : List.Forall₂ (List.Forall₂ Node.Agrees) ps qs) :
    sameRows qs (withoutAscriptionsRows ps) = true := by
  induction h with
  | nil => rw [withoutAscriptionsRows, sameRows]
  | cons hp _ ih => rw [withoutAscriptionsRows, sameRows, sameAll_of_agrees hp, ih, Bool.and_true]

/-! ### Words of lists -/

theorem wordsAll_eq_map (nodes : List Node) : wordsAll nodes = nodes.map Node.words := by
  induction nodes with
  | nil => rw [wordsAll, List.map_nil]
  | cons node nodes ih => rw [wordsAll, List.map_cons, ih]

theorem wordsOption_eq_map (node : Option Node) : wordsOption node = node.map Node.words := by
  cases node <;> simp only [wordsOption, Option.map_none, Option.map_some]

theorem tailWords_eq_map (node : Option Node) :
    tailWords node = node.map fun p => if p.isBareTail then [] else p.words := by
  cases node <;> simp only [tailWords, Option.map_none, Option.map_some]

theorem wordsRows_eq_map (rows : List (List Node)) :
    wordsRows rows = rows.map fun row => joined (.mark .comma) (row.map Node.words) := by
  induction rows with
  | nil => rw [wordsRows, List.map_nil]
  | cons row rows ih => rw [wordsRows, List.map_cons, ih, wordsAll_eq_map]

/-! ### Words of the language -/

theorem Word.lexed_mark {kind : TokenKind} (h : kind.sign ≠ "") : (Word.mark kind).Lexed := by
  cases kind with
  | leftParen => exact ⟨'(', [], by decide⟩
  | rightParen => exact ⟨')', [], by decide⟩
  | leftBrace => exact ⟨'\x7b', [], by decide⟩
  | rightBrace => exact ⟨'\x7d', [], by decide⟩
  | leftBracket => exact ⟨'[', [], by decide⟩
  | rightBracket => exact ⟨']', [], by decide⟩
  | comma => exact ⟨',', [], by decide⟩
  | colon => exact ⟨':', [], by decide⟩
  | dot => exact ⟨'.', [], by decide⟩
  | dotDot => exact ⟨'.', ['.'], by decide⟩
  | hash => exact ⟨'#', [], by decide⟩
  | bar => exact ⟨'|', [], by decide⟩
  | equal => exact ⟨'=', [], by decide⟩
  | rightArrow => exact ⟨'-', ['>'], by decide⟩
  | leftArrow => exact ⟨'<', ['-'], by decide⟩
  | bang => exact ⟨'!', [], by decide⟩
  | _ => exact absurd rfl h

private theorem read_keywords : ∀ text ∈ keywords, (text.toList.head?.any fun c =>
    (Lexeme.read c text.toList.tail).kind = .keyword ∧ (Lexeme.read c text.toList.tail).value = text) = true := by decide

theorem Word.lexed_keyword {text : String} (h : text ∈ keywords) : Word.Lexed ⟨.keyword, text⟩ := by
  obtain ⟨c, -, hread⟩ := (Option.any_eq_true _ _).mp (read_keywords text h)
  obtain ⟨hkind, hvalue⟩ := of_decide_eq_true hread
  exact ⟨c, text.toList.tail, hkind, hvalue, TokenKind.noConfusion⟩

/-- Words of the language only. -/
def AllLexed (ws : List Word) : Prop :=
  ∀ w ∈ ws, w.Lexed

namespace AllLexed

@[simp] theorem nil : AllLexed [] :=
  fun _ hw => absurd hw (List.not_mem_nil)

@[simp] theorem cons_iff {w : Word} {ws : List Word} : AllLexed (w :: ws) ↔ w.Lexed ∧ AllLexed ws :=
  List.forall_mem_cons

@[simp] theorem append_iff {ws vs : List Word} : AllLexed (ws ++ vs) ↔ AllLexed ws ∧ AllLexed vs :=
  List.forall_mem_append

theorem of_joined {separator : Word} (hseparator : separator.Lexed) {ls : List (List Word)}
    (hls : ∀ ws ∈ ls, AllLexed ws) : AllLexed (joined separator ls) := by
  cases ls with
  | nil => exact nil
  | cons ws ls =>
    rw [joined_eq_flatMap]
    intro w hw
    rcases List.mem_append.mp hw with hw | hw
    · exact hls ws List.mem_cons_self w hw
    · obtain ⟨vs, hvs, hw⟩ := List.mem_flatMap.mp hw
      rcases List.mem_cons.mp hw with rfl | hw
      · exact hseparator
      · exact hls vs (List.mem_cons_of_mem ws hvs) w hw

theorem of_commas {ls : List (List Word)} (hls : ∀ ws ∈ ls, AllLexed ws) : AllLexed (joined (.mark .comma) ls) :=
  of_joined (Word.lexed_mark (by decide)) hls

theorem of_argumentWords {ls : List (List Word)} (hls : ∀ ws ∈ ls, AllLexed ws) : AllLexed (argumentWords ls) := by
  unfold argumentWords
  split
  · exact nil
  · simp only [cons_iff, append_iff]
    exact ⟨Word.lexed_mark (by decide), of_commas hls, Word.lexed_mark (by decide), nil⟩

theorem of_entryWords {ls : List (List Word)} {tail : Option (List Word)} (hls : ∀ ws ∈ ls, AllLexed ws)
    (htail : ∀ ws ∈ tail, AllLexed ws) : AllLexed (entryWords ls tail) := by
  cases tail with
  | none => exact of_commas hls
  | some ws =>
    refine of_commas fun vs hvs => ?_
    rcases List.mem_append.mp hvs with hvs | hvs
    · exact hls vs hvs
    · rw [List.mem_singleton.mp hvs, cons_iff]
      exact ⟨Word.lexed_mark (by decide), htail ws rfl⟩

end AllLexed

/-! ### Cursors whose tokens say words of the language -/

/-- What the tokens ahead say are words of the language, but for invalid tokens and marks for the end of the input. -/
def Cursor.Lexical (c : Cursor) : Prop :=
  ∀ t ∈ c.ahead, t.kind ≠ .endOfInput → t.kind ≠ .invalid → t.word.Lexed

namespace Cursor.Lexical

variable {c : Cursor}

theorem advance (h : c.Lexical) : c.advance.Lexical := by
  obtain ⟨before, t, after⟩ := c
  cases after with
  | nil => exact h
  | cons next after => exact fun u hu => h u (List.mem_cons_of_mem t hu)

theorem current_lexed (h : c.Lexical) {kind : TokenKind} (hk : c.current.kind = kind) (hend : kind ≠ .endOfInput)
    (hvalid : kind ≠ .invalid) : Word.Lexed ⟨kind, c.current.text⟩ :=
  hk ▸ h c.current List.mem_cons_self (hk ▸ hend) (hk ▸ hvalid)

/-- A mark of punctuation says what all such marks say. -/
theorem current_mark (h : c.Lexical) {kind : TokenKind} (hk : c.current.kind = kind) (hsign : kind.sign ≠ "") :
    c.current.word = .mark kind := by
  have hne : kind ≠ .endOfInput ∧ kind ≠ .invalid := by
    constructor <;> rintro rfl <;> exact hsign rfl
  subst hk
  exact (h.current_lexed rfl hne.1 hne.2).eq_mark hsign

theorem expect (h : c.Lexical) {e : Expectation} {Q : Token → Cursor → Prop}
    (hQ : c.current.kind = e.kind → (∀ value, e.value = some value → c.current.value = some value) →
      c.advance.Lexical → Q c.current c.advance) : (Reading.expect e).Ensures AnyFailure c Q :=
  Reading.ensures_expect (fun _ => trivial) fun hmet => hQ hmet.1 hmet.2 h.advance

end Cursor.Lexical

/-! ### Words that are read back -/

/-- A word list of the language, with its first word, which a reading reads back in front of the words that may stand
behind it.  The reading may be told how many words it has to reach over. -/
structure Reprints {α : Type} (words : List Word) (first : Word) (ends : Word → Prop) (reading : Nat → Reading α)
    (good : α → Prop) : Prop where
  lexed : AllLexed words
  starts : ∃ ws, words = first :: ws
  leads : ∀ n w ws, ends w → (words ++ w :: ws).length ≤ n → (reading n).Leads (words ++ w :: ws) (w :: ws) good

theorem Reprints.ne_nil {α : Type} {words : List Word} {first : Word} {ends : Word → Prop} {reading : Nat → Reading α}
    {good : α → Prop} (h : Reprints words first ends reading good) : words ≠ [] := by
  obtain ⟨ws, hws⟩ := h.starts
  rw [hws]
  exact List.cons_ne_nil first ws

theorem Reprints.weaken {α : Type} {words : List Word} {first : Word} {ends ends' : Word → Prop}
    {reading : Nat → Reading α} {good : α → Prop} (h : Reprints words first ends reading good)
    (hends : ∀ w, ends' w → ends w) : Reprints words first ends' reading good :=
  ⟨h.lexed, h.starts, fun n w ws hw hn => h.leads n w ws (hends w hw) hn⟩

/-- What a reading reads back is read back by a reading that leads where it leads. -/
theorem Reprints.lift {α β : Type} {words : List Word} {first : Word} {ends : Word → Prop} {reading : Nat → Reading α}
    {reading' : Nat → Reading β} {good : α → Prop} {good' : β → Prop} (h : Reprints words first ends reading good)
    (hreading : ∀ n ws vs, (reading n).Leads (first :: ws) vs good → (reading' n).Leads (first :: ws) vs good') :
    Reprints words first ends reading' good' := by
  refine ⟨h.lexed, h.starts, fun n w ws hw hn => ?_⟩
  have hread := h.leads n w ws hw hn
  obtain ⟨us, hus⟩ := h.starts
  rw [hus, List.cons_append] at hread ⊢
  exact hreading n _ _ hread

/-- What may stand in a list is read back in front of a comma and of the closing token, with which it does not
start. -/
def ItemReprints (reading : Nat → Reading Node) (closing : TokenKind) (p : Node) : Prop :=
  ∃ first : Word, first.kind ≠ closing ∧
    Reprints p.words first (fun w => w.kind = .comma ∨ w.kind = closing) reading p.Agrees

theorem ItemReprints.lexed {reading : Nat → Reading Node} {closing : TokenKind} {ps : List Node}
    (hps : ∀ p ∈ ps, ItemReprints reading closing p) : ∀ ws ∈ wordsAll ps, AllLexed ws := by
  rw [wordsAll_eq_map]
  intro ws hws
  obtain ⟨p, hp, rfl⟩ := List.mem_map.mp hws
  obtain ⟨first, -, hfirst⟩ := hps p hp
  exact hfirst.lexed

/-- A list of items is read back. -/
theorem ItemReprints.leads {reading : Nat → Reading Node} {closing : TokenKind} {ps : List Node}
    (hps : ∀ p ∈ ps, ItemReprints reading closing p) (hne : closing ≠ .comma) {n : Nat} {w : Word} {ws : List Word}
    (hw : w.kind = closing) (hn : (joined (.mark .comma) (wordsAll ps) ++ w :: ws).length ≤ n) :
    (Reading.commaList (reading n) closing).Leads (joined (.mark .comma) (wordsAll ps) ++ w :: ws) (w :: ws)
      (List.Forall₂ Node.Agrees ps) := by
  rw [wordsAll_eq_map] at hn ⊢
  refine Reading.leads_commaList hne (fun p hp v vs hv hlen => ?_) (fun p hp => ?_) hw hn
  · obtain ⟨first, -, hfirst⟩ := hps p hp
    exact hfirst.leads n v vs hv hlen
  · obtain ⟨first, hstart, hfirst⟩ := hps p hp
    obtain ⟨us, hus⟩ := hfirst.starts
    exact ⟨first, us, hus, hstart⟩

/-- A word list of the language, perhaps without words, which a reading reads back in front of the words that may stand
behind it.  Its first word, or the word behind it if it is empty, is one of those that may stand before it. -/
structure ChainReprints {α : Type} (words : List Word) (before ends : Word → Prop) (reading : Nat → Reading α)
    (good : α → Prop) : Prop where
  lexed : AllLexed words
  starts : ∀ w ws, ends w → ∃ v vs, words ++ w :: ws = v :: vs ∧ before v
  leads : ∀ n w ws, ends w → (words ++ w :: ws).length ≤ n → (reading n).Leads (words ++ w :: ws) (w :: ws) good

/-- The words do not start with a label. -/
def Unlabelled (words : List Word) : Prop :=
  ∀ f v ws, words = f :: v :: ws → f.kind = .name → v.kind ≠ .colon

theorem Unlabelled.of_cons {w : Word} (h : w.kind ≠ .name) (ws : List Word) : Unlabelled (w :: ws) := by
  intro f v vs heq hf
  obtain ⟨rfl, -⟩ := List.cons.inj heq
  exact absurd hf h

theorem Unlabelled.append {words : List Word} (h : Unlabelled words) {w : Word} (hw : w.kind ≠ .colon)
    (hwords : words ≠ []) (ws : List Word) : Unlabelled (words ++ w :: ws) := by
  intro f v vs heq hf
  cases words with
  | nil => exact absurd rfl hwords
  | cons f' us =>
    cases us with
    | nil =>
      obtain ⟨-, rfl, -⟩ : f' = f ∧ w = v ∧ ws = vs := by simpa using heq
      exact hw
    | cons v' us =>
      obtain ⟨rfl, rfl, -⟩ : f' = f ∧ v' = v ∧ us ++ w :: ws = vs := by simpa using heq
      exact h f' v' us rfl hf

namespace Reading

variable {α β : Type} {c : Cursor}

/-! ### Items of lists -/

theorem commaList_all {item : Reading α} {fits : α → Prop}
    (hitem : ∀ c : Cursor, c.Lexical → item.Ensures AnyFailure c fun a d => d.Lexical ∧ fits a) (hc : c.Lexical)
    (closing : TokenKind) :
    (commaList item closing).Ensures AnyFailure c fun as d => d.Lexical ∧ ∀ a ∈ as, fits a := by
  refine ensures_collect (P := fun _ as d => d.Lexical ∧ ∀ a ∈ as, fits a) (I := Cursor.Lexical) (fun c hc => ?_) hc
  simp only [ensures_bind, ensures_sees, ensures_ite, ensures_pure, ensures_accepts, if_true, Bool.false_eq_true,
    if_false]
  split
  · exact ⟨hc, by simp⟩
  · refine (hitem c hc).mono fun a d hd => ?_
    split
    · exact ⟨hd.1.advance, .inl trivial, fun as e hes => ⟨hes.1, List.forall_mem_cons.mpr ⟨hd.2, hes.2⟩⟩⟩
    · exact ⟨hd.1, by simpa using hd.2⟩

theorem entries_all {element : Reading Node} {tail : Token → Reading Node} {fits fitsTail : Node → Prop}
    (helement : ∀ c : Cursor, c.Lexical → element.Ensures AnyFailure c fun a d => d.Lexical ∧ fits a)
    (htail : ∀ (t : Token) (c : Cursor), c.Lexical → (tail t).Ensures AnyFailure c fun a d => d.Lexical ∧ fitsTail a)
    (hc : c.Lexical) :
    (Grammar.entries element tail).Ensures AnyFailure c fun es d =>
      d.Lexical ∧ (∀ a ∈ Grammar.Entry.elements es, fits a) ∧ ∀ b ∈ Grammar.Entry.tail? es, fitsTail b := by
  refine ensures_collect
    (P := fun _ es d =>
      d.Lexical ∧ (∀ a ∈ Grammar.Entry.elements es, fits a) ∧ ∀ b ∈ Grammar.Entry.tail? es, fitsTail b)
    (I := Cursor.Lexical) (fun c hc => ?_) hc
  simp only [ensures_bind, ensures_sees, ensures_current, ensures_ite, ensures_accepts, ensures_pure, if_true,
    Bool.false_eq_true, if_false]
  split
  · exact ⟨hc, by simp [Grammar.Entry.elements], by simp [Grammar.Entry.tail?]⟩
  · split
    · refine (htail _ _ hc.advance).mono fun node d hd => ?_
      have hfits : (∀ a ∈ Grammar.Entry.elements [.tail node], fits a) ∧
          ∀ b ∈ Grammar.Entry.tail? [.tail node], fitsTail b := by
        simpa [Grammar.Entry.elements, Grammar.Entry.tail?] using hd.2
      split
      · exact ⟨hd.1.advance, hfits⟩
      · exact ⟨hd.1, hfits⟩
    · refine (helement c hc).mono fun node d hd => ?_
      split
      · exact ⟨hd.1.advance, .inl trivial, fun es e hes =>
          ⟨hes.1, List.forall_mem_cons.mpr ⟨hd.2, hes.2.1⟩, hes.2.2⟩⟩
      · exact ⟨hd.1, by simpa [Grammar.Entry.elements] using hd.2, by simp [Grammar.Entry.tail?]⟩

/-- Items with separators between them are read back in front of words that are no separators. -/
theorem separated_reprints {first item : Reading α} {mark : Reading Bool} {first' item' : Nat → Reading α}
    {separator : Word} {words : α → List Word} {agrees : α → α → Prop} {ends : Word → Prop}
    (hfirst : ∀ c : Cursor, c.Lexical → first.Ensures AnyFailure c fun a d =>
      d.Lexical ∧ Reprints (words a) c.current.word (fun w => w = separator ∨ ends w) first' (agrees a))
    (hitem : ∀ c : Cursor, c.Lexical → item.Ensures AnyFailure c fun a d =>
      d.Lexical ∧ Reprints (words a) c.current.word (fun w => w = separator ∨ ends w) item' (agrees a))
    (hmark : ∀ c : Cursor, c.Lexical → mark.Ensures AnyFailure c fun _ d => d.Lexical)
    (hseen : ∀ ws, ws ≠ [] → mark.Leads (separator :: ws) ws fun seen => seen = true)
    (hstop : ∀ w ws, ends w → mark.Leads (w :: ws) (w :: ws) fun seen => seen = false) (hseparator : separator.Lexed)
    (hc : c.Lexical) :
    (separated first mark item).Ensures AnyFailure c fun as d => d.Lexical ∧ as ≠ [] ∧
      Reprints (joined separator (as.map words)) c.current.word ends (fun n => separated (first' n) mark (item' n))
        (List.Forall₂ agrees as) := by
  rw [separated, ensures_bind]
  refine (hfirst c hc).mono fun a d ha => ?_
  rw [ensures_bind]
  have hrest : (collect do if ← mark then return .more (← item) else return .stop).Ensures AnyFailure d fun as e =>
      e.Lexical ∧ ∀ b ∈ as, ∃ start,
        Reprints (words b) start (fun w => w = separator ∨ ends w) item' (agrees b) := by
    refine ensures_collect (P := fun _ as e => e.Lexical ∧ ∀ b ∈ as, ∃ start,
        Reprints (words b) start (fun w => w = separator ∨ ends w) item' (agrees b))
      (I := Cursor.Lexical) (fun c hc => ?_) ha.1
    simp only [ensures_bind, ensures_ite, ensures_pure]
    refine (hmark c hc).mono fun seen d hd => ?_
    split
    · refine (hitem d hd).mono fun b e hb => ?_
      exact ⟨hb.1, .inl trivial, fun bs e' hbs => ⟨hbs.1, List.forall_mem_cons.mpr ⟨⟨_, hb.2⟩, hbs.2⟩⟩⟩
    · exact ⟨hd, by simp⟩
  refine hrest.mono fun as e has => ⟨has.1, List.cons_ne_nil a as, ?_, ?_, fun n w ws hw hn => ?_⟩
  · refine .of_joined hseparator fun ws hws => ?_
    rw [List.map_cons, List.mem_cons] at hws
    rcases hws with rfl | hws
    · exact ha.2.lexed
    · obtain ⟨b, hb, rfl⟩ := List.mem_map.mp hws
      obtain ⟨start, hstart⟩ := has.2 b hb
      exact hstart.lexed
  · obtain ⟨us, hus⟩ := ha.2.starts
    rw [List.map_cons, joined_eq_flatMap, hus]
    exact ⟨_, rfl⟩
  · have hends : ∀ v, v = separator ∨ v = w → v = separator ∨ ends v := by
      rintro v (hv | rfl)
      · exact .inl hv
      · exact .inr hw
    refine leads_separated hseen (hstop w ws hw) (fun v vs hv hlen => ?_) (fun b hb v vs hv hlen => ?_) hn
    · exact ha.2.leads n v vs (hends v hv) hlen
    · obtain ⟨start, hstart⟩ := has.2 b hb
      exact hstart.leads n v vs (hends v hv) hlen

/-- An element of a list is read back in front of a comma and of the closing bracket, and is told from the tail. -/
def ElementReprints (reading : Nat → Reading Node) (p : Node) : Prop :=
  ∃ first : Word, first.kind ≠ .rightBracket ∧ first.kind ≠ .dotDot ∧
    Reprints p.words first (fun w => w.kind = .comma ∨ w.kind = .rightBracket) reading p.Agrees

/-- The tail of a list is read back in front of the closing bracket. -/
structure TailReprints (words : Node → List Word) (reading : Nat → Token → Reading Node) (p : Node) : Prop where
  lexed : AllLexed (words p)
  leads : ∀ n t w ws, w.kind = .rightBracket → (words p ++ w :: ws).length ≤ n →
    (reading n t).Leads (words p ++ w :: ws) (w :: ws) p.Agrees

/-- The entries of a list are read back in front of its closing bracket. -/
structure EntriesReprint (words : Node → List Word) (element : Nat → Reading Node) (tail : Nat → Token → Reading Node)
    (ps : List Node) (last : Option Node) : Prop where
  lexed : AllLexed (entryWords (wordsAll ps) (last.map words))
  leads : ∀ n w ws, w.kind = .rightBracket → (entryWords (wordsAll ps) (last.map words) ++ w :: ws).length ≤ n →
    (Grammar.entries (element n) (tail n)).Leads (entryWords (wordsAll ps) (last.map words) ++ w :: ws) (w :: ws)
      fun es => List.Forall₂ Node.Agrees ps (Grammar.Entry.elements es) ∧
        Option.Rel Node.Agrees last (Grammar.Entry.tail? es)

theorem entries_reprint {element : Reading Node} {tail : Token → Reading Node} {words : Node → List Word}
    {element' : Nat → Reading Node} {tail' : Nat → Token → Reading Node}
    (helement : ∀ c : Cursor, c.Lexical → element.Ensures AnyFailure c fun p d =>
      d.Lexical ∧ ElementReprints element' p)
    (htail : ∀ (t : Token) (c : Cursor), c.Lexical → (tail t).Ensures AnyFailure c fun p d =>
      d.Lexical ∧ TailReprints words tail' p)
    (hc : c.Lexical) :
    (Grammar.entries element tail).Ensures AnyFailure c fun es d =>
      d.Lexical ∧ EntriesReprint words element' tail' (Grammar.Entry.elements es) (Grammar.Entry.tail? es) := by
  refine (entries_all helement htail hc).mono fun es d ⟨hd, helements, hlast⟩ => ⟨hd, ?_, fun n w ws hw hn => ?_⟩
  · refine .of_entryWords (fun vs hvs => ?_) (fun vs hvs => ?_)
    · rw [wordsAll_eq_map] at hvs
      obtain ⟨p, hp, rfl⟩ := List.mem_map.mp hvs
      obtain ⟨first, -, -, hfirst⟩ := helements p hp
      exact hfirst.lexed
    · obtain ⟨p, hp, rfl⟩ := Option.mem_map.mp hvs
      exact (hlast p hp).lexed
  · rw [wordsAll_eq_map] at hn ⊢
    refine leads_entries (fun p hp v vs hv hlen => ?_) (fun p hp => ?_) (fun p hp t v vs hv hlen => ?_) hw hn
    · obtain ⟨first, -, -, hfirst⟩ := helements p hp
      exact hfirst.leads n v vs hv hlen
    · obtain ⟨first, hbracket, hdots, hfirst⟩ := helements p hp
      obtain ⟨us, hus⟩ := hfirst.starts
      exact ⟨first, us, hus, hbracket, hdots⟩
    · exact (hlast p hp).leads n t v vs hv hlen

/-- Rounds that each read an item, and that stop without reading one, are read back.  What may stand behind an item is
what may stand where it was read up to. -/
theorem collect_reprints {round : Reading (Round α)} (round' : Nat → Reading (Round α)) {words : α → List Word}
    {agrees : α → α → Prop} {fits : α → Prop} (ends : Cursor → Word → Prop) (hends : ∀ c, ends c c.current.word)
    (hround : ∀ c : Cursor, c.Lexical → round.Ensures AnyFailure c fun answer d =>
      match answer with
      | .stop => d = c ∧ ∀ n w ws, ends c w → (round' n).Leads (w :: ws) (w :: ws) fun answer => answer = .stop
      | .last _ => False
      | .more a => d.Lexical ∧ fits a ∧
          Reprints (words a) c.current.word (ends d) round' fun answer => ∃ b, answer = .more b ∧ agrees a b)
    (hc : c.Lexical) :
    (collect round).Ensures AnyFailure c fun as d => d.Lexical ∧ (∀ a ∈ as, fits a) ∧
      ChainReprints (as.flatMap words) (ends c) (ends d) (fun n => collect (round' n)) (List.Forall₂ agrees as) := by
  have hcollect : (collect round).Ensures AnyFailure c fun as d => d.Lexical ∧ (∀ a ∈ as, fits a) ∧
      AllLexed (as.flatMap words) ∧ (∀ w ws, ends d w → ∃ v vs, as.flatMap words ++ w :: ws = v :: vs ∧ ends c v) ∧
      ∀ n w ws, ends d w → (as.flatMap words ++ w :: ws).length ≤ n →
        Rounds (round' n) (as.flatMap words ++ w :: ws) (w :: ws) (List.Forall₂ agrees as) := by
    refine ensures_collect (P := fun c as d => d.Lexical ∧ (∀ a ∈ as, fits a) ∧
      AllLexed (as.flatMap words) ∧ (∀ w ws, ends d w → ∃ v vs, as.flatMap words ++ w :: ws = v :: vs ∧ ends c v) ∧
      ∀ n w ws, ends d w → (as.flatMap words ++ w :: ws).length ≤ n →
        Rounds (round' n) (as.flatMap words ++ w :: ws) (w :: ws) (List.Forall₂ agrees as))
      (I := Cursor.Lexical) (fun c hc => (hround c hc).mono fun answer d h => ?_) hc
    cases answer with
    | stop =>
      obtain ⟨rfl, hstop⟩ := h
      exact ⟨hc, by simp, .nil, fun w ws hw => ⟨w, ws, rfl, hw⟩, fun n w ws hw _ => .stop (hstop n w ws hw) .nil⟩
    | last a => exact h.elim
    | more a =>
      obtain ⟨hd, ha, hread⟩ := h
      refine ⟨hd, .inl trivial, fun as e ⟨he, has, hlexed, hstarts, hrounds⟩ => ⟨he, ?_, ?_, ?_, ?_⟩⟩
      · exact List.forall_mem_cons.mpr ⟨ha, has⟩
      · rw [List.flatMap_cons, AllLexed.append_iff]
        exact ⟨hread.lexed, hlexed⟩
      · intro w ws _
        obtain ⟨us, hus⟩ := hread.starts
        rw [List.flatMap_cons, hus]
        exact ⟨_, _, rfl, hends c⟩
      · intro n w ws hw hn
        rw [List.flatMap_cons, List.append_assoc] at hn ⊢
        obtain ⟨v, vs, hvs, hv⟩ := hstarts w ws hw
        have hrest := hrounds n w ws hw (by rw [List.length_append] at hn; omega)
        rw [hvs] at hn hrest ⊢
        refine .more (v :: vs) (agrees a) (hread.leads n v vs hv hn) ?_ fun b hb => hrest.mono fun bs hbs => .cons hb hbs
        obtain ⟨us, hus⟩ := hread.starts
        simp only [hus, List.length_append, List.length_cons]
        omega
  exact hcollect.mono fun as d ⟨hd, has, hlexed, hstarts, hrounds⟩ =>
    ⟨hd, has, hlexed, hstarts, fun n w ws hw hn => (hrounds n w ws hw hn).leads⟩

/-- Items up to a closing brace are read back in front of it. -/
theorem upToBrace_reprints {item : Reading α} {item' : Nat → Reading α} {words : α → List Word} {agrees : α → α → Prop}
    (hitem : ∀ c : Cursor, c.Lexical → item.Ensures AnyFailure c fun a d =>
      d.Lexical ∧ Reprints (words a) c.current.word (fun w => w = d.current.word) item' (agrees a))
    (unfinished : FaultCause) (hc : c.Lexical) :
    (upToBrace unfinished item).Ensures AnyFailure c fun as d => d.Lexical ∧
      ChainReprints (as.flatMap words) (fun w => w = c.current.word) (fun w => w = d.current.word)
        (fun n => upToBrace unfinished (item' n)) (List.Forall₂ agrees as) := by
  have hround : (upToBrace unfinished item).Ensures AnyFailure c fun as d => d.Lexical ∧ (∀ a ∈ as, True) ∧
      ChainReprints (as.flatMap words) (fun w => w = c.current.word) (fun w => w = d.current.word)
        (fun n => upToBrace unfinished (item' n)) (List.Forall₂ agrees as) := by
    refine collect_reprints (fun n => do
      if ← sees .rightBrace then return .stop
      else if ← sees .endOfInput then fail unfinished
      else return .more (← item' n)) (fun c w => w = c.current.word) (fun _ => rfl) (fun c hc => ?_) hc
    simp only [ensures_bind, ensures_sees, ensures_ite, ensures_pure, ensures_fail, Token.is_none_iff]
    split
    · next hbrace =>
      refine ⟨trivial, fun n w ws hw => leads_sees ?_⟩
      rw [hw, show c.current.word.kind = .rightBrace from hbrace, beq_self_eq_true, if_pos rfl]
      exact leads_pure rfl
    · next hbrace =>
      split
      · trivial
      · next hend =>
        refine (hitem c hc).mono fun a d h => ⟨h.1, trivial, h.2.lexed, h.2.starts, fun n w ws hw hn => ?_⟩
        have hread := h.2.leads n w ws hw hn
        obtain ⟨us, hus⟩ := h.2.starts
        rw [hus, List.cons_append] at hread ⊢
        refine leads_sees ?_
        rw [beq_false_of_ne (show c.current.word.kind ≠ .rightBrace from hbrace), if_neg Bool.false_ne_true]
        refine leads_sees ?_
        rw [beq_false_of_ne (show c.current.word.kind ≠ .endOfInput from hend), if_neg Bool.false_ne_true]
        exact hread.bind fun b hb => leads_pure ⟨b, rfl, hb⟩
  exact hround.mono fun as d h => ⟨h.1, h.2.2⟩

theorem accepts_lexical (hc : c.Lexical) (kind : TokenKind) :
    (accepts kind).Ensures AnyFailure c fun _ d => d.Lexical := by
  rw [ensures_accepts]
  split
  · exact hc.advance
  · exact hc

theorem acceptsWord_lexical (hc : c.Lexical) (kind : TokenKind) (value : String) :
    (acceptsWord kind value).Ensures AnyFailure c fun _ d => d.Lexical := by
  rw [ensures_acceptsWord]
  split
  · exact hc.advance
  · exact hc

end Reading

end ScopeLint
