import ScopeLint.Proofs.Grammar.Ensures
import ScopeLint.Proofs.Grammar.Spelling

/-!
# Passing over words

A cursor reaches another one over a language when the tokens between them, which do not include the mark for the end
of the input, say a word list of the language.  A reading reads a language for each of its answers when it leads to a
cursor reached over that language (`Reading.Reads`).  The proofs about rules multiply languages in the order in which a
rule passes over tokens, and what is left at the end is a product that has to be one of the spellings of the answer.
-/

namespace ScopeLint

open Spelling

/-! ### The empty word list, which no part of the grammar that passes over a token has -/

@[simp] theorem Spelling.nil_mem_mul (l m : Language Word) : [] ∈ l * m ↔ [] ∈ l ∧ [] ∈ m := by
  simp [Language.mem_mul]

@[simp] theorem Spelling.nil_notMem_anyOf (kind : TokenKind) : [] ∉ anyOf kind := by
  rintro ⟨text, h⟩
  cases h

@[simp] theorem Spelling.nil_notMem_only (kind : TokenKind) (text : String) : [] ∉ only kind text := by
  intro h
  cases h

theorem Spelling.only_le_anyOf (kind : TokenKind) (text : String) : only kind text ≤ anyOf kind := by
  rintro ws rfl
  exact ⟨text, rfl⟩

/-! ### Lists with separators -/

theorem Spelling.separated_cons (separator l m : Language Word) (ls : List (Language Word)) :
    separated separator (l :: m :: ls) = l * separator * separated separator (m :: ls) := by
  simp [separated, mul_assoc]

theorem Spelling.commaList_single (l : Language Word) : commaList [l] = l * optional (anyOf .comma) := by
  simp [commaList, separated]

theorem Spelling.commaList_cons_le (l : Language Word) (ls : List (Language Word)) :
    l * anyOf .comma * commaList ls ≤ commaList (l :: ls) := by
  cases ls with
  | nil =>
    rw [commaList_single, commaList, mul_one]
    exact mul_le_mul_right le_add_self l
  | cons m ls => simp only [commaList, separated_cons, mul_assoc, le_refl]

theorem Spelling.le_commaList_single (l : Language Word) : l ≤ commaList [l] := by
  rw [commaList_single]
  exact le_mul_of_one_le_right' le_self_add

/-- A label is one of the labels that there may be. -/
theorem Spelling.labelled_le (label : Option String) : labelled label ≤ optional (anyOf .name * anyOf .colon) := by
  cases label with
  | none => exact le_self_add
  | some label => exact (mul_le_mul_left (only_le_anyOf .name label) _).trans le_add_self

theorem Spelling.mem_provided {condition : Bool} {l : Language Word} {ws : List Word} :
    ws ∈ provided condition l ↔ condition = true ∧ ws ∈ l := by
  cases condition
  · simp [provided, Language.notMem_zero]
  · simp [provided]

@[simp] theorem Spelling.nil_mem_add (l m : Language Word) : [] ∈ l + m ↔ [] ∈ l ∨ [] ∈ m :=
  Language.mem_add l m []

@[simp] theorem Spelling.nil_notMem_negated (kind : TokenKind) (value : String) : [] ∉ negated kind value := by
  rintro ⟨digits, -, h⟩
  simp at h

@[simp] theorem Spelling.nil_notMem_qualified (name : String) : [] ∉ qualified name := by
  rintro ⟨home, own, -, h⟩
  simp at h

/-- No node is spelled by nothing. -/
theorem Node.nil_notMem_spelling : (node : Node) → [] ∉ node.spelling
  | .argument _ value _ => by simp [Node.spelling, mem_provided, value.nil_notMem_spelling]
  | .expression _ inner => by simp [Node.spelling, mem_provided, inner.nil_notMem_spelling]
  | .binary _ operator _ _ => by
    rw [Node.spelling]
    split
    · exact Language.notMem_zero []
    · simp
  | .parameter .. | .function .. | .patName .. | .patDiscard .. | .patTuple .. | .patList .. | .patAlias ..
  | .patInt .. | .patFloat .. | .patString .. | .patConstructor .. | .var .. | .constructor .. | .minus .. | .not ..
  | .block .. | .tuple .. | .int .. | .float .. | .string .. | .list .. | .call .. | .field .. | .clause ..
  | .choice .. | .lambda .. | .todo .. | .panic .. | .assignment .. | .use .. | .importing .. => by
    simp only [Node.spelling, nil_mem_mul, nil_mem_add, mem_provided, nil_notMem_anyOf, nil_notMem_only,
      nil_notMem_negated, nil_notMem_qualified, and_false, false_and, or_self, not_false_iff]
  | .wholeModule .. | .unknown .. => Language.notMem_zero []

theorem Node.nil_notMem_spellingAs (fits : Node → Bool) (node : Node) : [] ∉ node.spellingAs fits := by
  rw [Node.spellingAs, provided]
  split
  · exact node.nil_notMem_spelling
  · exact Language.notMem_zero []

theorem Token.is_none_iff {t : Token} {kind : TokenKind} : t.is kind none = true ↔ t.kind = kind := by
  simp [Token.is]

theorem Token.is_some_iff {t : Token} {kind : TokenKind} {value : String} :
    t.is kind (some value) = true ↔ t.kind = kind ∧ t.value = some value := by
  simp [Token.is]

namespace Cursor

theorem kind_advance_of_next? {c : Cursor} {kind : TokenKind} (h : (c.next?.any fun t => t.is kind none) = true) :
    c.advance.current.kind = kind := by
  obtain ⟨before, current, after⟩ := c
  cases after with
  | nil => simp [next?] at h
  | cons t after => exact Token.is_none_iff.mp (by simpa [next?, advance] using h)

/-- The current token and those behind it. -/
def ahead (c : Cursor) : List Token :=
  c.current :: c.after

/-- The list ends with the mark for the end of the input, and its other tokens have values, unless a reading may fail
for a missing value. -/
structure Ended (allowed : ReadFailure → Prop) (c : Cursor) : Prop where
  closed : ∀ e ∈ c.ahead.getLast?, e.kind = .endOfInput
  valued : allowed .noToken ∨ ∀ t ∈ c.ahead, t.kind ≠ .endOfInput → t.value.isSome = true

/-- A cursor is moved to another one over tokens that say a word list of a language. -/
structure Reaches (allowed : ReadFailure → Prop) (c : Cursor) (l : Language Word) (d : Cursor) : Prop where
  ended : d.Ended allowed
  passed : ∃ ts : List Token, c.ahead = ts ++ d.ahead ∧ d.before = ts.reverse ++ c.before ∧
    (∀ t ∈ ts, t.kind ≠ .endOfInput) ∧ ts.map Token.word ∈ l

variable {allowed : ReadFailure → Prop} {c d e : Cursor} {l m : Language Word}

theorem Ended.value (h : c.Ended allowed) (hk : c.current.kind ≠ .endOfInput) :
    allowed .noToken ∨ c.current.value = some c.current.text := by
  refine h.valued.imp_right fun hv => ?_
  obtain ⟨v, hv⟩ := Option.isSome_iff_exists.mp (hv c.current List.mem_cons_self hk)
  simp [hv, Token.text]

namespace Reaches

theorem start (h : c.Ended allowed) : c.Reaches allowed 1 c :=
  ⟨h, [], rfl, rfl, by simp, rfl⟩

theorem le (h : c.Reaches allowed l d) (hl : l ≤ m) : c.Reaches allowed m d := by
  obtain ⟨hd, ts, hahead, hbefore, hinside, hmem⟩ := h
  exact ⟨hd, ts, hahead, hbefore, hinside, hl hmem⟩

/-- A node that is spelled where nodes of a sort may stand is of that sort. -/
theorem fits {fits : Node → Bool} {node : Node} (h : c.Reaches allowed (node.spellingAs fits) d) :
    fits node = true := by
  obtain ⟨-, ts, -, -, -, hmem⟩ := h
  exact (mem_provided.mp hmem).1

theorem trans (h : c.Reaches allowed l d) (h' : d.Reaches allowed m e) : c.Reaches allowed (l * m) e := by
  obtain ⟨-, ts, hahead, hbefore, hinside, hmem⟩ := h
  obtain ⟨he, us, hahead', hbefore', hinside', hmem'⟩ := h'
  refine ⟨he, ts ++ us, by rw [hahead, hahead', List.append_assoc], ?_, ?_, ?_⟩
  · rw [hbefore', hbefore, List.reverse_append, List.append_assoc]
  · intro t ht
    exact (List.mem_append.mp ht).elim (hinside t) (hinside' t)
  · rw [List.map_append]
    exact Language.append_mem_mul hmem hmem'

/-- A cursor that has passed over something stands nearer to the end. -/
theorem lt (h : c.Reaches allowed l d) (hl : [] ∉ l) : d.after.length < c.after.length := by
  obtain ⟨-, ts, hahead, -, -, hmem⟩ := h
  cases ts with
  | nil => exact absurd hmem hl
  | cons t ts =>
    have := congrArg List.length hahead
    simp only [ahead, List.length_cons, List.length_append] at this
    omega

theorem length_le (h : c.Reaches allowed l d) : d.after.length ≤ c.after.length := by
  obtain ⟨-, ts, hahead, -, -, -⟩ := h
  have := congrArg List.length hahead
  simp only [ahead, List.length_cons, List.length_append] at this
  omega

private theorem advance_self (h : c.Ended allowed) (hk : c.current.kind ≠ .endOfInput) :
    c.Reaches allowed (only c.current.kind c.current.text) c.advance := by
  obtain ⟨before, current, after⟩ := c
  cases after with
  | nil => exact absurd (h.closed current rfl) hk
  | cons next after =>
    refine ⟨⟨?_, ?_⟩, [current], rfl, rfl, by simpa using hk, rfl⟩
    · intro e he
      exact h.closed e (by simpa [ahead, advance] using he)
    · exact h.valued.imp_right fun hv t ht => hv t (List.mem_cons_of_mem _ ht)

/-- Passing over the current token. -/
theorem advance (h : c.Reaches allowed l d) {kind : TokenKind} (hk : d.current.kind = kind)
    (hne : kind ≠ .endOfInput) : c.Reaches allowed (l * only kind d.current.text) d.advance := by
  subst hk
  exact h.trans (advance_self h.ended hne)

/-- Passing over the current token, whatever its value. -/
theorem advanceAny (h : c.Reaches allowed l d) {kind : TokenKind} (hk : d.current.kind = kind)
    (hne : kind ≠ .endOfInput) : c.Reaches allowed (l * anyOf kind) d.advance :=
  (h.advance hk hne).le (mul_le_mul_right (only_le_anyOf kind _) l)

/-- Passing over the current token, whose value is known. -/
theorem advanceWord (h : c.Reaches allowed l d) {kind : TokenKind} {value : String} (hk : d.current.kind = kind)
    (hv : d.current.value = some value) (hne : kind ≠ .endOfInput) :
    c.Reaches allowed (l * only kind value) d.advance := by
  have htext : d.current.text = value := by simp [Token.text, hv]
  exact htext ▸ h.advance hk hne

end Reaches

end Cursor

theorem Expectation.kind_ne_endOfInput (e : Expectation) : e.kind ≠ .endOfInput := by
  cases e <;> decide

/-- Finding a fault is always allowed. -/
class Tolerant (allowed : ReadFailure → Prop) : Prop where
  fault : ∀ fault, allowed (.fault fault)

/-- Failures are of no interest. -/
def AnyFailure (_ : ReadFailure) : Prop :=
  True

instance : Tolerant AnyFailure :=
  ⟨fun _ => trivial⟩

namespace Reading

variable {α β : Type} {allowed : ReadFailure → Prop} {c d : Cursor} {l : Language Word}

/-- Each answer of a reading is read over its language. -/
def Reads (allowed : ReadFailure → Prop) (r : Reading α) (spelling : α → Language Word) (c : Cursor) : Prop :=
  r.Ensures allowed c fun a d => c.Reaches allowed (spelling a) d

/-- A reading reads the languages of its answers wherever fewer tokens than a bound are ahead. -/
def ReadsWithin (allowed : ReadFailure → Prop) (n : Nat) (r : Reading α) (spelling : α → Language Word) : Prop :=
  ∀ c, c.Ended allowed → c.after.length < n → r.Reads allowed spelling c

theorem Reads.behind {r : Reading α} {spelling : α → Language Word} (hr : r.Reads allowed spelling d)
    (h : c.Reaches allowed l d) : r.Ensures allowed d fun a e => c.Reaches allowed (l * spelling a) e :=
  hr.mono fun _ _ hd => h.trans hd

theorem ReadsWithin.behind {n : Nat} {r : Reading α} {spelling : α → Language Word}
    (hr : r.ReadsWithin allowed n spelling) (h : c.Reaches allowed l d) (hn : d.after.length < n) :
    r.Ensures allowed d fun a e => c.Reaches allowed (l * spelling a) e :=
  (hr d h.ended hn).behind h

theorem ensures_valueOf_current (hc : c.Ended allowed) (hk : c.current.kind ≠ .endOfInput)
    {Q : String → Cursor → Prop} (h : Q c.current.text d) : (valueOf c.current).Ensures allowed d Q := by
  rw [ensures_valueOf]
  split
  · next value hv => simpa [Token.text, hv] using h
  · next hv => exact (hc.value hk).resolve_right (by simp [hv])

/-! ### Repeated readings -/

/-- Items with commas between them. -/
theorem commaList_readsWithin {n : Nat} {item : Reading α} {spelling : α → Language Word}
    (hitem : item.ReadsWithin allowed n spelling) (closing : TokenKind) :
    (commaList item closing).ReadsWithin allowed n fun as => Spelling.commaList (as.map spelling) := by
  intro c hc hn
  refine ensures_collect (P := fun c as d => c.Reaches allowed (Spelling.commaList (as.map spelling)) d)
    (I := fun c => c.Ended allowed ∧ c.after.length < n) (fun c ⟨hc, hn⟩ => ?_) ⟨hc, hn⟩
  simp only [ensures_bind, ensures_sees, ensures_ite, ensures_pure]
  split
  · exact .start hc
  · refine (hitem c hc hn).mono fun a d h => ?_
    rw [ensures_accepts]
    split
    · next hcomma =>
      have h' := h.advanceAny hcomma (by decide)
      refine ⟨⟨h'.ended, ?_⟩, .inr (h'.lt (by simp)), ?_⟩
      · exact Nat.lt_of_le_of_lt h'.length_le hn
      · intro as e has
        exact (h'.trans has).le (commaList_cons_le _ _)
    · exact h.le (le_commaList_single _)

/-- Items that each pass over a token, up to a closing brace. -/
theorem upToBrace_readsWithin [Tolerant allowed] {n : Nat} {item : Reading α} {spelling : α → Language Word}
    (hitem : item.ReadsWithin allowed n spelling) (hnil : ∀ a, [] ∉ spelling a) (unfinished : FaultCause) :
    (upToBrace unfinished item).ReadsWithin allowed n fun as => (as.map spelling).prod := by
  intro c hc hn
  refine ensures_collect (P := fun c as d => c.Reaches allowed (as.map spelling).prod d)
    (I := fun c => c.Ended allowed ∧ c.after.length < n) (fun c ⟨hc, hn⟩ => ?_) ⟨hc, hn⟩
  simp only [ensures_bind, ensures_sees, ensures_ite, ensures_pure, ensures_fail]
  split
  · exact .start hc
  · split
    · exact Tolerant.fault _
    · refine (hitem c hc hn).mono fun a d h => ?_
      refine ⟨⟨h.ended, Nat.lt_of_le_of_lt h.length_le hn⟩, .inr (h.lt (hnil a)), fun as e has => ?_⟩
      rw [List.map_cons, List.prod_cons]
      exact h.trans has

/-- Items with separators between them, one item at least. -/
theorem separated_readsWithin {n : Nat} {first item : Reading α} {mark : Reading Bool} {separator : Language Word}
    {spelling : α → Language Word} (hfirst : first.ReadsWithin allowed n spelling)
    (hmark : ∀ c, c.Ended allowed → mark.Ensures allowed c fun b d => c.Reaches allowed (if b then separator else 1) d)
    (hseparator : [] ∉ separator) (hitem : item.ReadsWithin allowed n spelling) :
    (separated first mark item).ReadsWithin allowed n fun as => Spelling.separated separator (as.map spelling) := by
  intro c hc hn
  unfold Reads
  rw [separated, ensures_bind]
  refine (hfirst c hc hn).mono fun a d h => ?_
  rw [ensures_bind]
  have hrest : (collect do if ← mark then return .more (← item) else return .stop).Ensures allowed d fun as e =>
      d.Reaches allowed ((as.map spelling).map (separator * ·)).prod e := by
    refine ensures_collect (P := fun c as d => c.Reaches allowed ((as.map spelling).map (separator * ·)).prod d)
      (I := fun c => c.Ended allowed ∧ c.after.length < n) (fun c ⟨hc, hn⟩ => ?_)
      ⟨h.ended, Nat.lt_of_le_of_lt h.length_le hn⟩
    simp only [ensures_bind, ensures_ite, ensures_pure]
    refine (hmark c hc).mono fun b d hb => ?_
    split
    · next hseen =>
      rw [if_pos hseen] at hb
      refine (hitem.behind hb (Nat.lt_of_le_of_lt hb.length_le hn)).mono fun a e h => ?_
      refine ⟨⟨h.ended, Nat.lt_of_le_of_lt h.length_le hn⟩, .inr (h.lt (by simp [hseparator])), fun as e' has => ?_⟩
      rw [List.map_cons, List.map_cons, List.prod_cons]
      exact h.trans has
    · next hseen => rwa [if_neg hseen] at hb
  exact hrest.mono fun as e has => h.trans has

/-! ### Marks and words that have to stand somewhere -/

theorem accepts_reads (hc : c.Ended allowed) (kind : TokenKind) (hne : kind ≠ .endOfInput) :
    (accepts kind).Ensures allowed c fun b d => c.Reaches allowed (if b then anyOf kind else 1) d := by
  rw [ensures_accepts]
  split
  · next hk => simpa using (Cursor.Reaches.start hc).advanceAny hk hne
  · exact .start hc

theorem acceptsWord_reads (hc : c.Ended allowed) (kind : TokenKind) (hne : kind ≠ .endOfInput) (value : String) :
    (acceptsWord kind value).Ensures allowed c fun b d => c.Reaches allowed (if b then only kind value else 1) d := by
  rw [ensures_acceptsWord]
  split
  · next hk => simpa using (Cursor.Reaches.start hc).advanceWord hk.1 hk.2 hne
  · exact .start hc

/-- A reading behind a keyword, if the keyword is there. -/
theorem behindWord_readsWithin {n : Nat} {r : Reading α} {spelling : α → Language Word}
    (hr : r.ReadsWithin allowed n spelling) (word : String) :
    (behind (acceptsWord .keyword word) r).ReadsWithin allowed n fun a => behindWord word (a.map spelling) := by
  intro c hc hn
  rw [Reads, ensures_behind]
  refine (acceptsWord_reads hc .keyword (by decide) word).mono fun b d h => ?_
  split
  · next hb =>
    rw [if_pos hb] at h
    exact hr.behind h (Nat.lt_of_le_of_lt h.length_le hn)
  · next hb => rwa [if_neg hb] at h

variable [Tolerant allowed]

theorem expect_behind (h : c.Reaches allowed l d) {e : Expectation} (kind : TokenKind) (hkind : e.kind = kind) :
    (expect e).Ensures allowed d fun t d' => c.Reaches allowed (l * only kind t.text) d' :=
  ensures_expect Tolerant.fault fun hmet => h.advance (hmet.1.trans hkind) (hkind ▸ e.kind_ne_endOfInput)

theorem expectAny_behind (h : c.Reaches allowed l d) {e : Expectation} (kind : TokenKind) (hkind : e.kind = kind) :
    (expect e).Ensures allowed d fun _ d' => c.Reaches allowed (l * anyOf kind) d' :=
  ensures_expect Tolerant.fault fun hmet => h.advanceAny (hmet.1.trans hkind) (hkind ▸ e.kind_ne_endOfInput)

theorem expectWord_behind (h : c.Reaches allowed l d) {e : Expectation} (kind : TokenKind) (hkind : e.kind = kind)
    {value : String} (hvalue : e.value = some value) :
    (expect e).Ensures allowed d fun _ d' => c.Reaches allowed (l * only kind value) d' :=
  ensures_expect Tolerant.fault fun hmet =>
    h.advanceWord (hmet.1.trans hkind) (hmet.2 value hvalue) (hkind ▸ e.kind_ne_endOfInput)

end Reading

end ScopeLint
