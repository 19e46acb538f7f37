import ScopeLint.Grammar.Definition

/-!
# Readings go forward

On a list that ends with the mark for the end of the input, a rule of the grammar answers from the current or a later
token of the same list, and a fault that it finds is at the current or a later token (`Reading.Forward`).  A reading
that has passed over a token whenever it answers is `Reading.Passing`.

The rules get both from the readings that they are made of, so these are classes, with an instance for each way to put
readings together and for each rule.
-/

namespace ScopeLint

/-- A list whose last token, if it has one, is the mark for the end of the input. -/
def Closed (tokens : List Token) : Prop :=
  ∀ last ∈ tokens.getLast?, last.kind = .endOfInput

/-! ### Cursors and their tokens -/

namespace Cursor

theorem index_lt (c : Cursor) : c.index < c.tokens.length := by
  simp [index, tokens]

theorem getElem?_index (c : Cursor) : c.tokens[c.index]? = some c.current := by
  simp [index, tokens]

theorem getElem?_succ_index (c : Cursor) : c.tokens[c.index + 1]? = c.next? := by
  simp [index, tokens, next?, List.getElem?_append_right, List.head?_eq_getElem?]

theorem getElem?_pred_index {c : Cursor} (h : 0 < c.index) : c.tokens[c.index - 1]? = some c.previous := by
  obtain ⟨before, current, after⟩ := c
  cases before with
  | nil => cases h
  | cons t before => simp [index, tokens, previous]

theorem next?_ne_none {c : Cursor} (hc : Closed c.tokens) (hk : c.current.kind ≠ .endOfInput) : c.next? ≠ none := by
  obtain ⟨before, current, after⟩ := c
  intro hnone
  obtain rfl : after = [] := List.head?_eq_none_iff.mp hnone
  exact hk (hc current (by simp [tokens]))

theorem index_le_advance (c : Cursor) : c.index ≤ c.advance.index := by
  obtain ⟨before, current, after⟩ := c
  cases after <;> simp [advance, index]

theorem index_advance {c : Cursor} (h : c.next? ≠ none) : c.advance.index = c.index + 1 := by
  obtain ⟨before, current, after⟩ := c
  cases after with
  | nil => exact absurd rfl h
  | cons t after => rfl

theorem length_after_advance {c : Cursor} (h : c.next? ≠ none) : c.after.length = c.advance.after.length + 1 := by
  obtain ⟨before, current, after⟩ := c
  cases after with
  | nil => exact absurd rfl h
  | cons t after => rfl

theorem previous_advance {c : Cursor} (h : c.next? ≠ none) : c.advance.previous = c.current := by
  obtain ⟨before, current, after⟩ := c
  cases after with
  | nil => exact absurd rfl h
  | cons t after => rfl

end Cursor

namespace Reading

variable {α β : Type}

/-! ### Taking a run apart -/

theorem run_bind_eq_ok {r : Reading α} {f : α → Reading β} {c e : Cursor} {b : β} :
    (r >>= f).run c = .ok (b, e) ↔ ∃ a d, r.run c = .ok (a, d) ∧ (f a).run d = .ok (b, e) := by
  rw [run_bind]
  cases r.run c with
  | error failure => simp [Except.bind]
  | ok answer =>
    obtain ⟨a, d⟩ := answer
    constructor
    · exact fun h => ⟨a, d, rfl, h⟩
    · rintro ⟨_, _, h, hrest⟩
      cases h
      exact hrest

theorem run_bind_eq_error {r : Reading α} {f : α → Reading β} {c : Cursor} {failure : ReadFailure} :
    (r >>= f).run c = .error failure ↔
      r.run c = .error failure ∨ ∃ a d, r.run c = .ok (a, d) ∧ (f a).run d = .error failure := by
  rw [run_bind]
  cases r.run c with
  | error failure => simp [Except.bind]
  | ok answer =>
    obtain ⟨a, d⟩ := answer
    constructor
    · exact fun h => .inr ⟨a, d, rfl, h⟩
    · rintro (h | ⟨_, _, h, hrest⟩)
      · cases h
      · cases h
        exact hrest

/-! ### The classes -/

/-- From a cursor, a reading answers at the current token or a later one, or finds a fault at such a token. -/
structure ForwardFrom (c : Cursor) (r : Reading α) : Prop where
  answers : ∀ {a d}, r.run c = .ok (a, d) → d.tokens = c.tokens ∧ c.index ≤ d.index
  faults : ∀ {f}, r.run c = .error (.fault f) → c.index ≤ f.index ∧ c.tokens[f.index]? = some f.token

theorem ForwardFrom.bind {c : Cursor} {r : Reading α} {f : α → Reading β} (hr : r.ForwardFrom c)
    (hf : ∀ a d, r.run c = .ok (a, d) → (f a).ForwardFrom d) : (r >>= f).ForwardFrom c where
  answers h := by
    obtain ⟨a, d, hrun, hrest⟩ := run_bind_eq_ok.mp h
    obtain ⟨htokens, hle⟩ := hr.answers hrun
    obtain ⟨htokens', hle'⟩ := (hf a d hrun).answers hrest
    exact ⟨htokens'.trans htokens, Nat.le_trans hle hle'⟩
  faults h := by
    rcases run_bind_eq_error.mp h with hrun | ⟨a, d, hrun, hrest⟩
    · exact hr.faults hrun
    · obtain ⟨htokens, hle⟩ := hr.answers hrun
      obtain ⟨hle', hat⟩ := (hf a d hrun).faults hrest
      exact ⟨Nat.le_trans hle hle', htokens ▸ hat⟩

theorem ForwardFrom.congr {c : Cursor} {r s : Reading α} (hs : s.ForwardFrom c) (h : r.run c = s.run c) :
    r.ForwardFrom c where
  answers hrun := hs.answers (h ▸ hrun)
  faults hrun := hs.faults (h ▸ hrun)

/-- A reading goes forward from every cursor. -/
class Forward (r : Reading α) : Prop where
  forward : ∀ {c}, Closed c.tokens → r.ForwardFrom c

/-- A reading goes forward, and has passed over a token if it answers. -/
class Passing (r : Reading α) : Prop extends Forward r where
  passes : ∀ {c a d}, Closed c.tokens → r.run c = .ok (a, d) → c.index < d.index

instance forward_pure (a : α) : Forward (pure a : Reading α) where
  forward _ :=
    { answers := fun h => by
        cases h
        exact ⟨rfl, Nat.le_refl _⟩
      faults := fun h => by cases h }

instance forward_bind (r : Reading α) (f : α → Reading β) [hr : Forward r] [hf : ∀ a, Forward (f a)] :
    Forward (r >>= f) where
  forward hc := (hr.forward hc).bind fun a _ hrun => (hf a).forward (((hr.forward hc).answers hrun).1 ▸ hc)

/-- The same, where an instance cannot be found. -/
theorem Forward.bind {r : Reading α} {f : α → Reading β} (hr : Forward r) (hf : ∀ a, Forward (f a)) :
    Forward (r >>= f) :=
  inferInstance

instance passing_bind_left (r : Reading α) (f : α → Reading β) [hr : Passing r] [hf : ∀ a, Forward (f a)] :
    Passing (r >>= f) where
  passes {c b e} hc h := by
    obtain ⟨a, d, hrun, hrest⟩ := run_bind_eq_ok.mp h
    obtain ⟨htokens, -⟩ := (hr.forward hc).answers hrun
    have hle := (((hf a).forward (htokens ▸ hc)).answers hrest).2
    exact Nat.lt_of_lt_of_le (hr.passes hc hrun) hle

instance passing_bind_right (r : Reading α) (f : α → Reading β) [hr : Forward r] [hf : ∀ a, Passing (f a)] :
    Passing (r >>= f) where
  passes {c b e} hc h := by
    obtain ⟨a, d, hrun, hrest⟩ := run_bind_eq_ok.mp h
    obtain ⟨htokens, hle⟩ := (hr.forward hc).answers hrun
    exact Nat.lt_of_le_of_lt hle ((hf a).passes (htokens ▸ hc) hrest)

instance forward_ite (b : Prop) [Decidable b] (r s : Reading α) [hr : Forward r] [hs : Forward s] :
    Forward (if b then r else s) := by
  split
  · exact hr
  · exact hs

instance passing_ite (b : Prop) [Decidable b] (r s : Reading α) [hr : Passing r] [hs : Passing s] :
    Passing (if b then r else s) := by
  split
  · exact hr
  · exact hs

instance forward_traced (rule : Rule) (product : α → Product) (r : Reading α) [hr : Forward r] :
    Forward (traced rule product r) where
  forward hc := (hr.forward hc).congr (run_traced rule product r _)

instance passing_traced (rule : Rule) (product : α → Product) (r : Reading α) [hr : Passing r] :
    Passing (traced rule product r) where
  passes hc h := hr.passes hc ((run_traced rule product r _).symm.trans h)

/-! ### The small readings -/

instance forward_note (event : ReadEvent) : Forward (note event) where
  forward hc := ((forward_pure ()).forward hc).congr rfl

instance forward_cursor : Forward cursor where
  forward {c} hc := ((forward_pure c).forward hc).congr rfl

instance forward_current : Forward current := by
  unfold current
  infer_instance

instance forward_endless : Forward (failing .endless : Reading α) where
  forward _ :=
    { answers := fun h => by cases h
      faults := fun h => by cases h }

instance forward_noToken : Forward (failing .noToken : Reading α) where
  forward _ :=
    { answers := fun h => by cases h
      faults := fun h => by cases h }

instance passing_fail (cause : FaultCause) : Passing (fail cause : Reading α) where
  forward {c} _ :=
    { answers := fun h => by cases h
      faults := fun h => by
        cases h
        exact ⟨Nat.le_refl _, c.getElem?_index⟩ }
  passes _ h := by cases h

instance forward_sees (kind : TokenKind) : Forward (sees kind) := by
  unfold sees
  infer_instance

instance forward_seesNext (kind : TokenKind) : Forward (seesNext kind) := by
  unfold seesNext
  infer_instance

instance forward_advance : Forward advance where
  forward {c} _ :=
    { answers := fun h => by
        cases h
        exact ⟨c.tokens_advance, c.index_le_advance⟩
      faults := fun h => by cases h }

instance forward_accepts (kind : TokenKind) : Forward (accepts kind) := by
  unfold accepts
  infer_instance

instance forward_acceptsWord (kind : TokenKind) (value : String) : Forward (acceptsWord kind value) := by
  unfold acceptsWord seesWord
  infer_instance

instance forward_behind (mark : Reading Bool) (r : Reading α) [Forward mark] [Forward r] :
    Forward (behind mark r) := by
  unfold behind
  infer_instance

/-- An expectation asks its two questions about the current token and leaves the cursor as it is for them. -/
theorem run_expect (e : Expectation) (c : Cursor) :
    (expect e).run c = (if c.current.kind = .invalid then fail .invalidToken
      else if c.current.is e.kind e.value then advance else fail (.missing e) : Reading Token).run c :=
  rfl

/-- What has to stand somewhere is not the mark for the end of the input. -/
theorem kind_ne_endOfInput_of_expect {e : Expectation} {c d : Cursor} {t : Token} (h : (expect e).run c = .ok (t, d)) :
    c.current.kind ≠ .endOfInput ∧ t = c.current ∧ d = c.advance := by
  rw [run_expect] at h
  split at h
  · cases h
  · split at h
    · next his =>
      cases h
      refine ⟨fun hend => ?_, rfl, rfl⟩
      have hkind : c.current.kind = e.kind := by simpa using (Bool.and_eq_true_iff.mp his).1
      rw [hend] at hkind
      cases e <;> cases hkind
    · cases h

instance passing_expect (e : Expectation) : Passing (expect e) where
  toForward := by
    unfold expect
    infer_instance
  passes {c _ _} hc h := by
    obtain ⟨hk, -, rfl⟩ := kind_ne_endOfInput_of_expect h
    rw [Cursor.index_advance (Cursor.next?_ne_none hc hk)]
    exact Nat.lt_succ_self _

/-- A fault may be found at the token before the current one if that has just been passed over. -/
instance passing_expect_failBefore (e : Expectation) (b : Prop) [Decidable b] (cause : FaultCause) (a : α) :
    Passing (expect e >>= fun _ => if b then failBefore cause else pure a) where
  forward {c} hc := by
    refine { answers := fun {b' d} h => ?_, faults := fun {f} h => ?_ }
    · obtain ⟨t, d', hrun, h⟩ := run_bind_eq_ok.mp h
      obtain ⟨htokens, hle⟩ := ((passing_expect e).forward hc).answers hrun
      split at h
      · cases h
      · cases h
        exact ⟨htokens, hle⟩
    · rcases run_bind_eq_error.mp h with h | ⟨t, d, hrun, h⟩
      · exact ((passing_expect e).forward hc).faults h
      · obtain ⟨hk, -, rfl⟩ := kind_ne_endOfInput_of_expect hrun
        have hnext := Cursor.next?_ne_none hc hk
        split at h
        · cases h
          simp only [Cursor.index_advance hnext, Cursor.previous_advance hnext, Nat.add_sub_cancel]
          exact ⟨Nat.le_refl _, c.getElem?_index⟩
        · cases h
  passes {c b' d} hc h := by
    obtain ⟨t, d', hrun, h⟩ := run_bind_eq_ok.mp h
    have hlt := (passing_expect e).passes hc hrun
    split at h
    · cases h
    · cases h
      exact hlt

instance forward_valueOf (t : Token) : Forward (valueOf t) := by
  unfold valueOf
  split <;> infer_instance

instance forward_mapM_loop (ts : List Token) (values : List String) :
    Forward (List.mapM.loop valueOf ts values) := by
  induction ts generalizing values with
  | nil => exact forward_pure values.reverse
  | cons t ts ih =>
    rw [List.mapM.loop]
    exact .bind inferInstance fun value => ih _

instance forward_mapM (ts : List Token) : Forward (ts.mapM valueOf) :=
  forward_mapM_loop ts []

/-! ### Repeated readings -/

instance forward_collectFor (round : Reading (Round α)) [Forward round] (rounds : Nat) :
    Forward (collectFor round rounds) := by
  induction rounds with
  | zero =>
    rw [collectFor]
    infer_instance
  | succ rounds ih =>
    rw [collectFor]
    refine .bind inferInstance fun answer => ?_
    cases answer <;> infer_instance

instance forward_collect (round : Reading (Round α)) [Forward round] : Forward (collect round) := by
  unfold collect
  infer_instance

instance forward_upToBrace (unfinished : FaultCause) (item : Reading α) [Forward item] :
    Forward (upToBrace unfinished item) := by
  unfold upToBrace
  infer_instance

instance forward_commaList (item : Reading α) [Forward item] (closing : TokenKind) :
    Forward (commaList item closing) := by
  unfold commaList
  infer_instance

instance forward_separated (first : Reading α) (separator : Reading Bool) (item : Reading α) [Forward first]
    [Forward separator] [Forward item] : Forward (separated first separator item) := by
  unfold separated
  infer_instance

end Reading

namespace Grammar

open Reading

/-! ### Ascriptions -/

/-- Goes on to the token that stops an ascription, from a token of it at some depth of brackets. -/
def ascriptionRest (stops : List TokenKind) (depth : Nat) : Reading Unit := fun c =>
  .silent ((ascriptionStop stops depth c.before c.current c.after).map fun d => ((), d))

/-- An ascription is gone through token by token. -/
theorem run_ascriptionRest (stops : List TokenKind) (depth : Nat) {c : Cursor} (hc : Closed c.tokens) :
    (ascriptionRest stops depth).run c =
      (match ascriptionStep stops depth c.current with
        | .error cause => fail cause
        | .ok none => pure ()
        | .ok (some depth) => advance >>= fun _ => ascriptionRest stops depth : Reading Unit).run c := by
  obtain ⟨before, t, after⟩ := c
  cases after with
  | nil =>
    have hend : t.kind = .endOfInput := hc t (by simp [Cursor.tokens])
    have hstep : ascriptionStep stops depth t = .error .ascriptionUnfinished := by rw [ascriptionStep, if_pos hend]
    simp only [hstep]
    show ((ascriptionStop stops depth before t []).map fun d => ((), d)) = _
    rw [ascriptionStop, hstep]
    rfl
  | cons next after =>
    show ((ascriptionStop stops depth before t (next :: after)).map fun d => ((), d)) = _
    rw [ascriptionStop]
    dsimp only
    cases ascriptionStep stops depth t with
    | error cause => rfl
    | ok step => cases step <;> rfl

theorem kind_ne_endOfInput_of_step {stops : List TokenKind} {depth : Nat} {t : Token} {step : Option Nat}
    (h : ascriptionStep stops depth t = .ok step) : t.kind ≠ .endOfInput := by
  intro hend
  rw [ascriptionStep, if_pos hend] at h
  cases h

/-- An ascription that stops at once is empty. -/
theorem run_ascription_eq (stops : List TokenKind) (c : Cursor) :
    (ascription stops).run c = (do
      ascriptionRest stops 0
      let d ← cursor
      if d.index = c.index then fail .ascriptionEmpty
      else return textBetween c.tokens c.current.start d.previous.stop : Reading String).run c := by
  have hrest : (ascriptionRest stops 0).run c =
    (ascriptionStop stops 0 c.before c.current c.after).map fun d => ((), d) := rfl
  rw [run_bind, hrest]
  show (ascriptionStop stops 0 c.before c.current c.after).bind _ = _
  cases ascriptionStop stops 0 c.before c.current c.after with
  | error failure => rfl
  | ok d =>
    simp only [Except.bind, Except.map, run_bind, run_cursor]
    split <;> rfl

instance forward_ascriptionRest (stops : List TokenKind) (depth : Nat) : Forward (ascriptionRest stops depth) where
  forward {c} hc := by
    induction hn : c.after.length using Nat.strongRecOn generalizing c depth with
    | ind n ih =>
      refine ForwardFrom.congr ?_ (run_ascriptionRest stops depth hc)
      split
      · exact (passing_fail _).forward hc
      · exact (forward_pure _).forward hc
      · next depth hstep =>
        refine (forward_advance.forward hc).bind fun t d hrun => ?_
        cases hrun
        have hnext := Cursor.next?_ne_none hc (kind_ne_endOfInput_of_step hstep)
        have hlength := Cursor.length_after_advance hnext
        exact ih c.advance.after.length (by omega) depth (c.tokens_advance ▸ hc) rfl

instance forward_ascription (stops : List TokenKind) : Forward (ascription stops) where
  forward {c} hc := by
    have h : Forward (do
        ascriptionRest stops 0
        let d ← cursor
        if d.index = c.index then fail .ascriptionEmpty
        else return textBetween c.tokens c.current.start d.previous.stop : Reading String) := inferInstance
    exact (h.forward hc).congr (run_ascription_eq stops c)

/-! ### Patterns -/

variable (inner : Reading Node) [Forward inner]

instance forward_label? : Forward label? := by
  unfold label?
  infer_instance

instance forward_patternArgument : Forward (patternArgument inner) := by
  unfold patternArgument
  infer_instance

instance forward_patternArguments : Forward (patternArguments inner) := by
  unfold patternArguments
  infer_instance

instance forward_namePattern : Forward (namePattern inner) := by
  unfold namePattern
  infer_instance

instance forward_negatedPattern : Forward negatedPattern := by
  unfold negatedPattern
  refine .bind inferInstance fun t => .bind inferInstance fun number => ?_
  split <;> infer_instance

instance forward_tuplePattern : Forward (tuplePattern inner) := by
  unfold tuplePattern
  infer_instance

instance forward_entries (element : Reading Node) (tail : Token → Reading Node) [Forward element]
    [∀ t, Forward (tail t)] : Forward (entries element tail) := by
  unfold entries
  infer_instance

instance forward_tailPattern (dots : Token) : Forward (tailPattern inner dots) := by
  unfold tailPattern
  infer_instance

instance forward_listPattern : Forward (listPattern inner) := by
  unfold listPattern
  infer_instance

instance forward_primaryPattern : Forward (primaryPattern inner) := by
  unfold primaryPattern
  refine .bind inferInstance fun t => ?_
  split <;> infer_instance

instance forward_patternWith : Forward (patternWith inner) := by
  unfold patternWith
  infer_instance

instance forward_patternWithin (depth : Nat) : Forward (patternWithin depth) := by
  induction depth with
  | zero =>
    unfold patternWithin
    infer_instance
  | succ depth ih =>
    unfold patternWithin
    infer_instance

instance forward_pattern : Forward pattern := by
  unfold pattern
  infer_instance

/-! ### Statements and blocks -/

variable (expression : Reading Node) [Forward expression]

instance forward_ascriptionBehind (mark : TokenKind) (stops : List TokenKind) :
    Forward (ascriptionBehind mark stops) := by
  unfold ascriptionBehind
  infer_instance

instance forward_assignment : Forward (assignment expression) := by
  unfold assignment
  infer_instance

instance forward_usePattern : Forward usePattern := by
  unfold usePattern
  infer_instance

instance forward_use : Forward (use expression) := by
  unfold use
  infer_instance

instance forward_statement : Forward (statement expression) := by
  unfold statement
  infer_instance

instance passing_block : Passing (block expression) := by
  unfold block
  infer_instance

instance forward_name? : Forward name? := by
  unfold name?
  infer_instance

instance forward_parameter : Forward parameter := by
  unfold parameter
  refine .bind inferInstance fun first => .bind inferInstance fun second => .bind inferInstance fun ascription => ?_
  split <;> infer_instance

/-! ### Expressions -/

instance forward_argument : Forward (argument expression) := by
  unfold argument
  infer_instance

instance forward_fieldLabel : Forward fieldLabel := by
  unfold fieldLabel
  refine .bind inferInstance fun t => ?_
  split <;> infer_instance

instance forward_suffix : Forward (suffix expression) := by
  unfold suffix
  infer_instance

instance forward_tuple : Forward (tuple expression) := by
  unfold tuple
  infer_instance

instance forward_list : Forward (list expression) := by
  unfold list
  infer_instance

instance forward_lambda : Forward (lambda expression) := by
  unfold lambda
  infer_instance

instance forward_clausePatterns : Forward clausePatterns := by
  unfold clausePatterns
  infer_instance

instance forward_clause : Forward (clause expression) := by
  unfold clause
  infer_instance

instance forward_choice : Forward (choice expression) := by
  unfold choice
  infer_instance

instance forward_message : Forward (message expression) := by
  unfold message
  infer_instance

instance forward_keywordExpression : Forward (keywordExpression expression) := by
  unfold keywordExpression
  refine .bind inferInstance fun t => ?_
  split <;> infer_instance

instance forward_primary : Forward (primary expression) := by
  unfold primary
  refine @forward_traced _ _ _ _ (.bind inferInstance fun t => ?_)
  split <;> infer_instance

instance forward_sign : Forward sign := by
  unfold sign
  infer_instance

instance forward_operand : Forward (operand expression) := by
  unfold operand
  infer_instance

instance forward_operation (inner : Int → Reading Node) [∀ least, Forward (inner least)] (least : Int) :
    Forward (operation inner least) := by
  unfold operation
  refine .bind inferInstance fun t => ?_
  split <;> infer_instance

instance forward_expressionWith (inner : Int → Reading Node) [∀ least, Forward (inner least)] (least : Int) :
    Forward (expressionWith inner least) := by
  unfold expressionWith
  infer_instance

instance forward_expressionWithin (depth : Nat) (least : Int) : Forward (expressionWithin depth least) := by
  induction depth generalizing least with
  | zero =>
    unfold expressionWithin
    infer_instance
  | succ depth ih =>
    unfold expressionWithin
    infer_instance

instance forward_expressionFrom (least : Int) : Forward (expressionFrom least) := by
  unfold expressionFrom
  infer_instance

instance forward_expression : Forward Grammar.expression := by
  unfold Grammar.expression
  infer_instance

/-! ### Modules -/

instance forward_nameOr (cause : FaultCause) : Forward (nameOr cause) := by
  unfold nameOr
  refine .bind inferInstance fun t => ?_
  split <;> infer_instance

instance forward_importedName : Forward importedName := by
  unfold importedName
  infer_instance

instance forward_importedNames : Forward importedNames := by
  unfold importedNames
  infer_instance

instance forward_importing : Forward importing := by
  unfold importing
  infer_instance

instance forward_function : Forward function := by
  unfold function
  infer_instance

instance forward_definition : Forward definition := by
  unfold definition
  infer_instance

instance forward_wholeModule : Forward wholeModule := by
  unfold wholeModule
  infer_instance

end Grammar

end ScopeLint
