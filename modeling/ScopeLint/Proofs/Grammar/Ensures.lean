import ScopeLint.Grammar.Reading

/-!
# What a reading ensures

`r.Ensures allowed c Q` says of the reading `r` from the cursor `c` that its answer and the cursor behind it have the
property `Q`, and that it fails in an allowed way if it fails.  A property of a rule of the grammar is proved by going
through the rule: each small reading has an equation here that says what it ensures, and a repeated reading has one
law (`ensures_collect`), in which the tokens ahead bound the rounds.
-/

namespace ScopeLint.Reading

variable {α β : Type} {allowed : ReadFailure → Prop} {c : Cursor}

/-- A reading answers with a property, or fails in an allowed way. -/
def Ensures (allowed : ReadFailure → Prop) (r : Reading α) (c : Cursor) (Q : α → Cursor → Prop) : Prop :=
  match r.run c with
  | .ok (a, d) => Q a d
  | .error failure => allowed failure

theorem Ensures.mono {r : Reading α} {Q Q' : α → Cursor → Prop} (h : r.Ensures allowed c Q)
    (hQ : ∀ a d, Q a d → Q' a d) : r.Ensures allowed c Q' := by
  unfold Ensures at h ⊢
  split <;> simp_all

theorem Ensures.of_run {r : Reading α} {Q : α → Cursor → Prop} (h : r.Ensures allowed c Q) {a : α} {d : Cursor}
    (hrun : r.run c = .ok (a, d)) : Q a d := by
  simpa [Ensures, hrun] using h

theorem Ensures.of_error {r : Reading α} {Q : α → Cursor → Prop} (h : r.Ensures allowed c Q) {failure : ReadFailure}
    (hrun : r.run c = .error failure) : allowed failure := by
  simpa [Ensures, hrun] using h

theorem Ensures.and {r : Reading α} {Q Q' : α → Cursor → Prop} (h : r.Ensures allowed c Q)
    (h' : r.Ensures allowed c Q') : r.Ensures allowed c fun a d => Q a d ∧ Q' a d := by
  unfold Ensures at h h' ⊢
  split <;> simp_all

theorem ensures_congr {r r' : Reading α} (h : r.run c = r'.run c) {Q : α → Cursor → Prop} :
    r.Ensures allowed c Q ↔ r'.Ensures allowed c Q := by
  rw [Ensures, Ensures, h]

/-! ### The small readings -/

@[simp] theorem ensures_pure (a : α) (Q : α → Cursor → Prop) : (pure a : Reading α).Ensures allowed c Q ↔ Q a c :=
  Iff.rfl

theorem ensures_bind (r : Reading α) (f : α → Reading β) (Q : β → Cursor → Prop) :
    (r >>= f).Ensures allowed c Q ↔ r.Ensures allowed c fun a d => (f a).Ensures allowed d Q := by
  simp only [Ensures, run_bind]
  cases r.run c <;> rfl

@[simp] theorem ensures_failing (failure : ReadFailure) (Q : α → Cursor → Prop) :
    (failing failure).Ensures allowed c Q ↔ allowed failure :=
  Iff.rfl

@[simp] theorem ensures_note (event : ReadEvent) (Q : Unit → Cursor → Prop) :
    (note event).Ensures allowed c Q ↔ Q () c :=
  Iff.rfl

@[simp] theorem ensures_cursor (Q : Cursor → Cursor → Prop) : cursor.Ensures allowed c Q ↔ Q c c :=
  Iff.rfl

@[simp] theorem ensures_current (Q : Token → Cursor → Prop) : current.Ensures allowed c Q ↔ Q c.current c :=
  Iff.rfl

@[simp] theorem ensures_advance (Q : Token → Cursor → Prop) : advance.Ensures allowed c Q ↔ Q c.current c.advance :=
  Iff.rfl

@[simp] theorem ensures_fail (cause : FaultCause) (Q : α → Cursor → Prop) :
    (fail cause).Ensures allowed c Q ↔ allowed (.fault ⟨cause, c.current, c.index⟩) :=
  Iff.rfl

@[simp] theorem ensures_failBefore (cause : FaultCause) (Q : α → Cursor → Prop) :
    (failBefore cause).Ensures allowed c Q ↔ allowed (.fault ⟨cause, c.previous, c.index - 1⟩) :=
  Iff.rfl

@[simp] theorem ensures_sees (kind : TokenKind) (Q : Bool → Cursor → Prop) :
    (sees kind).Ensures allowed c Q ↔ Q (c.current.is kind none) c :=
  Iff.rfl

@[simp] theorem ensures_seesNext (kind : TokenKind) (Q : Bool → Cursor → Prop) :
    (seesNext kind).Ensures allowed c Q ↔ Q (c.next?.any fun t => t.is kind none) c :=
  Iff.rfl

theorem ensures_ite (b : Prop) [Decidable b] (r s : Reading α) (Q : α → Cursor → Prop) :
    (if b then r else s).Ensures allowed c Q ↔ if b then r.Ensures allowed c Q else s.Ensures allowed c Q := by
  split <;> rfl

@[simp] theorem ensures_traced (rule : Rule) (product : α → Product) (r : Reading α) (Q : α → Cursor → Prop) :
    (traced rule product r).Ensures allowed c Q ↔ r.Ensures allowed c Q :=
  ensures_congr (run_traced rule product r c)

theorem ensures_valueOf (t : Token) (Q : String → Cursor → Prop) :
    (valueOf t).Ensures allowed c Q ↔
      match t.value with
      | some value => Q value c
      | none => allowed .noToken := by
  cases h : t.value <;> simp [valueOf, h]

/-! ### Looking at a token and passing over it -/

theorem ensures_accepts (kind : TokenKind) (Q : Bool → Cursor → Prop) :
    (accepts kind).Ensures allowed c Q ↔ if c.current.kind = kind then Q true c.advance else Q false c := by
  simp only [accepts, ensures_bind, ensures_sees, ensures_ite, ensures_advance, ensures_pure, Token.is,
    Option.isNone_none, Bool.true_or, Bool.and_true, beq_iff_eq]

theorem ensures_acceptsWord (kind : TokenKind) (value : String) (Q : Bool → Cursor → Prop) :
    (acceptsWord kind value).Ensures allowed c Q ↔
      if c.current.kind = kind ∧ c.current.value = some value then Q true c.advance else Q false c := by
  simp only [acceptsWord, seesWord, ensures_bind, ensures_current, ensures_ite, ensures_advance, ensures_pure, Token.is,
    Option.isNone_some, Bool.false_or, Bool.and_eq_true, beq_iff_eq]

theorem ensures_behind (mark : Reading Bool) (r : Reading α) (Q : Option α → Cursor → Prop) :
    (behind mark r).Ensures allowed c Q ↔
      mark.Ensures allowed c fun b d => if b then r.Ensures allowed d fun a => Q (some a) else Q none d := by
  simp only [behind, ensures_bind, ensures_ite, ensures_pure]

/-- The token that has to stand at a place. -/
def Expectation.Met (e : Expectation) (t : Token) : Prop :=
  t.kind = e.kind ∧ ∀ value, e.value = some value → t.value = some value

theorem ensures_expect (hfault : ∀ fault, allowed (.fault fault)) {e : Expectation} {Q : Token → Cursor → Prop}
    (h : Expectation.Met e c.current → Q c.current c.advance) : (expect e).Ensures allowed c Q := by
  simp only [expect, ensures_bind, ensures_current, ensures_ite, ensures_fail]
  split
  · exact hfault _
  · split
    · next his =>
      simp only [Token.is, Bool.and_eq_true, Bool.or_eq_true, beq_iff_eq, Option.isNone_iff_eq_none] at his
      exact h ⟨his.1, fun value hv => his.2.elim (fun hn => by simp [hn] at hv) fun he => he.trans hv⟩
    · exact hfault _

/-! ### Repeated readings -/

/-- What is ensured of a repeated reading.  `I` holds before each round, and `P c as d` says that the items `as` are
read between two cursors.  A round that reads an item comes nearer to the end of the list, unless a reading without an
end is allowed. -/
private theorem ensures_collectFor {round : Reading (Round α)} {I : Cursor → Prop} {P : Cursor → List α → Cursor → Prop}
    (hround : ∀ c, I c → round.Ensures allowed c fun r d =>
      match r with
      | .stop => P c [] d
      | .last a => P c [a] d
      | .more a => I d ∧ (allowed .endless ∨ d.after.length < c.after.length) ∧ ∀ as e, P d as e → P c (a :: as) e)
    (rounds : Nat) (c : Cursor) (hc : I c) (hrounds : allowed .endless ∨ c.after.length < rounds) :
    (collectFor round rounds).Ensures allowed c (P c) := by
  induction rounds generalizing c with
  | zero => exact hrounds.resolve_right (Nat.not_lt_zero _)
  | succ rounds ih =>
    rw [collectFor, ensures_bind]
    refine (hround c hc).mono fun r d hr => ?_
    cases r with
    | stop => exact hr
    | last a => exact hr
    | more a =>
      obtain ⟨hd, hless, hcons⟩ := hr
      rw [ensures_bind]
      refine (ih d hd ?_).mono fun as e has => hcons as e has
      rcases hless with hless | hless
      · exact .inl hless
      · exact hrounds.imp_right fun _ => by omega

theorem ensures_collect {round : Reading (Round α)} {I : Cursor → Prop} {P : Cursor → List α → Cursor → Prop}
    (hround : ∀ c, I c → round.Ensures allowed c fun r d =>
      match r with
      | .stop => P c [] d
      | .last a => P c [a] d
      | .more a => I d ∧ (allowed .endless ∨ d.after.length < c.after.length) ∧ ∀ as e, P d as e → P c (a :: as) e)
    (hc : I c) : (collect round).Ensures allowed c (P c) := by
  rw [collect, ensures_bind, ensures_cursor]
  exact ensures_collectFor hround _ c hc (.inr (by simp only [Cursor.reach]; omega))

end ScopeLint.Reading
