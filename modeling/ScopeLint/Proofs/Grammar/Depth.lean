import ScopeLint.Proofs.Grammar.Forward
import ScopeLint.Proofs.Grammar.ModuleReading

/-!
# Depth

A rule for expressions takes the reading of further expressions as an argument, and an expression is read by a rule of
some depth.  More depth makes no difference to a reading that comes to an end: a reading extends another one if it does
what that does wherever that comes to an end (`Reading.Extends`), and a rule extends itself if its argument is extended.
So what a rule of some depth has read is what the rule itself reads (`Grammar.run_operand_expression`).

As for going forward, this is a class, with an instance for each way to put readings together and for each rule.
-/

namespace ScopeLint

/-- A cursor of a list that ends with the mark for the end of the input is ended, if readings may fail for a missing
value. -/
theorem Cursor.ended_of_closed {c : Cursor} (hc : Closed c.tokens) : c.Ended ReadFailure.Ends where
  closed e he := hc e (by simpa [tokens, ahead] using he)
  valued := .inl ReadFailure.noConfusion

namespace Reading

variable {α β : Type}

/-- The second reading does what the first one does, from every cursor from which the first one comes to an end. -/
class Extends (r r' : Reading α) : Prop where
  run : ∀ c, r.run c = .error .endless ∨ r'.run c = r.run c

variable {r r' s s' : Reading α} {f f' : α → Reading β}

/-- What the first reading has read, the second one reads. -/
theorem Extends.run_eq_ok (h : Extends r r') {c d : Cursor} {a : α} (hrun : r.run c = .ok (a, d)) :
    r'.run c = .ok (a, d) := by
  rcases h.run c with hendless | heq
  · rw [hrun] at hendless
    cases hendless
  · rw [heq, hrun]

instance extends_refl (r : Reading α) : Extends r r :=
  ⟨fun _ => .inr rfl⟩

instance extends_endless (r : Reading α) : Extends (failing .endless) r :=
  ⟨fun _ => .inl rfl⟩

instance extends_bind [hr : Extends r r'] [hf : ∀ a, Extends (f a) (f' a)] : Extends (r >>= f) (r' >>= f') where
  run c := by
    rcases hr.run c with hendless | heq
    · exact .inl (run_bind_eq_error.mpr (.inl hendless))
    · rw [run_bind, run_bind, heq]
      cases r.run c with
      | error failure => exact .inr rfl
      | ok answer => exact (hf answer.1).run answer.2

instance extends_ite (b : Prop) [Decidable b] [Extends r r'] [Extends s s'] :
    Extends (if b then r else s) (if b then r' else s') := by
  split <;> infer_instance

instance extends_traced (rule : Rule) (product : α → Product) [h : Extends r r'] :
    Extends (traced rule product r) (traced rule product r') where
  run c := by
    rw [run_traced, run_traced]
    exact h.run c

instance extends_behind (mark : Reading Bool) [Extends r r'] : Extends (behind mark r) (behind mark r') := by
  unfold behind
  infer_instance

/-! ### Repeated readings -/

instance extends_collectFor {round round' : Reading (Round α)} [Extends round round'] (rounds : Nat) :
    Extends (collectFor round rounds) (collectFor round' rounds) := by
  induction rounds with
  | zero => exact extends_refl _
  | succ rounds ih =>
    rw [collectFor, collectFor]
    refine @extends_bind _ _ _ _ _ _ _ fun answer => ?_
    cases answer <;> infer_instance

instance extends_collect {round round' : Reading (Round α)} [Extends round round'] :
    Extends (collect round) (collect round') := by
  unfold collect
  infer_instance

instance extends_upToBrace (unfinished : FaultCause) [Extends r r'] :
    Extends (upToBrace unfinished r) (upToBrace unfinished r') := by
  unfold upToBrace
  infer_instance

instance extends_commaList [Extends r r'] (closing : TokenKind) :
    Extends (commaList r closing) (commaList r' closing) := by
  unfold commaList
  infer_instance

instance extends_separated (separator : Reading Bool) [Extends r r'] [Extends s s'] :
    Extends (separated r separator s) (separated r' separator s') := by
  unfold separated
  infer_instance

end Reading

namespace Grammar

open Reading

/-! ### Rules -/

variable {expression expression' : Reading Node} [Extends expression expression']

instance extends_entries {tail tail' : Token → Reading Node} [∀ t, Extends (tail t) (tail' t)] :
    Extends (entries expression tail) (entries expression' tail') := by
  unfold entries
  infer_instance

instance extends_assignment : Extends (assignment expression) (assignment expression') := by
  unfold assignment
  infer_instance

instance extends_use : Extends (use expression) (use expression') := by
  unfold use
  infer_instance

instance extends_statement : Extends (statement expression) (statement expression') := by
  unfold statement
  infer_instance

instance extends_block : Extends (block expression) (block expression') := by
  unfold block
  infer_instance

instance extends_argument : Extends (argument expression) (argument expression') := by
  unfold argument
  infer_instance

instance extends_suffix : Extends (suffix expression) (suffix expression') := by
  unfold suffix
  infer_instance

instance extends_tuple : Extends (tuple expression) (tuple expression') := by
  unfold tuple
  infer_instance

instance extends_list : Extends (list expression) (list expression') := by
  unfold list
  infer_instance

instance extends_lambda : Extends (lambda expression) (lambda expression') := by
  unfold lambda
  infer_instance

instance extends_clause : Extends (clause expression) (clause expression') := by
  unfold clause
  infer_instance

instance extends_choice : Extends (choice expression) (choice expression') := by
  unfold choice
  infer_instance

instance extends_message : Extends (message expression) (message expression') := by
  unfold message
  infer_instance

instance extends_keywordExpression : Extends (keywordExpression expression) (keywordExpression expression') := by
  unfold keywordExpression
  refine @extends_bind _ _ _ _ _ _ _ fun t => ?_
  split <;> infer_instance

instance extends_primary : Extends (primary expression) (primary expression') := by
  unfold primary
  refine @extends_traced _ _ _ _ _ (@extends_bind _ _ _ _ _ _ _ fun t => ?_)
  split <;> infer_instance

instance extends_operand : Extends (operand expression) (operand expression') := by
  unfold operand
  infer_instance

section

variable {inner inner' : Int → Reading Node} [∀ least, Extends (inner least) (inner' least)]

instance extends_operation (least : Int) : Extends (operation inner least) (operation inner' least) := by
  unfold operation
  refine @extends_bind _ _ _ _ _ _ _ fun t => ?_
  split <;> infer_instance

instance extends_expressionWith (least : Int) : Extends (expressionWith inner least) (expressionWith inner' least) := by
  unfold expressionWith
  infer_instance

end

/-! ### Expressions -/

/-- More depth extends the reading of an expression. -/
theorem extends_expressionWithin {depth depth' : Nat} (h : depth ≤ depth') (least : Int) :
    Extends (expressionWithin depth least) (expressionWithin depth' least) := by
  induction depth generalizing depth' least with
  | zero => exact extends_endless _
  | succ depth ih =>
    obtain ⟨depth', rfl⟩ := Nat.exists_eq_add_of_lt h
    have hinner : ∀ least, Extends (expressionWithin depth least) (expressionWithin (depth + depth') least) :=
      fun least => ih (Nat.le_add_right depth depth') least
    exact extends_expressionWith least

/-- An expression read with a depth that is no less than a bound, and no less than the tokens ahead need. -/
def expressionBeyond (depth : Nat) (least : Int) : Reading Node := do
  expressionWithin (max depth (← cursor).reach) least

theorem run_expressionFrom (least : Int) (c : Cursor) :
    (expressionFrom least).run c = (expressionWithin c.reach least).run c := by
  rw [expressionFrom, run_bind, run_cursor]
  rfl

theorem run_expressionBeyond (depth : Nat) (least : Int) (c : Cursor) :
    (expressionBeyond depth least).run c = (expressionWithin (max depth c.reach) least).run c := by
  rw [expressionBeyond, run_bind, run_cursor]
  rfl

instance extends_beyond_within (depth : Nat) (least : Int) :
    Extends (expressionWithin depth least) (expressionBeyond depth least) where
  run c := by
    rw [run_expressionBeyond]
    exact (extends_expressionWithin (le_max_left depth c.reach) least).run c

instance extends_beyond_from (depth : Nat) (least : Int) :
    Extends (expressionFrom least) (expressionBeyond depth least) where
  run c := by
    rw [run_expressionFrom, run_expressionBeyond]
    exact (extends_expressionWithin (le_max_right depth c.reach) least).run c

instance extends_beyond_expression (depth : Nat) :
    Extends Grammar.expression (expressionBeyond depth loosest) :=
  extends_beyond_from depth loosest

/-- The knot is tied: what is read as an expression is read by the rule for expressions with expressions in it. -/
theorem run_expressionFrom_eq {c : Cursor} (hc : Closed c.tokens) (least : Int) :
    (expressionFrom least).run c = (expressionWith expressionFrom least).run c := by
  have hended := Cursor.ended_of_closed hc
  have hclimbs : ClimbsWithin ReadFailure.Ends (c.after.length + 1) expressionFrom := by
    intro least d hd _
    have h := expressionWithin_climbsWithin d.reach least d hd (by rw [Cursor.reach]; omega)
    exact (ensures_congr (run_expressionFrom least d)).mpr h
  have hfrom : (expressionFrom least).run c ≠ .error .endless := fun hrun =>
    (expressionFrom_reads hended least).of_error hrun rfl
  have hwith : (expressionWith expressionFrom least).run c ≠ .error .endless := fun hrun =>
    (expressionWith_climbsWithin hclimbs least c hended (by omega)).of_error hrun rfl
  rw [run_expressionFrom] at hfrom ⊢
  -- Both are extended by the reading with depth enough for all expressions in it.
  have hdeep : Extends (expressionWith (expressionWithin (c.after.length + 1)) least)
      (expressionWith (expressionBeyond (c.after.length + 1)) least) := inferInstance
  have hflat : Extends (expressionWith expressionFrom least)
      (expressionWith (expressionBeyond (c.after.length + 1)) least) := inferInstance
  rcases hdeep.run c with hendless | hdeep
  · exact absurd hendless hfrom
  rcases hflat.run c with hendless | hflat
  · exact absurd hendless hwith
  exact hdeep.symm.trans hflat

/-- From a list that ends with the mark for the end of the input, reading an operand comes to an end. -/
theorem run_operand_ne_endless {c : Cursor} (hc : Closed c.tokens) :
    (operand Grammar.expression).run c ≠ .error .endless := by
  intro hrun
  exact (operand_readsWithin (n := c.after.length) (fun _ hc _ => expression_reads hc) c
    (Cursor.ended_of_closed hc) (Nat.lt_succ_self _)).of_error hrun rfl

/-- What has been read as an operand with expressions of some depth in it is what is read as an operand. -/
theorem run_operand_expression {c d : Cursor} (hc : Closed c.tokens) {depth : Nat} {e : Node}
    (h : (operand (expressionWithin depth loosest)).run c = .ok (e, d)) :
    (operand Grammar.expression).run c = .ok (e, d) := by
  have hbeyond : (operand (expressionBeyond depth loosest)).run c = .ok (e, d) :=
    extends_operand.run_eq_ok h
  have hextends : Extends (operand Grammar.expression) (operand (expressionBeyond depth loosest)) := inferInstance
  rcases hextends.run c with hendless | heq
  · exact absurd hendless (run_operand_ne_endless hc)
  · rw [← heq, hbeyond]

end Grammar

end ScopeLint
