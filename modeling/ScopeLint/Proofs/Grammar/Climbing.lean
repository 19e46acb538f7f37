import ScopeLint.Proofs.Grammar.Depth

/-!
# Operators between operands

An expression is read as operands with operators between them, up to the first token that is no operator or does not
bind tightly enough (`Grammar.OperationsRead`).  Of all trees that say these operands and operators from left to right,
one is ordered: no operator in it binds tighter than one that it stands to the right of, or as tightly as one that it
stands to the left of.

* `OperatorTree.Arranges.unique`: there is one ordered tree at most, since its outermost operator is the last one of the
  loosest.
* `Grammar.expressionFrom_climbs`: what is read as an expression is the node of this tree.
-/

namespace ScopeLint

/-! ### Trees of operators -/

/-- How tightly an operator binds. -/
def Token.tightness (t : Token) : Nat :=
  (Grammar.tightness? t.text).getD 0

/-- A tree of operators between operands. -/
inductive OperatorTree where
  | operand (node : Node)
  | operation (operator : Token) (left right : OperatorTree)

namespace OperatorTree

/-- The node of a tree. -/
def node : OperatorTree → Node
  | operand node => node
  | operation operator left right => .binary operator.anchor operator.text left.node right.node

/-- The first operand of a tree. -/
def first : OperatorTree → Node
  | operand node => node
  | operation _ left _ => left.first

/-- The operators of a tree from left to right, each with the operand behind it. -/
def operations : OperatorTree → List (Token × Node)
  | operand _ => []
  | operation operator left right => left.operations ++ (operator, right.first) :: right.operations

/-- The outermost operator has a property, if there is one. -/
def OnRoot (p : Token → Prop) : OperatorTree → Prop
  | operand _ => True
  | operation operator _ _ => p operator

/-- Every operator binds no tighter than the operator of its left part, and less tightly than that of its right part. -/
def Ordered : OperatorTree → Prop
  | operand _ => True
  | operation operator left right =>
    left.OnRoot (operator.tightness ≤ ·.tightness) ∧ right.OnRoot (operator.tightness < ·.tightness) ∧
      left.Ordered ∧ right.Ordered

/-- The tree is ordered, and says an operand and the operations behind it from left to right. -/
structure Arranges (tree : OperatorTree) (first : Node) (operations : List (Token × Node)) : Prop where
  first : tree.first = first
  operations : tree.operations = operations
  ordered : tree.Ordered

variable {tree : OperatorTree}

theorem OnRoot.mono {p q : Token → Prop} (h : tree.OnRoot p) (hpq : ∀ t, p t → q t) : tree.OnRoot q := by
  cases tree with
  | operand node => trivial
  | operation operator left right => exact hpq operator h

/-- What holds of all operators holds of the outermost one. -/
theorem onRoot_of_operations {p : Token → Prop} (h : ∀ o ∈ tree.operations, p o.1) : tree.OnRoot p := by
  cases tree with
  | operand node => trivial
  | operation operator left right => exact h (operator, right.first) (by simp [operations])

/-- In an ordered tree, all operators bind at least as tightly as the outermost one. -/
theorem Ordered.le_tightness (h : tree.Ordered) {least : Nat} (hroot : tree.OnRoot (least ≤ ·.tightness)) :
    ∀ o ∈ tree.operations, least ≤ o.1.tightness := by
  induction tree with
  | operand node => simp [operations]
  | operation operator left right ihleft ihright =>
    obtain ⟨hleft, hright, hleftOrdered, hrightOrdered⟩ := h
    intro o ho
    rcases List.mem_append.mp ho with ho | ho
    · exact ihleft hleftOrdered (hleft.mono fun _ hle => hroot.trans hle) o ho
    · rcases List.mem_cons.mp ho with rfl | ho
      · exact hroot
      · exact ihright hrightOrdered (hright.mono fun _ hlt => hroot.trans hlt.le) o ho

/-- A list is split at the last one of its loosest operators in one way only. -/
private theorem split_unique {as bs as' bs' : List (Token × Node)} {x x' : Token × Node}
    (h : as ++ x :: bs = as' ++ x' :: bs')
    (has : ∀ o ∈ as, x.1.tightness ≤ o.1.tightness) (hbs : ∀ o ∈ bs, x.1.tightness < o.1.tightness)
    (has' : ∀ o ∈ as', x'.1.tightness ≤ o.1.tightness) (hbs' : ∀ o ∈ bs', x'.1.tightness < o.1.tightness) :
    as = as' ∧ x = x' ∧ bs = bs' := by
  rcases List.append_eq_append_iff.mp h with ⟨mid, hmid, hrest⟩ | ⟨mid, hmid, hrest⟩
  · cases mid with
    | nil =>
      obtain ⟨hx, hbs⟩ := List.cons.inj hrest
      exact ⟨by simpa using hmid.symm, hx, hbs⟩
    | cons y mid =>
      obtain ⟨rfl, rfl⟩ := List.cons.inj hrest
      have hle := has' x (by simp [hmid])
      have hlt := hbs x' (by simp)
      omega
  · cases mid with
    | nil =>
      obtain ⟨hx, hbs⟩ := List.cons.inj hrest
      exact ⟨by simpa using hmid, hx.symm, hbs.symm⟩
    | cons y mid =>
      obtain ⟨rfl, rfl⟩ := List.cons.inj hrest
      have hle := has x' (by simp [hmid])
      have hlt := hbs' x (by simp)
      omega

/-- One tree at most arranges an operand and operations. -/
theorem Arranges.unique {tree tree' : OperatorTree} {first : Node} {operations : List (Token × Node)}
    (h : tree.Arranges first operations) (h' : tree'.Arranges first operations) : tree = tree' := by
  obtain ⟨rfl, rfl, hordered⟩ := h
  obtain ⟨hfirst, hoperations, hordered'⟩ := h'
  induction tree generalizing tree' with
  | operand node =>
    cases tree' with
    | operand node' => exact congrArg operand hfirst.symm
    | operation operator left right => simp [OperatorTree.operations] at hoperations
  | operation operator left right ihleft ihright =>
    cases tree' with
    | operand node' => simp [OperatorTree.operations] at hoperations
    | operation operator' left' right' =>
      obtain ⟨hleft, hright, hleftOrdered, hrightOrdered⟩ := hordered
      obtain ⟨hleft', hright', hleftOrdered', hrightOrdered'⟩ := hordered'
      obtain ⟨hbefore, hroot, hbehind⟩ := split_unique hoperations (hleftOrdered'.le_tightness hleft')
        (fun o ho => hrightOrdered'.le_tightness hright' o ho) (hleftOrdered.le_tightness hleft)
        (fun o ho => hrightOrdered.le_tightness hright o ho)
      obtain ⟨rfl, hrightFirst⟩ := Prod.mk.inj hroot
      have hleftFirst : left'.first = left.first := hfirst
      rw [ihleft hleftOrdered hleftFirst hbefore hleftOrdered',
        ihright hrightOrdered hrightFirst hbehind hrightOrdered']

/-- An operator at a cursor may have the tree on its left: it binds no tighter than the outermost operator. -/
def MayStandBefore (tree : OperatorTree) (d : Cursor) : Prop :=
  tree.OnRoot fun root => ∀ tightness : Nat, d.current.kind = .operator →
    Grammar.tightness? d.current.text = some tightness → tightness ≤ root.tightness

end OperatorTree

namespace Grammar

open Reading

/-! ### Reading operations -/

/-- Operators that bind at least as tightly as is told are read, each with the operand behind it, up to the first token
that is no such operator. -/
inductive OperationsRead (least : Int) : Cursor → List (Token × Node) → Cursor → Prop where
  | stop {c : Cursor} (stopped : Stopped least c) : OperationsRead least c [] c
  | more {c d e : Cursor} {tightness : Nat} {right : Node} {operations : List (Token × Node)}
      (kind : c.current.kind = .operator) (binds : tightness? c.current.text = some tightness)
      (enough : least ≤ tightness) (behind : (operand Grammar.expression).run c.advance = .ok (right, d))
      (rest : OperationsRead least d operations e) : OperationsRead least c ((c.current, right) :: operations) e

namespace OperationsRead

variable {least most : Int} {c d e : Cursor} {operations operations' : List (Token × Node)}

theorem stopped (h : OperationsRead least c operations d) : Stopped least d := by
  induction h with
  | stop stopped => exact stopped
  | more _ _ _ _ _ ih => exact ih

theorem le_tightness (h : OperationsRead least c operations d) : ∀ o ∈ operations, least ≤ o.1.tightness := by
  induction h with
  | stop => simp
  | more _ binds enough _ _ ih =>
    refine List.forall_mem_cons.mpr ⟨?_, ih⟩
    rwa [Token.tightness, binds]

/-- Operations that bind tighter are read on the way. -/
theorem append (h : OperationsRead most c operations d) (hle : least ≤ most)
    (h' : OperationsRead least d operations' e) : OperationsRead least c (operations ++ operations') e := by
  induction h with
  | stop => exact h'
  | more kind binds enough behind _ ih => exact .more kind binds (hle.trans enough) behind (ih h')

end OperationsRead

/-- A tree is read between two cursors: its first operand, and then its operations. -/
structure TreeRead (least : Int) (c : Cursor) (tree : OperatorTree) (d : Cursor) : Prop where
  ordered : tree.Ordered
  read : ∃ c', (operand Grammar.expression).run c = .ok (tree.first, c') ∧ OperationsRead least c' tree.operations d

variable {c : Cursor}

private theorem operand_climbs (hc : Closed c.tokens) (depth : Nat) :
    (operand (expressionWithin depth loosest)).Ensures AnyFailure c fun first d =>
      Closed d.tokens ∧ (operand Grammar.expression).run c = .ok (first, d) := by
  have hforward : Forward (operand (expressionWithin depth loosest)) := inferInstance
  unfold Ensures
  cases hrun : (operand (expressionWithin depth loosest)).run c with
  | error failure => trivial
  | ok answer => exact ⟨((hforward.forward hc).answers hrun).1 ▸ hc, run_operand_expression hc hrun⟩

/-- Between two cursors an ordered tree grows by some operations: the node that they make of its node is the node of a
larger ordered tree, which says them behind it. -/
def Grows (least : Int) (c : Cursor) (items : List (Token × Node)) (d : Cursor) : Prop :=
  ∀ left : OperatorTree, left.Ordered → left.MayStandBefore c →
    ∃ (tree : OperatorTree) (operations : List (Token × Node)),
      tree.node = operationsApplied left.node items ∧ tree.Arranges left.first (left.operations ++ operations) ∧
        OperationsRead least c operations d

theorem Grows.nil {least : Int} (h : Stopped least c) : Grows least c [] c :=
  fun left hleft _ => ⟨left, [], rfl, ⟨rfl, (List.append_nil _).symm, hleft⟩, .stop h⟩

/-- The operator at a cursor takes the tree so far on its left, and the tree of the tighter operators behind it on its
right. -/
theorem Grows.cons {least : Int} {d e : Cursor} {tightness : Nat} (hk : c.current.kind = .operator)
    (hbinds : tightness? c.current.text = some tightness) (hleast : least ≤ tightness) {right : OperatorTree}
    (h : TreeRead (tightness + 1) c.advance right d) {items : List (Token × Node)} (hrest : Grows least d items e) :
    Grows least c ((c.current, right.node) :: items) e := by
  intro left hleft hbefore
  obtain ⟨hordered, c', hfirst, hread⟩ := h
  have htightness : c.current.tightness = tightness := by rw [Token.tightness, hbinds, Option.getD_some]
  have hjoined : (OperatorTree.operation c.current left right).Ordered := by
    refine ⟨hbefore.mono fun root hroot => htightness ▸ hroot tightness hk hbinds, ?_, hleft, hordered⟩
    refine OperatorTree.onRoot_of_operations fun o ho => ?_
    have := hread.le_tightness o ho
    omega
  have hstands : (OperatorTree.operation c.current left right).MayStandBefore d := by
    intro other hk' hother
    have := hread.stopped other hk' hother
    omega
  obtain ⟨tree, operations, hnode, ⟨htree, hsaid, htreeOrdered⟩, hbehind⟩ := hrest _ hjoined hstands
  refine ⟨tree, (c.current, right.first) :: (right.operations ++ operations), hnode, ⟨htree, ?_, htreeOrdered⟩, ?_⟩
  · simpa [OperatorTree.operations] using hsaid
  · exact .more hk hbinds hleast hfirst (hread.append (by omega) hbehind)

private theorem operations_climb {inner : Int → Reading Node}
    (hinner : ∀ (least : Int) (c : Cursor), Closed c.tokens → (inner least).Ensures AnyFailure c fun e d =>
      Closed d.tokens ∧ ∃ tree : OperatorTree, tree.node = e ∧ TreeRead least c tree d)
    {least : Int} (hc : Closed c.tokens) :
    (collect (operation inner least)).Ensures AnyFailure c fun items d =>
      Closed d.tokens ∧ Grows least c items d := by
  refine ensures_collect (P := fun c items d => Closed d.tokens ∧ Grows least c items d)
    (I := fun c => Closed c.tokens) (fun c hc => ?_) hc
  rw [operation, ensures_bind, ensures_current]
  split
  case h_2 hnone => exact ⟨hc, .nil (.of_none hnone)⟩
  case h_1 tightness hsome =>
    obtain ⟨hk, hbinds⟩ : c.current.kind = .operator ∧ tightness? c.current.text = some tightness := by
      simpa using hsome
    rw [ensures_ite]
    split
    · next hloose =>
      refine ⟨hc, .nil fun other _ hother => ?_⟩
      rw [hbinds] at hother
      cases hother
      exact hloose
    · next htight =>
      simp only [ensures_bind, ensures_advance, ensures_pure]
      refine (hinner (tightness + 1) c.advance (c.tokens_advance ▸ hc)).mono ?_
      rintro _ d ⟨hd, right, rfl, hright⟩
      refine ⟨hd, .inl trivial, ?_⟩
      rintro items e ⟨he, hrest⟩
      exact ⟨he, .cons hk hbinds (by omega) hright hrest⟩

/-- However deep, an expression is read as an ordered tree. -/
theorem expressionWithin_climbs (depth : Nat) (least : Int) (c : Cursor) (hc : Closed c.tokens) :
    (expressionWithin depth least).Ensures AnyFailure c fun e d =>
      Closed d.tokens ∧ ∃ tree : OperatorTree, tree.node = e ∧ TreeRead least c tree d := by
  induction depth generalizing least c with
  | zero => trivial
  | succ depth ih =>
    simp only [expressionWithin, expressionWith, ensures_bind, ensures_pure]
    refine (operand_climbs hc depth).mono ?_
    rintro first c' ⟨hc', hfirst⟩
    refine (operations_climb ih hc').mono ?_
    rintro items d ⟨hd, hitems⟩
    obtain ⟨tree, operations, hnode, ⟨htree, hsaid, hordered⟩, hread⟩ := hitems (.operand first) trivial trivial
    refine ⟨hd, tree, hnode, hordered, c', ?_, ?_⟩
    · rw [htree]
      exact hfirst
    · rw [hsaid]
      exact hread

/-- What is read as an expression is an operand and operators behind it that bind at least as tightly as is told, each
with an operand of its own, up to the first token that is no such operator; and it is the node of the one ordered tree
that says them from left to right. -/
theorem expressionFrom_climbs {c d : Cursor} (hc : Closed c.tokens) (least : Int) {e : Node}
    (h : (expressionFrom least).run c = .ok (e, d)) :
    ∃ first operations c', (operand Grammar.expression).run c = .ok (first, c') ∧
      OperationsRead least c' operations d ∧
      ∃ tree : OperatorTree, tree.node = e ∧ tree.Arranges first operations ∧
        ∀ other : OperatorTree, other.Arranges first operations → other = tree := by
  rw [run_expressionFrom] at h
  obtain ⟨-, tree, hnode, hordered, c', hfirst, hread⟩ := (expressionWithin_climbs c.reach least c hc).of_run h
  have harranges : tree.Arranges tree.first tree.operations := ⟨rfl, rfl, hordered⟩
  refine ⟨tree.first, tree.operations, c', hfirst, hread, tree, hnode, harranges, fun _ hother => ?_⟩
  exact hother.unique harranges

/-- The tokens of `a - b * c - -d`, read from the first one on. -/
def chainCursor : Cursor :=
  ⟨[], ⟨.name, some "a", 1, 1, 0, 1⟩,
    [⟨.operator, some "-", 1, 3, 2, 3⟩, ⟨.name, some "b", 1, 5, 4, 5⟩, ⟨.operator, some "*", 1, 7, 6, 7⟩,
     ⟨.name, some "c", 1, 9, 8, 9⟩, ⟨.operator, some "-", 1, 11, 10, 11⟩, ⟨.operator, some "-", 1, 13, 12, 13⟩,
     ⟨.name, some "d", 1, 14, 13, 14⟩, ⟨.endOfInput, none, 1, 15, 14, 14⟩]⟩

/-- What the tokens are read as: the last of the two loosest operators is the outermost one. -/
def chainNode : Node :=
  .binary ⟨some 1, some 11⟩ "-"
    (.binary ⟨some 1, some 3⟩ "-" (.var ⟨some 1, some 1⟩ "a")
      (.binary ⟨some 1, some 7⟩ "*" (.var ⟨some 1, some 5⟩ "b") (.var ⟨some 1, some 9⟩ "c")))
    (.minus ⟨some 1, some 13⟩ (.var ⟨some 1, some 14⟩ "d"))

theorem climbs_chainCursor :
    Closed chainCursor.tokens ∧ ∃ d, (expressionFrom loosest).run chainCursor = .ok (chainNode, d) ∧
      ∃ first operations c', (operand Grammar.expression).run chainCursor = .ok (first, c') ∧
        OperationsRead loosest c' operations d ∧
        ∃ tree : OperatorTree, tree.node = chainNode ∧ tree.Arranges first operations ∧
          ∀ other : OperatorTree, other.Arranges first operations → other = tree := by
  have hclosed : Closed chainCursor.tokens := by
    rintro last ⟨⟩
    rfl
  have hrun : (expressionFrom loosest).run chainCursor = .ok (chainNode,
      ⟨chainCursor.tokens.dropLast.reverse, ⟨.endOfInput, none, 1, 15, 14, 14⟩, []⟩) := by rfl
  exact ⟨hclosed, _, hrun, expressionFrom_climbs hclosed loosest hrun⟩

end Grammar

end ScopeLint
