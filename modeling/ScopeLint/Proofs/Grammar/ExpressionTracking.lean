import ScopeLint.Proofs.Grammar.StatementTracking

/-!
# Expressions side by side

The rules for expressions read two lists in the same way as far as the lists say the same (`follows_expressionFrom`).
-/

namespace ScopeLint.Grammar

open Reading

variable {p : Twins} {c c' : Cursor} {expression expression' : Reading Node} [Forward expression]

/-! ### What stands behind an operand -/

theorem follows_argument (hexpression : Follows p (Node.LooksLike p.view) expression expression') :
    Follows p (Node.LooksLike p.view) (argument expression) (argument expression') := by
  intro c c' hat
  refine tracks_current (.bind hat (follows_label? hat) ?_)
  rintro label _ d d' rfl hat
  refine .bind hat (hexpression hat) fun hvalue hat => tracks_pure hat ?_
  simp only [Node.LooksLike] at hvalue
  simp only [Node.LooksLike, Node.outline, hvalue]

/-- Two suffixes of one sort that look alike. -/
inductive Suffix.LooksLike (view : String → String) : Suffix → Suffix → Prop where
  | call {anchor anchor' : Anchor} {as bs : List Node} (h : List.Forall₂ (Node.LooksLike view) as bs) :
      LooksLike view (.call anchor as) (.call anchor' bs)
  | field {anchor anchor' : Anchor} {label : String} : LooksLike view (.field anchor label) (.field anchor' label)

theorem looksLike_suffixed {view : String → String} {a b : Node} (h : a.LooksLike view b)
    {suffixes suffixes' : List Suffix} (hs : List.Forall₂ (Suffix.LooksLike view) suffixes suffixes') :
    (suffixes.foldl Suffix.applyTo a).LooksLike view (suffixes'.foldl Suffix.applyTo b) := by
  induction hs generalizing a b with
  | nil => exact h
  | cons hsuffix _ ih =>
    refine ih ?_
    simp only [Node.LooksLike] at h
    cases hsuffix with
    | call harguments => simp only [Suffix.applyTo, Node.LooksLike, Node.outline, h, outlineAll_eq harguments]
    | field => simp only [Suffix.applyTo, Node.LooksLike, Node.outline, h]

theorem follows_fieldLabel : Follows p Eq fieldLabel fieldLabel := by
  intro c c' hat
  refine tracks_current_of_alike hat (fun t hend => ⟨.noFieldLabel, by simp only [hend]⟩) fun halike => ?_
  rw [← halike.kind, ← halike.text]
  generalize hkind : c.current.kind = kind
  cases kind
  case name | upName | integer => exact tracks_advance hat (hkind ▸ by decide) fun _ hat => tracks_pure hat rfl
  all_goals exact tracks_fail hat _

theorem follows_suffix (hexpression : Follows p (Node.LooksLike p.view) expression expression') :
    Follows p (Round.Rel (Suffix.LooksLike p.view)) (suffix expression) (suffix expression') := by
  intro c c' hat
  refine tracks_current (.bind hat (tracks_accepts hat rfl) ?_)
  rintro called _ d d' rfl hat
  refine .ite Iff.rfl (fun _ => ?_) fun _ => .bind hat (tracks_accepts hat rfl) ?_
  · refine .bind hat (follows_commaList (follows_argument hexpression) rfl hat) fun harguments hat => ?_
    exact .bind hat (tracks_expect hat _) fun _ hat => tracks_pure hat (.more (.call harguments))
  · rintro dotted _ d d' rfl hat
    refine .ite Iff.rfl (fun _ => .bind hat (follows_fieldLabel hat) ?_) fun _ => tracks_pure hat .stop
    rintro label _ d d' rfl hat
    exact tracks_pure hat (.more .field)

/-! ### Primary expressions -/

theorem tracks_tuple (hexpression : Follows p (Node.LooksLike p.view) expression expression') (hat : p.At c c')
    (hk : c.current.kind ≠ .endOfInput) :
    Tracks p (Node.LooksLike p.view) (tuple expression) (tuple expression') c c' := by
  refine tracks_advance hat hk fun _ hat => ?_
  refine .bind hat (tracks_expect hat _) fun _ hat => ?_
  refine .bind hat (follows_commaList hexpression rfl hat) fun helements hat => ?_
  refine .bind hat (tracks_expect hat _) fun _ hat => tracks_pure hat ?_
  simp only [Node.LooksLike, Node.outline, outlineAll_eq helements]

theorem tracks_list (hexpression : Follows p (Node.LooksLike p.view) expression expression') (hat : p.At c c')
    (hk : c.current.kind ≠ .endOfInput) :
    Tracks p (Node.LooksLike p.view) (list expression) (list expression') c c' := by
  refine tracks_advance hat hk fun _ hat => ?_
  refine .bind hat (follows_entries hexpression (fun _ _ => hexpression) hat) fun hentries hat => ?_
  refine .bind hat (tracks_expect hat _) fun _ hat => tracks_pure hat ?_
  simp only [Node.LooksLike, Node.outline, outlineAll_eq (Entry.elements_rel hentries),
    outlineOption_eq (Entry.tail?_rel hentries)]

theorem tracks_lambda (hexpression : Follows p (Node.LooksLike p.view) expression expression') (hat : p.At c c')
    (hk : c.current.kind ≠ .endOfInput) :
    Tracks p (Node.LooksLike p.view) (lambda expression) (lambda expression') c c' := by
  refine tracks_advance hat hk fun _ hat => ?_
  refine .bind hat (tracks_expect hat _) fun _ hat => ?_
  refine .bind hat (follows_commaList follows_parameter rfl hat) fun hparameters hat => ?_
  refine .bind hat (tracks_expect hat _) fun _ hat => ?_
  refine .bind hat (follows_ascriptionBehind rfl _ hat) fun _ hat => ?_
  refine .bind hat (follows_block hexpression hat) fun hbody hat => tracks_pure hat ?_
  simp only [Node.LooksLike, Node.outline, outlineAll_eq hparameters, outlineAll_eq hbody]

theorem follows_clausePatterns :
    Follows p (List.Forall₂ (Node.LooksLike p.view)) clausePatterns clausePatterns :=
  follows_separated follows_pattern (fun hat => tracks_accepts hat rfl) follows_pattern

theorem follows_clause (hexpression : Follows p (Node.LooksLike p.view) expression expression') :
    Follows p (Node.LooksLike p.view) (clause expression) (clause expression') := by
  intro c c' hat
  refine tracks_current (.bind hat (follows_separated follows_clausePatterns (fun hat => tracks_accepts hat rfl)
    follows_clausePatterns hat) fun halternatives hat => ?_)
  refine .bind hat (tracks_behind hat (tracks_acceptsWord hat rfl) hexpression) fun hguard hat => ?_
  refine .bind hat (tracks_expect hat _) fun _ hat => ?_
  refine .bind hat (hexpression hat) fun hbody hat => tracks_pure hat ?_
  simp only [Node.LooksLike] at hbody
  simp only [Node.LooksLike, Node.outline, outlineRows_eq halternatives, outlineOption_eq hguard, hbody]

/-- A case expression without a clause is found out behind its closing brace. -/
theorem tracks_choice (hexpression : Follows p (Node.LooksLike p.view) expression expression') (hat : p.At c c')
    (hk : c.current.kind ≠ .endOfInput) :
    Tracks p (Node.LooksLike p.view) (choice expression) (choice expression') c c' := by
  refine tracks_traced (tracks_advance hat hk fun _ hat => ?_)
  refine .bind hat (follows_separated hexpression (fun hat => tracks_accepts hat rfl) hexpression hat)
    fun hsubjects hat => ?_
  refine .bind hat (tracks_expect hat _) fun _ hat => ?_
  refine .bind hat (follows_upToBrace (follows_clause hexpression) _ hat) fun {clauses clauses' _ _} hclauses hat => ?_
  -- Whether there is a clause decides if there is a fault, so it has to be the same for both.
  have hempty : clauses.isEmpty = clauses'.isEmpty := by cases hclauses <;> rfl
  rw [← hempty]
  refine tracks_expect_failBefore hat _ _ ?_
  simp only [Node.LooksLike, Node.outline, outlineAll_eq hsubjects, outlineAll_eq hclauses]

theorem tracks_message (hexpression : Follows p (Node.LooksLike p.view) expression expression') (hat : p.At c c')
    (hk : c.current.kind ≠ .endOfInput) :
    Tracks p (Option.Rel (Node.LooksLike p.view)) (message expression) (message expression') c c' :=
  tracks_advance hat hk fun _ hat => tracks_behind hat (tracks_acceptsWord hat rfl) hexpression

theorem tracks_keywordExpression (hexpression : Follows p (Node.LooksLike p.view) expression expression')
    (hat : p.At c c') (hk : c.current.kind ≠ .endOfInput) :
    Tracks p (Node.LooksLike p.view) (keywordExpression expression) (keywordExpression expression') c c' := by
  refine tracks_current ?_
  rw [← (hat.alike hk).value]
  split
  · exact tracks_lambda hexpression hat hk
  · exact tracks_choice hexpression hat hk
  · refine .bind hat (tracks_message hexpression hat hk) fun hmessage hat => tracks_pure hat ?_
    simp only [Node.LooksLike, Node.outline, outlineOption_eq hmessage]
  · refine .bind hat (tracks_message hexpression hat hk) fun hmessage hat => tracks_pure hat ?_
    simp only [Node.LooksLike, Node.outline, outlineOption_eq hmessage]
  · exact tracks_fail hat _

theorem follows_primary (hexpression : Follows p (Node.LooksLike p.view) expression expression') :
    Follows p (Node.LooksLike p.view) (primary expression) (primary expression') := by
  intro c c' hat
  refine tracks_traced ?_
  refine tracks_current_of_alike hat (fun t hend => ⟨.expressionUnfinished, by simp only [hend]⟩) fun halike => ?_
  rw [← halike.kind, ← halike.text]
  generalize hkind : c.current.kind = kind
  cases kind
  case integer | float | string | name | upName =>
    exact tracks_advance hat (hkind ▸ by decide) fun _ hat => tracks_pure hat rfl
  case hash => exact tracks_tuple hexpression hat (hkind ▸ by decide)
  case leftBracket => exact tracks_list hexpression hat (hkind ▸ by decide)
  case leftBrace =>
    refine .bind hat (follows_block hexpression hat) fun hstatements hat => tracks_pure hat ?_
    simp only [Node.LooksLike, Node.outline, outlineAll_eq hstatements]
  case keyword => exact tracks_keywordExpression hexpression hat (hkind ▸ by decide)
  all_goals exact tracks_fail hat _

/-! ### Signs and operators -/

/-- Two signs make nodes that look alike of nodes that do. -/
def SameSign (view : String → String) (s s' : Node → Node) : Prop :=
  ∀ {a b : Node}, a.LooksLike view b → (s a).LooksLike view (s' b)

theorem follows_sign : Follows p (Round.Rel (SameSign p.view)) sign sign := by
  intro c c' hat
  refine tracks_current (.bind hat (tracks_acceptsWord hat rfl) ?_)
  rintro minus _ d d' rfl hat
  refine .ite Iff.rfl (fun _ => tracks_pure hat (.more fun h => ?_)) fun _ => .bind hat (tracks_accepts hat rfl) ?_
  · simp only [Node.LooksLike] at h
    simp only [Node.LooksLike, Node.outline, h]
  · rintro bang _ d d' rfl hat
    refine .ite Iff.rfl (fun _ => tracks_pure hat (.more fun h => ?_)) fun _ => tracks_pure hat .stop
    simp only [Node.LooksLike] at h
    simp only [Node.LooksLike, Node.outline, h]

theorem looksLike_signed {view : String → String} {a b : Node} (h : a.LooksLike view b)
    {signs signs' : List (Node → Node)} (hs : List.Forall₂ (SameSign view) signs signs') :
    (signs.foldr (fun sign node => sign node) a).LooksLike view (signs'.foldr (fun sign node => sign node) b) := by
  induction hs with
  | nil => exact h
  | cons hsign _ ih => exact hsign ih

theorem follows_operand (hexpression : Follows p (Node.LooksLike p.view) expression expression') :
    Follows p (Node.LooksLike p.view) (operand expression) (operand expression') := by
  intro c c' hat
  refine .bind hat (follows_collect follows_sign hat) fun hsigns hat => ?_
  refine .bind hat (follows_primary hexpression hat) fun hinner hat => ?_
  refine .bind hat (follows_collect (follows_suffix hexpression) hat) fun hsuffixes hat => tracks_pure hat ?_
  exact looksLike_signed (looksLike_suffixed hinner hsuffixes) hsigns

/-- Two operations of one operator, whose right operands look alike. -/
def SameOperation (view : String → String) (o o' : Token × Node) : Prop :=
  o.1.Alike o'.1 ∧ o.2.LooksLike view o'.2

theorem looksLike_operationsApplied {view : String → String} {a b : Node} (h : a.LooksLike view b)
    {operations operations' : List (Token × Node)} (hs : List.Forall₂ (SameOperation view) operations operations') :
    (operationsApplied a operations).LooksLike view (operationsApplied b operations') := by
  unfold operationsApplied
  induction hs generalizing a b with
  | nil => exact h
  | cons hoperation _ ih =>
    refine ih ?_
    obtain ⟨halike, hright⟩ := hoperation
    simp only [Node.LooksLike] at h hright
    simp only [Node.LooksLike, Node.outline, halike.text, h, hright]

section

variable {inner inner' : Int → Reading Node} [∀ least, Forward (inner least)]

theorem follows_operation (hinner : ∀ least, Follows p (Node.LooksLike p.view) (inner least) (inner' least))
    (least : Int) : Follows p (Round.Rel (SameOperation p.view)) (operation inner least) (operation inner' least) := by
  intro c c' hat
  refine tracks_current ?_
  -- The tokens are known to be alike only if the left one is not the mark for the end: an operator is not, and for the
  -- rest it is enough that none of them is an operator.
  by_cases hk : c.current.kind = .operator
  · have halike := hat.alike (hk ▸ by decide)
    rw [← halike.kind, ← halike.text]
    split
    · refine .ite Iff.rfl (fun _ => tracks_pure hat .stop) fun _ => ?_
      refine tracks_advance hat (hk ▸ by decide) fun _ hat => .bind hat (hinner _ hat) fun hright hat => ?_
      exact tracks_pure hat (.more ⟨halike, hright⟩)
    · exact tracks_pure hat .stop
  · have hk' : ¬ c'.current.kind = .operator := by
      rw [← Token.is_none_iff, ← hat.echoes.is_eq rfl, Token.is_none_iff]
      exact hk
    rw [if_neg hk, if_neg hk']
    exact tracks_pure hat .stop

theorem follows_expressionWith (hinner : ∀ least, Follows p (Node.LooksLike p.view) (inner least) (inner' least))
    (least : Int) : Follows p (Node.LooksLike p.view) (expressionWith inner least) (expressionWith inner' least) := by
  intro c c' hat
  refine .bind hat (follows_operand (hinner loosest) hat) fun hfirst hat => ?_
  refine .bind hat (follows_collect (follows_operation hinner least) hat) fun hoperations hat => tracks_pure hat ?_
  exact looksLike_operationsApplied hfirst hoperations

end

theorem follows_expressionWithin (depth depth' : Nat) (least : Int) :
    Follows p (Node.LooksLike p.view) (expressionWithin depth least) (expressionWithin depth' least) := by
  -- As for repeated readings, the depths are those of two lists of any lengths.
  induction depth generalizing depth' least with
  | zero => exact fun _ => tracks_failing fun _ => ReadFailure.noConfusion
  | succ depth ih =>
    cases depth' with
    | zero => exact fun _ => .of_endless rfl
    | succ depth' => exact follows_expressionWith (fun least => ih depth' least) least

theorem follows_expressionFrom (least : Int) :
    Follows p (Node.LooksLike p.view) (expressionFrom least) (expressionFrom least) :=
  fun hat => tracks_cursor (follows_expressionWithin _ _ least hat)

theorem follows_expression : Follows p (Node.LooksLike p.view) Grammar.expression Grammar.expression :=
  follows_expressionFrom loosest

end ScopeLint.Grammar
