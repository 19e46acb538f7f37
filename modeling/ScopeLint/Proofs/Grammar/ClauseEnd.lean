import ScopeLint.Proofs.Grammar.ExpressionTracking

/-!
# Where a clause ends

No mark stands between the clauses of a case expression: the last expression of a clause goes on as long as the tokens
can belong to it.  A closing brace cannot, and no more can the first token of a further clause, but for a minus sign.
So where one list has a closing brace and another one the first token of a clause, an expression that ends there in the
first list ends there in the other one, too (`Grammar.meets_expressionWithin`).
-/

namespace ScopeLint

namespace TokenKind

/-- A clause may start with a token of the kind, and no expression goes on with one.  A minus sign, with which a clause
may start, but an expression may go on as well, is left out. -/
def startsClause : TokenKind → Bool
  | name | upName | integer | float | string | hash | leftBracket => true
  | _ => false

/-- The kinds that the rules for expressions look for before and behind an operand. -/
def goesOn : TokenKind → Bool
  | leftParen | dot | operator | keyword | bang => true
  | _ => false

theorem not_goesOn_of_startsClause {kind : TokenKind} (h : kind.startsClause = true) : kind.goesOn = false := by
  cases kind <;> first | rfl | cases h

end TokenKind

namespace Twins

/-- The tokens up to the bound are alike.  Behind them, the left list goes on with a closing brace, and the right one with
the first token of a clause. -/
structure Forks (p : Twins) : Prop where
  strict : p.Strict
  left : ∃ t, p.left[p.bound]? = some t ∧ t.kind = .rightBrace
  right : ∃ u, p.right[p.bound + p.shift]? = some u ∧ u.kind.startsClause = true

variable {p : Twins} {c c' : Cursor}

/-- Cursors that stand beside each other up to the bound stand inside it, at tokens that are alike, or where the lists
fork. -/
theorem Beside.at_or_fork (hp : p.Forks) (h : p.Beside c c') (hc : c.index ≤ p.bound) :
    p.At c c' ∧ c.current.Alike c'.current ∨
      c.current.kind = .rightBrace ∧ c'.current.kind.startsClause = true := by
  rcases Nat.lt_or_eq_of_le hc with hlt | heq
  · have hat : p.At c c' := ⟨h, hlt⟩
    exact .inl ⟨hat, hat.alike_of_strict hp.strict⟩
  · right
    obtain ⟨t, ht, hbrace⟩ := hp.left
    obtain ⟨u, hu, hstarts⟩ := hp.right
    rw [← heq, ← h.left, c.getElem?_index] at ht
    rw [← heq, ← h.index, ← h.right, c'.getElem?_index] at hu
    cases ht
    cases hu
    exact ⟨hbrace, hstarts⟩

/-- Where the lists fork, no expression goes on. -/
theorem Beside.is_eq (hp : p.Forks) (h : p.Beside c c') (hc : c.index ≤ p.bound) {kind : TokenKind}
    (hkind : kind.goesOn = true) (value : Option String) :
    c.current.is kind value = c'.current.is kind value ∧ (c.current.is kind value = true → p.At c c') := by
  rcases h.at_or_fork hp hc with ⟨hat, halike⟩ | ⟨hbrace, hstarts⟩
  · exact ⟨halike.is_eq kind value, fun _ => hat⟩
  · have hother : ∀ t : Token, t.kind.goesOn = false → t.is kind value = false := by
      intro t ht
      have hne : (t.kind == kind) = false := beq_eq_false_iff_ne.mpr fun heq => by simp [heq, hkind] at ht
      rw [Token.is, hne, Bool.false_and]
    have hleft := hother c.current (by rw [hbrace]; rfl)
    have hright := hother c'.current (TokenKind.not_goesOn_of_startsClause hstarts)
    exact ⟨hleft.trans hright.symm, fun his => by rw [hleft] at his; cases his⟩

/-- The cursors behind two tokens inside the bound are up to the bound. -/
theorem At.advance_le (h : p.At c c') (hk : c.current.kind ≠ .endOfInput) :
    p.Beside c.advance c'.advance ∧ c.advance.index ≤ p.bound := by
  obtain ⟨hbeside, hindex, -⟩ := h.advance hk
  exact ⟨hbeside, hindex ▸ h.inside⟩

end Twins

namespace Reading

variable {α β : Type} {p : Twins} {c c' : Cursor} {Q : α → α → Prop} {Q' : β → β → Prop}

/-! ### Readings that end up to the bound -/

/-- The right reading does what the left one does if that ends up to the bound, from all cursors up to there. -/
def Meets (p : Twins) (Q : α → α → Prop) (r r' : Reading α) : Prop :=
  ∀ {c c'}, p.Beside c c' → c.index ≤ p.bound → Closes p Q r r' c c'

theorem closes_pure {a a' : α} (hbeside : p.Beside c c') (h : Q a a') : Closes p Q (pure a) (pure a') c c' where
  answers hrun _ := by
    cases hrun
    exact .inr ⟨a', c', rfl, hbeside, h⟩

theorem closes_of_fails {r r' : Reading α} {failure : ReadFailure} (h : r.run c = .error failure) :
    Closes p Q r r' c c' where
  answers hrun _ := by
    rw [h] at hrun
    cases hrun

/-- What has been read first may end where the bound is. -/
theorem closes_bind_closes {r r' : Reading α} {f f' : α → Reading β} [hr : Forward r] (hclosed : Closed c.tokens)
    (h : Closes p Q r r' c c') (hforward : ∀ a, Forward (f a))
    (hf : ∀ {a a' d d'}, Q a a' → p.Beside d d' → d.index ≤ p.bound → Closes p Q' (f a) (f' a') d d') :
    Closes p Q' (r >>= f) (r' >>= f') c c' where
  answers {b e} hrun he := by
    obtain ⟨a, d, hfirst, hrest⟩ := run_bind_eq_ok.mp hrun
    have htokens := ((hr.forward hclosed).answers hfirst).1
    have hle := Nat.le_trans (((hforward a).forward (htokens ▸ hclosed)).answers hrest).2 he
    rcases h.answers hfirst hle with hendless | ⟨a', d', hfirst', hbeside, ha⟩
    · exact .inl (run_bind_eq_error.mpr (.inl hendless))
    · rcases (hf ha hbeside hle).answers hrest he with hendless | ⟨b', e', hrest', hbeside', hb⟩
      · exact .inl (run_bind_eq_error.mpr (.inr ⟨a', d', hfirst', hendless⟩))
      · exact .inr ⟨b', e', run_bind_eq_ok.mpr ⟨a', d', hfirst', hrest'⟩, hbeside', hb⟩

/-- Something that passes over a token and ends up to the bound starts inside. -/
theorem closes_of_passing {r r' : Reading α} [hr : Passing r] (hbeside : p.Beside c c')
    (h : p.At c c' → Closes p Q r r' c c') : Closes p Q r r' c c' where
  answers {_ _} hrun hd :=
    (h ⟨hbeside, Nat.lt_of_lt_of_le (hr.passes hbeside.closed hrun) hd⟩).answers hrun hd

theorem closes_advance (hat : p.At c c') (hk : c.current.kind ≠ .endOfInput) :
    Closes p Token.Alike advance advance c c' where
  answers hrun _ := by
    cases hrun
    exact .inr ⟨_, _, rfl, (hat.advance hk).1, hat.alike hk⟩

/-- Whether there are items is found out behind the token that closes them. -/
theorem closes_expect_failBefore (hat : p.At c c') (e : Expectation) (cause : FaultCause) {b : Bool} {a a' : α}
    (h : Q a a') :
    Closes p Q (expect e >>= fun _ => if b then failBefore cause else pure a)
      (expect e >>= fun _ => if b then failBefore cause else pure a') c c' := by
  cases b with
  | false => exact closes_map (closes_expect hat e) fun _ => h
  | true =>
    refine ⟨fun hrun _ => ?_⟩
    obtain ⟨_, _, -, hrest⟩ := run_bind_eq_ok.mp hrun
    cases hrest

theorem closes_roundToBrace {item item' : Reading α} (hbeside : p.Beside c c') (halike : c.current.Alike c'.current)
    (hitem : Closes p Q item item' c c') (unfinished : FaultCause) :
    Closes p (Round.Rel Q) (roundToBrace unfinished item) (roundToBrace unfinished item') c c' := by
  have hrun : ∀ (c : Cursor) (item : Reading α), (roundToBrace unfinished item).run c =
      (if c.current.is .rightBrace none then pure .stop
        else if c.current.is .endOfInput none then fail unfinished
        else item >>= fun a => pure (.more a) : Reading (Round α)).run c := by
    intro c item
    rw [roundToBrace, run_sees]
    split
    · rfl
    · exact run_sees _ _ _
  refine closes_congr ?_ (hrun c item) (hrun c' item')
  rw [← halike.is_eq, ← halike.is_eq]
  split
  · exact closes_pure hbeside .stop
  · split
    · exact closes_of_fails rfl
    · exact closes_map hitem fun ha => .more ha

/-- A round of what is read up to a closing brace stops at that brace only. -/
theorem run_roundToBrace_cases {unfinished : FaultCause} {item : Reading α} {answer : Round α} {d : Cursor}
    (h : (roundToBrace unfinished item).run c = .ok (answer, d)) :
    answer = .stop ∧ d = c ∨ c.current.kind ≠ .rightBrace ∧ ∃ a, answer = .more a := by
  rw [roundToBrace, run_sees] at h
  split at h
  · cases h
    exact .inl ⟨rfl, rfl⟩
  · next hbrace =>
    rw [run_sees] at h
    split at h
    · cases h
    · obtain ⟨a, _, -, hrest⟩ := run_bind_eq_ok.mp h
      cases hrest
      exact .inr ⟨fun hk => hbrace (Token.is_none_iff.mpr hk), a, rfl⟩

/-! ### Marks behind an operand -/

theorem run_accepts (kind : TokenKind) (c : Cursor) :
    (accepts kind).run c = if c.current.is kind none then .ok (true, c.advance) else .ok (false, c) := by
  show (if c.current.is kind none then (do let _ ← advance; return true) else return false : Reading Bool).run c = _
  split <;> rfl

theorem run_acceptsWord (kind : TokenKind) (value : String) (c : Cursor) :
    (acceptsWord kind value).run c =
      if c.current.is kind (some value) then .ok (true, c.advance) else .ok (false, c) := by
  show (if c.current.is kind (some value) then (do let _ ← advance; return true) else return false :
    Reading Bool).run c = _
  split <;> rfl

section

variable {r r' s s' : Reading α}

/-- A mark that is at both cursors is passed over, and one that is at neither is not. -/
private theorem closes_marked {mark : Reading Bool} {b : Bool}
    (hrun : mark.run c = if b then .ok (true, c.advance) else .ok (false, c))
    (hrun' : mark.run c' = if b then .ok (true, c'.advance) else .ok (false, c'))
    (hyes : b = true → Closes p Q r r' c.advance c'.advance) (hno : Closes p Q s s' c c') :
    Closes p Q (mark >>= fun seen => if seen then r else s) (mark >>= fun seen => if seen then r' else s') c c' where
  answers {a d} hleft hd := by
    rw [run_bind, hrun] at hleft
    rw [run_bind, hrun']
    cases b with
    | true => exact (hyes rfl).answers hleft hd
    | false => exact hno.answers hleft hd

variable (hp : p.Forks) (hbeside : p.Beside c c') (hc : c.index ≤ p.bound)
include hp hbeside hc

theorem closes_accepts {kind : TokenKind} (hkind : kind.goesOn = true)
    (hyes : p.Beside c.advance c'.advance → c.advance.index ≤ p.bound → Closes p Q r r' c.advance c'.advance)
    (hno : Closes p Q s s' c c') :
    Closes p Q (accepts kind >>= fun seen => if seen then r else s)
      (accepts kind >>= fun seen => if seen then r' else s') c c' := by
  obtain ⟨hsame, hat⟩ := hbeside.is_eq hp hc hkind none
  refine closes_marked (run_accepts kind c) (hsame ▸ run_accepts kind c') (fun his => ?_) hno
  have hne : c.current.kind ≠ .endOfInput := by
    rw [Token.is_none_iff.mp his]
    rintro rfl
    cases hkind
  obtain ⟨hnext, hle⟩ := (hat his).advance_le hne
  exact hyes hnext hle

theorem closes_acceptsWord {kind : TokenKind} {value : String} (hkind : kind.goesOn = true)
    (hyes : p.Beside c.advance c'.advance → c.advance.index ≤ p.bound → Closes p Q r r' c.advance c'.advance)
    (hno : Closes p Q s s' c c') :
    Closes p Q (acceptsWord kind value >>= fun seen => if seen then r else s)
      (acceptsWord kind value >>= fun seen => if seen then r' else s') c c' := by
  obtain ⟨hsame, hat⟩ := hbeside.is_eq hp hc hkind (some value)
  refine closes_marked (run_acceptsWord kind value c) (hsame ▸ run_acceptsWord kind value c') (fun his => ?_) hno
  have hne : c.current.kind ≠ .endOfInput := by
    rw [(Token.is_some_iff.mp his).1]
    rintro rfl
    cases hkind
  obtain ⟨hnext, hle⟩ := (hat his).advance_le hne
  exact hyes hnext hle

end

/-! ### Repeated readings -/

theorem meets_collectFor {round round' : Reading (Round α)} [Forward round]
    (hround : Meets p (Round.Rel Q) round round') (n n' : Nat) :
    Meets p (List.Forall₂ Q) (collectFor round n) (collectFor round' n') := by
  induction n generalizing n' with
  | zero => exact fun _ _ => closes_of_fails rfl
  | succ n ih =>
    intro c c' hbeside hc
    cases n' with
    | zero => exact ⟨fun _ _ => .inl rfl⟩
    | succ n' =>
      rw [collectFor, collectFor]
      refine closes_bind_closes hbeside.closed (hround hbeside hc) (fun answer => ?_) fun hanswer hbeside hc => ?_
      · cases answer <;> infer_instance
      cases hanswer with
      | stop => exact closes_pure hbeside .nil
      | last ha => exact closes_pure hbeside (.cons ha .nil)
      | more ha => exact closes_map (ih n' hbeside hc) fun has => .cons ha has

theorem meets_collect {round round' : Reading (Round α)} [Forward round]
    (hround : Meets p (Round.Rel Q) round round') : Meets p (List.Forall₂ Q) (collect round) (collect round') :=
  fun hbeside hc => closes_cursor (meets_collectFor hround _ _ hbeside hc)

end Reading

namespace Grammar

open Reading

variable {p : Twins} {c c' : Cursor} {expression expression' : Reading Node} [Forward expression]

/-! ### What stands behind an operand -/

theorem meets_fieldLabel (hp : p.Forks) : Meets p Eq fieldLabel fieldLabel := by
  intro c c' hbeside hc
  refine closes_current ?_
  rcases hbeside.at_or_fork hp hc with ⟨hat, halike⟩ | ⟨hbrace, -⟩
  · rw [← halike.kind, ← halike.text]
    generalize hkind : c.current.kind = kind
    cases kind
    case name | upName | integer => exact closes_map (closes_advance hat (hkind ▸ by decide)) fun _ => rfl
    all_goals exact closes_of_fails rfl
  · rw [hbrace]
    exact closes_of_fails rfl

theorem meets_suffix (hp : p.Forks) (hexpression : Follows p (Node.LooksLike p.view) expression expression') :
    Meets p (Round.Rel (Suffix.LooksLike p.view)) (suffix expression) (suffix expression') := by
  intro c c' hbeside hc
  refine closes_current (closes_accepts hp hbeside hc rfl (fun hnext _ => ?_) ?_)
  -- A call ends with its parenthesis, so it starts inside the bound.
  · refine closes_of_passing hnext fun hat => ?_
    refine closes_bind hat (follows_commaList (follows_argument hexpression) rfl hat) fun harguments hat => ?_
    exact closes_map (closes_expect hat _) fun _ => .more (.call harguments)
  · refine closes_accepts hp hbeside hc rfl (fun hnext hle => ?_) (closes_pure hbeside .stop)
    refine closes_map (meets_fieldLabel hp hnext hle) ?_
    rintro label _ rfl
    exact .more .field

/-! ### Primary expressions -/

theorem closes_tuple (hexpression : Follows p (Node.LooksLike p.view) expression expression') (hat : p.At c c')
    (hk : c.current.kind ≠ .endOfInput) :
    Closes p (Node.LooksLike p.view) (tuple expression) (tuple expression') c c' := by
  refine closes_bind hat (tracks_advance_last hat hk) fun _ hat => closes_bind hat (tracks_expect hat _) fun _ hat => ?_
  refine closes_bind hat (follows_commaList hexpression rfl hat) fun helements hat => ?_
  refine closes_map (closes_expect hat _) fun _ => ?_
  simp only [Node.LooksLike, Node.outline, outlineAll_eq helements]

theorem closes_list (hexpression : Follows p (Node.LooksLike p.view) expression expression') (hat : p.At c c')
    (hk : c.current.kind ≠ .endOfInput) :
    Closes p (Node.LooksLike p.view) (list expression) (list expression') c c' := by
  refine closes_bind hat (tracks_advance_last hat hk) fun _ hat => ?_
  refine closes_bind hat (follows_entries hexpression (fun _ _ => hexpression) hat) fun hentries hat => ?_
  refine closes_map (closes_expect hat _) fun _ => ?_
  simp only [Node.LooksLike, Node.outline, outlineAll_eq (Entry.elements_rel hentries),
    outlineOption_eq (Entry.tail?_rel hentries)]

theorem closes_lambda (hexpression : Follows p (Node.LooksLike p.view) expression expression') (hat : p.At c c')
    (hk : c.current.kind ≠ .endOfInput) :
    Closes p (Node.LooksLike p.view) (lambda expression) (lambda expression') c c' := by
  refine closes_bind hat (tracks_advance_last hat hk) fun _ hat => closes_bind hat (tracks_expect hat _) fun _ hat => ?_
  refine closes_bind hat (follows_commaList follows_parameter rfl hat) fun hparameters hat => ?_
  refine closes_bind hat (tracks_expect hat _) fun _ hat => ?_
  refine closes_bind hat (follows_ascriptionBehind rfl _ hat) fun _ hat => ?_
  refine closes_map (closes_block hexpression hat) fun hbody => ?_
  simp only [Node.LooksLike, Node.outline, outlineAll_eq hparameters, outlineAll_eq hbody]

theorem closes_choice (hexpression : Follows p (Node.LooksLike p.view) expression expression') (hat : p.At c c')
    (hk : c.current.kind ≠ .endOfInput) :
    Closes p (Node.LooksLike p.view) (choice expression) (choice expression') c c' := by
  refine closes_traced (closes_bind hat (tracks_advance_last hat hk) fun _ hat => ?_)
  refine closes_bind hat (follows_separated hexpression (fun hat => tracks_accepts hat rfl) hexpression hat)
    fun hsubjects hat => closes_bind hat (tracks_expect hat _) fun _ hat => ?_
  refine closes_bind hat (follows_upToBrace (follows_clause hexpression) _ hat)
    fun {clauses clauses' _ _} hclauses hat => ?_
  have hempty : clauses.isEmpty = clauses'.isEmpty := by cases hclauses <;> rfl
  rw [← hempty]
  refine closes_expect_failBefore hat _ _ ?_
  simp only [Node.LooksLike, Node.outline, outlineAll_eq hsubjects, outlineAll_eq hclauses]

section

variable (hp : p.Forks) (hexpression : Follows p (Node.LooksLike p.view) expression expression')
  (hmeets : Meets p (Node.LooksLike p.view) expression expression')
include hp hmeets

theorem closes_message (hat : p.At c c') (hk : c.current.kind ≠ .endOfInput) :
    Closes p (Option.Rel (Node.LooksLike p.view)) (message expression) (message expression') c c' := by
  refine closes_bind_closes hat.closed (closes_advance hat hk) (fun _ => inferInstance) fun _ hbeside hc => ?_
  exact closes_acceptsWord hp hbeside hc rfl (fun hnext hle => closes_map (hmeets hnext hle) fun ha => .some ha)
    (closes_pure hbeside .none)

include hexpression

theorem closes_keywordExpression (hat : p.At c c') (hk : c.current.kind ≠ .endOfInput) :
    Closes p (Node.LooksLike p.view) (keywordExpression expression) (keywordExpression expression') c c' := by
  refine closes_current ?_
  rw [← (hat.alike hk).value]
  split
  · exact closes_lambda hexpression hat hk
  · exact closes_choice hexpression hat hk
  · refine closes_map (closes_message hp hmeets hat hk) fun hmessage => ?_
    simp only [Node.LooksLike, Node.outline, outlineOption_eq hmessage]
  · refine closes_map (closes_message hp hmeets hat hk) fun hmessage => ?_
    simp only [Node.LooksLike, Node.outline, outlineOption_eq hmessage]
  · exact closes_of_fails rfl

theorem meets_primary : Meets p (Node.LooksLike p.view) (primary expression) (primary expression') := by
  intro c c' hbeside hc
  refine closes_traced (closes_current ?_)
  -- Where the lists fork, the left one has no primary expression.
  rcases hbeside.at_or_fork hp hc with ⟨hat, halike⟩ | ⟨hbrace, -⟩
  case inr =>
    rw [hbrace]
    exact closes_of_fails rfl
  rw [← halike.kind, ← halike.text]
  generalize hkind : c.current.kind = kind
  cases kind
  case integer | float | string | name | upName =>
    exact closes_map (closes_advance hat (hkind ▸ by decide)) fun _ => rfl
  case hash => exact closes_tuple hexpression hat (hkind ▸ by decide)
  case leftBracket => exact closes_list hexpression hat (hkind ▸ by decide)
  case leftBrace =>
    refine closes_map (closes_block hexpression hat) fun hstatements => ?_
    simp only [Node.LooksLike, Node.outline, outlineAll_eq hstatements]
  case keyword => exact closes_keywordExpression hp hexpression hmeets hat (hkind ▸ by decide)
  all_goals exact closes_of_fails rfl

end

/-! ### Signs and operators -/

theorem meets_sign (hp : p.Forks) : Meets p (Round.Rel (SameSign p.view)) sign sign := by
  intro c c' hbeside hc
  refine closes_current (closes_acceptsWord hp hbeside hc rfl (fun hnext _ => closes_pure hnext (.more fun h => ?_)) ?_)
  · simp only [Node.LooksLike] at h
    simp only [Node.LooksLike, Node.outline, h]
  · refine closes_accepts hp hbeside hc rfl (fun hnext _ => closes_pure hnext (.more fun h => ?_))
      (closes_pure hbeside .stop)
    simp only [Node.LooksLike] at h
    simp only [Node.LooksLike, Node.outline, h]

theorem meets_operand (hp : p.Forks) (hexpression : Follows p (Node.LooksLike p.view) expression expression')
    (hmeets : Meets p (Node.LooksLike p.view) expression expression') :
    Meets p (Node.LooksLike p.view) (operand expression) (operand expression') := by
  intro c c' hbeside hc
  refine closes_bind_closes hbeside.closed (meets_collect (meets_sign hp) hbeside hc) (fun _ => inferInstance)
    fun hsigns hbeside hc => ?_
  refine closes_bind_closes hbeside.closed (meets_primary hp hexpression hmeets hbeside hc) (fun _ => inferInstance)
    fun hinner hbeside hc => ?_
  refine closes_map (meets_collect (meets_suffix hp hexpression) hbeside hc) fun hsuffixes => ?_
  exact looksLike_signed (looksLike_suffixed hinner hsuffixes) hsigns

section

variable {inner inner' : Int → Reading Node} [∀ least, Forward (inner least)]

theorem meets_operation (hp : p.Forks)
    (hmeets : ∀ least, Meets p (Node.LooksLike p.view) (inner least) (inner' least)) (least : Int) :
    Meets p (Round.Rel (SameOperation p.view)) (operation inner least) (operation inner' least) := by
  intro c c' hbeside hc
  refine closes_current ?_
  rcases hbeside.at_or_fork hp hc with ⟨hat, halike⟩ | ⟨hbrace, hstarts⟩
  · rw [← halike.kind, ← halike.text]
    by_cases hk : c.current.kind = .operator
    · split
      · split
        · exact closes_pure hbeside .stop
        · refine closes_bind_closes hat.closed (closes_advance hat (hk ▸ by decide)) (fun _ => inferInstance)
            fun _ hbeside hc => ?_
          exact closes_map (hmeets _ hbeside hc) fun hright => .more ⟨halike, hright⟩
      · exact closes_pure hbeside .stop
    · rw [if_neg hk]
      exact closes_pure hbeside .stop
  -- Where the lists fork, neither has an operator.
  · have hother : c'.current.kind ≠ .operator := fun hk => by simp [hk, TokenKind.startsClause] at hstarts
    rw [if_neg (hbrace ▸ TokenKind.noConfusion), if_neg hother]
    exact closes_pure hbeside .stop

theorem meets_expressionWith (hp : p.Forks)
    (hinner : ∀ least, Follows p (Node.LooksLike p.view) (inner least) (inner' least))
    (hmeets : ∀ least, Meets p (Node.LooksLike p.view) (inner least) (inner' least)) (least : Int) :
    Meets p (Node.LooksLike p.view) (expressionWith inner least) (expressionWith inner' least) := by
  intro c c' hbeside hc
  refine closes_bind_closes hbeside.closed (meets_operand hp (hinner loosest) (hmeets loosest) hbeside hc)
    (fun _ => inferInstance) fun hfirst hbeside hc => ?_
  refine closes_map (meets_collect (meets_operation hp hmeets least) hbeside hc) fun hoperations => ?_
  exact looksLike_operationsApplied hfirst hoperations

end

/-- An expression that ends where the lists fork ends there in both. -/
theorem meets_expressionWithin (hp : p.Forks) (depth depth' : Nat) (least : Int) :
    Meets p (Node.LooksLike p.view) (expressionWithin depth least) (expressionWithin depth' least) := by
  induction depth generalizing depth' least with
  | zero => exact fun _ _ => closes_of_fails rfl
  | succ depth ih =>
    cases depth' with
    | zero => exact fun _ _ => ⟨fun _ _ => .inl rfl⟩
    | succ depth' =>
      exact meets_expressionWith hp (fun least => follows_expressionWithin depth depth' least)
        (fun least => ih depth' least) least

theorem meets_expression (hp : p.Forks) :
    Meets p (Node.LooksLike p.view) Grammar.expression Grammar.expression :=
  fun hbeside hc => closes_cursor (meets_expressionWithin hp _ _ loosest hbeside hc)

/-! ### Clauses -/

/-- A clause ends with its last expression. -/
theorem closes_clause (hp : p.Forks) (hat : p.At c c') :
    Closes p (Node.LooksLike p.view) (clause Grammar.expression) (clause Grammar.expression) c c' := by
  refine closes_current (closes_bind hat (follows_separated follows_clausePatterns (fun hat => tracks_accepts hat rfl)
    follows_clausePatterns hat) fun halternatives hat => ?_)
  refine closes_bind hat (tracks_behind hat (tracks_acceptsWord hat rfl) follows_expression) fun hguard hat => ?_
  refine closes_bind_closes hat.closed (closes_expect hat _) (fun _ => inferInstance) fun _ hbeside hc => ?_
  refine closes_map (meets_expression hp hbeside hc) fun hbody => ?_
  simp only [Node.LooksLike] at hbody
  simp only [Node.LooksLike, Node.outline, outlineRows_eq halternatives, outlineOption_eq hguard, hbody]

/-- Where the clauses of the left list end with the bound, the right list is read on behind them. -/
theorem resumes_clauses (hp : p.Forks) (n n' : Nat) {clauses : List Node} {e : Cursor} (hbeside : p.Beside c c')
    (hrun : (collectFor (roundToBrace .clausesUnfinished (clause Grammar.expression)) n).run c = .ok (clauses, e))
    (he : e.index ≤ p.bound) :
    (collectFor (roundToBrace .clausesUnfinished (clause Grammar.expression)) n').run c' = .error .endless ∨
      ∃ k clauses' e', p.Beside e e' ∧ List.Forall₂ (Node.LooksLike p.view) clauses clauses' ∧
        (collectFor (roundToBrace .clausesUnfinished (clause Grammar.expression)) n').run c' =
          ((collectFor (roundToBrace .clausesUnfinished (clause Grammar.expression)) k).run e').map fun answer =>
            (clauses' ++ answer.1, answer.2) := by
  refine resumes_collectFor (fun hround => (run_roundToBrace_cases hround).imp_right And.right)
    (fun {c c' a d m as} hbeside hround has _ => ?_) n n' hbeside hrun (List.suffix_refl clauses)
  -- The clauses behind this one are not before its end, so it ends up to the bound, too.
  have hforward : (roundToBrace .clausesUnfinished (clause Grammar.expression)).ForwardFrom c :=
    (inferInstance : Forward _).forward hbeside.closed
  obtain ⟨htokens, hle⟩ := hforward.answers hround
  have hrest : (collectFor (roundToBrace .clausesUnfinished (clause Grammar.expression)) m).ForwardFrom d :=
    (inferInstance : Forward _).forward (htokens ▸ hbeside.closed)
  have hd : d.index ≤ p.bound := Nat.le_trans (hrest.answers has).2 he
  rcases hbeside.at_or_fork hp (Nat.le_trans hle hd) with ⟨hat, halike⟩ | ⟨hbrace, -⟩
  · exact (closes_roundToBrace hbeside halike (closes_clause hp hat) _).answers hround hd
  · rcases run_roundToBrace_cases hround with ⟨hstop, -⟩ | ⟨hother, -⟩
    · cases hstop
    · exact absurd hbrace hother

end Grammar

end ScopeLint
