import ScopeLint.Proofs.Grammar.Tracking

/-!
# Patterns side by side

The rules for patterns read two lists in the same way as far as the lists say the same (`follows_pattern`).
-/

namespace ScopeLint.Grammar

open Reading

variable {p : Twins} {c c' : Cursor}

theorem follows_label? : Follows p Eq label? label? := by
  intro c c' hat
  refine tracks_sees_seesNext hat (.inl rfl) (by decide) (fun hname hcolon => ?_) (tracks_pure hat rfl)
  refine tracks_advance hat (hname ▸ by decide) fun halike hat => ?_
  refine tracks_advance hat (hcolon ▸ by decide) fun _ hat => ?_
  exact tracks_pure hat (by rw [halike.text])

/-! ### Patterns -/

variable {inner inner' : Reading Node} [Forward inner]

theorem follows_patternArgument (hinner : Follows p (Node.LooksLike p.view) inner inner') :
    Follows p (Node.LooksLike p.view) (patternArgument inner) (patternArgument inner') :=
  fun hat => .bind hat (follows_label? hat) fun _ hat => hinner hat

theorem follows_patternArguments (hinner : Follows p (Node.LooksLike p.view) inner inner') :
    Follows p (List.Forall₂ (Node.LooksLike p.view)) (patternArguments inner) (patternArguments inner') := by
  intro c c' hat
  refine .bind hat (tracks_accepts hat rfl) ?_
  rintro b _ d d' rfl hat
  refine .ite Iff.rfl (fun _ => ?_) fun _ => tracks_pure hat .nil
  refine .bind hat (follows_commaList (follows_patternArgument hinner) rfl hat) fun harguments hat => ?_
  exact .bind hat (tracks_expect hat _) fun _ hat => tracks_pure hat harguments

theorem tracks_namePattern (hinner : Follows p (Node.LooksLike p.view) inner inner') (hat : p.At c c')
    (hk : c.current.kind = .name) :
    Tracks p (Node.LooksLike p.view) (namePattern inner) (namePattern inner') c c' := by
  refine tracks_advance hat (hk ▸ by decide) fun halike hat => ?_
  refine tracks_sees_seesNext hat (.inr rfl) (by decide) (fun hdot hup => ?_) ?_
  · refine tracks_advance hat (hdot ▸ by decide) fun _ hat => ?_
    refine tracks_advance hat (hup ▸ by decide) fun hown hat => ?_
    refine .bind hat (follows_patternArguments hinner hat) fun harguments hat => tracks_pure hat ?_
    simp only [Node.LooksLike, Node.outline, halike.text, hown.text, outlineAll_eq harguments]
  · refine .bind hat (tracks_valueOf hat halike) ?_
    rintro name _ d d' rfl hat
    exact .ite Iff.rfl (fun _ => tracks_pure hat rfl) fun _ => tracks_pure hat rfl

theorem tracks_negatedPattern (hat : p.At c c') (hk : c.current.kind ≠ .endOfInput) :
    Tracks p (Node.LooksLike p.view) negatedPattern negatedPattern c c' := by
  refine tracks_advance_of_forward hat hk (fun t => .bind inferInstance fun number => ?_) fun _ hat => ?_
  · split <;> infer_instance
  · refine tracks_current_of_alike hat (fun t hend => ⟨.noNegatedLiteral, by simp only [hend]⟩) fun halike => ?_
    rw [← halike.kind]
    generalize hkind : c.advance.current.kind = kind
    cases kind
    case integer =>
      refine tracks_advance hat (hkind ▸ by decide) fun _ hat => ?_
      refine .bind hat (tracks_valueOf hat halike) ?_
      rintro value _ d d' rfl hat
      exact tracks_pure hat rfl
    case float =>
      refine tracks_advance hat (hkind ▸ by decide) fun _ hat => ?_
      refine .bind hat (tracks_valueOf hat halike) ?_
      rintro value _ d d' rfl hat
      exact tracks_pure hat rfl
    all_goals exact tracks_fail hat _

theorem tracks_tuplePattern (hinner : Follows p (Node.LooksLike p.view) inner inner') (hat : p.At c c')
    (hk : c.current.kind ≠ .endOfInput) :
    Tracks p (Node.LooksLike p.view) (tuplePattern inner) (tuplePattern inner') c c' := by
  refine tracks_advance hat hk fun _ hat => ?_
  refine .bind hat (tracks_expect hat _) fun _ hat => ?_
  refine .bind hat (follows_commaList hinner rfl hat) fun helements hat => ?_
  refine .bind hat (tracks_expect hat _) fun _ hat => tracks_pure hat ?_
  simp only [Node.LooksLike, Node.outline, outlineAll_eq helements]

/-! ### Lists -/

/-- Two entries of one sort that look alike. -/
inductive Entry.LooksLike (view : String → String) : Entry → Entry → Prop where
  | element {a b : Node} (h : a.LooksLike view b) : LooksLike view (.element a) (.element b)
  | tail {a b : Node} (h : a.LooksLike view b) : LooksLike view (.tail a) (.tail b)

theorem Entry.elements_rel {view : String → String} {as bs : List Entry}
    (h : List.Forall₂ (Entry.LooksLike view) as bs) :
    List.Forall₂ (Node.LooksLike view) (Entry.elements as) (Entry.elements bs) := by
  induction h with
  | nil => exact .nil
  | cons hab _ ih =>
    cases hab with
    | element h => exact .cons h ih
    | tail h => exact ih

theorem Entry.tail?_rel {view : String → String} {as bs : List Entry}
    (h : List.Forall₂ (Entry.LooksLike view) as bs) :
    Option.Rel (Node.LooksLike view) (Entry.tail? as) (Entry.tail? bs) := by
  induction h with
  | nil => exact .none
  | cons hab _ ih =>
    cases hab with
    | element h => exact ih
    | tail h => exact .some h

theorem follows_entries {element element' : Reading Node} {tail tail' : Token → Reading Node} [Forward element]
    [∀ t, Forward (tail t)] (helement : Follows p (Node.LooksLike p.view) element element')
    (htail : ∀ t t', Follows p (Node.LooksLike p.view) (tail t) (tail' t')) :
    Follows p (List.Forall₂ (Entry.LooksLike p.view)) (entries element tail) (entries element' tail') := by
  refine follows_collect fun hat => ?_
  refine tracks_sees hat rfl fun _ _ => .ite Iff.rfl (fun _ => tracks_pure hat .stop) fun _ => tracks_current ?_
  refine .bind hat (tracks_accepts hat rfl) ?_
  rintro b _ d d' rfl hat
  refine .ite Iff.rfl (fun _ => ?_) fun _ => ?_
  · refine .bind hat (htail _ _ hat) fun hnode hat => ?_
    exact .bind hat (tracks_accepts hat rfl) fun _ hat => tracks_pure hat (.last (.tail hnode))
  · refine .bind hat (helement hat) fun hnode hat => .bind hat (tracks_accepts hat rfl) ?_
    rintro b _ d d' rfl hat
    refine .ite Iff.rfl (fun _ => ?_) fun _ => ?_
    · exact tracks_pure hat (.more (.element hnode))
    · exact tracks_pure hat (.last (.element hnode))

omit [Forward inner] in
theorem follows_tailPattern (hinner : Follows p (Node.LooksLike p.view) inner inner') (dots dots' : Token) :
    Follows p (Node.LooksLike p.view) (tailPattern inner dots) (tailPattern inner' dots') := by
  intro c c' hat
  refine tracks_sees hat rfl fun _ _ => tracks_sees hat rfl fun _ _ => ?_
  exact .ite Iff.rfl (fun _ => tracks_pure hat rfl) fun _ => hinner hat

theorem tracks_listPattern (hinner : Follows p (Node.LooksLike p.view) inner inner') (hat : p.At c c')
    (hk : c.current.kind ≠ .endOfInput) :
    Tracks p (Node.LooksLike p.view) (listPattern inner) (listPattern inner') c c' := by
  refine tracks_advance hat hk fun _ hat => ?_
  refine .bind hat (follows_entries hinner (follows_tailPattern hinner) hat) fun hentries hat => ?_
  refine .bind hat (tracks_expect hat _) fun _ hat => tracks_pure hat ?_
  simp only [Node.LooksLike, Node.outline, outlineAll_eq (Entry.elements_rel hentries),
    outlineOption_eq (Entry.tail?_rel hentries)]

/-! ### Patterns with names for the whole match -/

theorem follows_primaryPattern (hinner : Follows p (Node.LooksLike p.view) inner inner') :
    Follows p (Node.LooksLike p.view) (primaryPattern inner) (primaryPattern inner') := by
  intro c c' hat
  refine tracks_current_of_alike hat (fun t hend => ⟨.noPattern, by simp only [hend]⟩) fun halike => ?_
  rw [← halike.kind, ← halike.value, ← halike.text]
  generalize hkind : c.current.kind = kind
  cases kind
  case name => exact tracks_namePattern hinner hat hkind
  case upName =>
    refine tracks_advance hat (hkind ▸ by decide) fun _ hat => ?_
    refine .bind hat (follows_patternArguments hinner hat) fun harguments hat => tracks_pure hat ?_
    simp only [Node.LooksLike, Node.outline, outlineAll_eq harguments]
  case operator =>
    exact .ite Iff.rfl (fun _ => tracks_negatedPattern hat (hkind ▸ by decide)) fun _ => tracks_fail hat _
  case hash => exact tracks_tuplePattern hinner hat (hkind ▸ by decide)
  case leftBracket => exact tracks_listPattern hinner hat (hkind ▸ by decide)
  case integer | float | string =>
    exact tracks_advance hat (hkind ▸ by decide) fun _ hat => tracks_pure hat rfl
  all_goals exact tracks_fail hat _

theorem looksLike_aliased {view : String → String} {a b : Node} (h : a.LooksLike view b) (anchor anchor' : Anchor)
    (names : List String) :
    (names.foldl (.patAlias anchor) a).LooksLike view (names.foldl (.patAlias anchor') b) := by
  induction names generalizing a b with
  | nil => exact h
  | cons name names ih =>
    refine ih ?_
    simp only [Node.LooksLike, Node.outline]
    rw [h]

theorem follows_patternWith (hinner : Follows p (Node.LooksLike p.view) inner inner') :
    Follows p (Node.LooksLike p.view) (patternWith inner) (patternWith inner') := by
  intro c c' hat
  refine tracks_current (.bind hat (follows_primaryPattern hinner hat) fun hprimary hat => ?_)
  refine .bind hat (follows_collect (Q := Eq) (fun hat => ?_) hat) fun hnames hat => ?_
  · refine .bind hat (tracks_acceptsWord hat rfl) ?_
    rintro b _ d d' rfl hat
    refine .ite Iff.rfl (fun _ => ?_) fun _ => tracks_pure hat .stop
    exact .bind hat (tracks_expect hat _) fun halike hat => tracks_pure hat (.more halike.text)
  · rw [List.forall₂_eq_eq_eq] at hnames
    subst hnames
    exact tracks_pure hat (looksLike_aliased hprimary _ _ _)

theorem follows_patternWithin (depth depth' : Nat) :
    Follows p (Node.LooksLike p.view) (patternWithin depth) (patternWithin depth') := by
  induction depth generalizing depth' with
  | zero => exact fun _ => tracks_failing fun _ => ReadFailure.noConfusion
  | succ depth ih =>
    cases depth' with
    | zero => exact fun _ => .of_endless rfl
    | succ depth' => exact follows_patternWith (ih depth')

theorem follows_pattern : Follows p (Node.LooksLike p.view) pattern pattern :=
  fun hat => tracks_cursor (follows_patternWithin _ _ hat)

end ScopeLint.Grammar
