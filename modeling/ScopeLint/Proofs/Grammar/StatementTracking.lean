import ScopeLint.Proofs.Grammar.PatternTracking

/-!
# Ascriptions and statements side by side

The rules for ascriptions, parameters, statements and blocks read two lists in the same way as far as the lists say the
same.  An ascription is the one thing that depends on where tokens stand, through its text.
-/

namespace ScopeLint.Grammar

open Reading

variable {p : Twins} {c c' : Cursor}

/-! ### Ascriptions -/

theorem ascriptionStep_eq {t u : Token} (h : t.kind = u.kind) (stops : List TokenKind) (depth : Nat) :
    ascriptionStep stops depth t = ascriptionStep stops depth u := by
  rw [ascriptionStep, ascriptionStep, h]

theorem follows_ascriptionRest (stops : List TokenKind) (depth : Nat) :
    Follows p (fun _ _ => True) (ascriptionRest stops depth) (ascriptionRest stops depth) := by
  intro c c' hat
  induction hn : c.after.length using Nat.strongRecOn generalizing c c' depth with
  | ind n ih =>
    have hclosed' : Closed c'.tokens := hat.right ▸ p.rightClosed
    have hrun := run_ascriptionRest stops depth hat.closed
    refine .of_alike hat (fun hend => ?_) fun halike => .congr ?_ hrun (run_ascriptionRest stops depth hclosed')
    · have hstep : ascriptionStep stops depth c.current = .error .ascriptionUnfinished := by
        rw [ascriptionStep, if_pos hend]
      refine ⟨.fault ⟨.ascriptionUnfinished, c.current, c.index⟩, ?_⟩
      rw [hrun, hstep]
      rfl
    rw [← ascriptionStep_eq halike.kind]
    cases hstep : ascriptionStep stops depth c.current with
    | error cause => exact tracks_fail hat cause
    | ok step =>
      cases step with
      | none => exact tracks_pure hat trivial
      | some depth =>
        have hk := kind_ne_endOfInput_of_step hstep
        have hlength := Cursor.length_after_advance (Cursor.next?_ne_none hat.closed hk)
        exact tracks_advance hat hk fun _ hat => ih c.advance.after.length (by omega) depth hat rfl

/-- The texts of two ascriptions look alike. -/
theorem follows_ascription (stops : List TokenKind) :
    Follows p (fun a b => p.view a = p.view b) (ascription stops) (ascription stops) := by
  intro c c' hat
  refine .congr ?_ (run_ascription_eq stops c) (run_ascription_eq stops c')
  refine .bind_le hat (follows_ascriptionRest stops 0 hat) fun {_ _ d d'} _ hat' hle => tracks_cursor ?_
  have hindex := hat.index
  have hindex' := hat'.index
  refine .ite (by omega) (fun _ => tracks_fail hat' _) fun hne => tracks_pure hat' ?_
  have hleft : p.left[c.index]? = some c.current := hat.left ▸ c.getElem?_index
  have hleft' : p.left[d.index - 1]? = some d.previous := hat'.left ▸ Cursor.getElem?_pred_index (by omega)
  have hright : p.right[c.index + p.shift]? = some c'.current := by
    rw [← hindex, ← hat.right]
    exact c'.getElem?_index
  have hright' : p.right[d.index - 1 + p.shift]? = some d'.previous := by
    have hpred : d.index - 1 + p.shift = d'.index - 1 := by omega
    rw [hpred, ← hat'.right]
    exact Cursor.getElem?_pred_index (by omega)
  have hinside := hat'.inside
  rw [hat.left, hat.right]
  exact p.text hat.start (by omega) (by omega) hleft hleft' hright hright'

theorem follows_ascriptionBehind {mark : TokenKind} (hmark : Token.isInner mark none = true)
    (stops : List TokenKind) :
    Follows p (fun a b => a.map p.view = b.map p.view) (ascriptionBehind mark stops) (ascriptionBehind mark stops) := by
  intro c c' hat
  refine (tracks_behind hat (tracks_accepts hat hmark) (follows_ascription stops)).mono fun a b h => ?_
  cases h with
  | none => rfl
  | some h => rw [Option.map_some, Option.map_some, h]

/-! ### Parameters -/

theorem follows_name? : Follows p (Option.Rel Token.Alike) name? name? := by
  intro c c' hat
  refine tracks_sees hat rfl fun b hname => .ite Iff.rfl (fun hb => ?_) fun _ => tracks_pure hat .none
  exact tracks_advance hat (hname hb ▸ by decide) fun halike hat => tracks_pure hat (.some halike)

theorem follows_parameter : Follows p (Node.LooksLike p.view) parameter parameter := by
  intro c c' hat
  refine .bind_of_forward hat (tracks_expect hat _) (fun _ => ?_) fun hfirst hat => ?_
  · refine .bind inferInstance fun second => ?_
    cases second <;> infer_instance
  refine .bind_of_forward hat (follows_name? hat) (fun second => ?_) fun hsecond hat => ?_
  · cases second <;> infer_instance
  cases hsecond with
  | none =>
    refine .bind hat (follows_ascriptionBehind rfl _ hat) fun hascription hat => tracks_pure hat ?_
    simp only [Node.LooksLike, Node.outline, hfirst.text, hascription]
  | some hname =>
    refine .bind hat (follows_ascriptionBehind rfl _ hat) fun hascription hat => tracks_pure hat ?_
    simp only [Node.LooksLike, Node.outline, hfirst.text, hname.text, hascription]

/-! ### Statements -/

variable {expression expression' : Reading Node} [Forward expression]

theorem tracks_assignment (hexpression : Follows p (Node.LooksLike p.view) expression expression') (hat : p.At c c')
    (hk : c.current.kind ≠ .endOfInput) :
    Tracks p (Node.LooksLike p.view) (assignment expression) (assignment expression') c c' := by
  refine tracks_traced (tracks_advance hat hk fun _ hat => ?_)
  refine .bind hat (tracks_acceptsWord hat rfl) ?_
  rintro asserted _ d d' rfl hat
  refine .bind hat (follows_pattern hat) fun hpattern hat => ?_
  refine .bind hat (follows_ascriptionBehind rfl _ hat) fun hascription hat => ?_
  refine .bind hat (tracks_expect hat _) fun _ hat => ?_
  refine .bind hat (hexpression hat) fun hvalue hat => tracks_pure hat ?_
  simp only [Node.LooksLike] at hpattern hvalue
  simp only [Node.LooksLike, Node.outline, hpattern, hvalue, hascription]

theorem follows_usePattern : Follows p (Node.LooksLike p.view) usePattern usePattern := by
  intro c c' hat
  refine .bind hat (follows_pattern hat) fun hpattern hat => ?_
  exact .bind hat (follows_ascriptionBehind rfl _ hat) fun _ hat => tracks_pure hat hpattern

theorem tracks_use (hexpression : Follows p (Node.LooksLike p.view) expression expression') (hat : p.At c c')
    (hk : c.current.kind ≠ .endOfInput) :
    Tracks p (Node.LooksLike p.view) (use expression) (use expression') c c' := by
  refine tracks_traced (tracks_advance hat hk fun _ hat => ?_)
  refine .bind hat (follows_commaList follows_usePattern rfl hat) fun hpatterns hat => ?_
  refine .bind hat (tracks_expect hat _) fun _ hat => ?_
  refine .bind hat (hexpression hat) fun hfunction hat => tracks_pure hat ?_
  simp only [Node.LooksLike] at hfunction
  simp only [Node.LooksLike, Node.outline, outlineAll_eq hpatterns, hfunction]

theorem follows_statement (hexpression : Follows p (Node.LooksLike p.view) expression expression') :
    Follows p (Node.LooksLike p.view) (statement expression) (statement expression') := by
  intro c c' hat
  have hkeyword : ∀ {word : String}, c.current.is .keyword (some word) = true → c.current.kind ≠ .endOfInput := by
    intro word his hend
    rw [(Token.is_some_iff.mp his).1] at hend
    cases hend
  refine tracks_current ?_
  refine .ite (by rw [hat.echoes.is_eq rfl]) (fun hlet => tracks_assignment hexpression hat (hkeyword hlet)) fun _ => ?_
  refine .ite (by rw [hat.echoes.is_eq rfl]) (fun huse => tracks_use hexpression hat (hkeyword huse)) fun _ => ?_
  refine .bind hat (hexpression hat) fun hinner hat => tracks_pure hat ?_
  simp only [Node.LooksLike] at hinner
  simp only [Node.LooksLike, Node.outline, hinner]

theorem follows_block (hexpression : Follows p (Node.LooksLike p.view) expression expression') :
    Follows p (List.Forall₂ (Node.LooksLike p.view)) (block expression) (block expression') := by
  intro c c' hat
  refine tracks_traced (.bind hat (tracks_expect hat _) fun _ hat => ?_)
  refine .bind hat (follows_upToBrace (follows_statement hexpression) _ hat) fun hstatements hat => ?_
  exact .bind hat (tracks_expect hat _) fun _ hat => tracks_pure hat hstatements

/-- A block ends with its closing brace. -/
theorem closes_block (hexpression : Follows p (Node.LooksLike p.view) expression expression') (hat : p.At c c') :
    Closes p (List.Forall₂ (Node.LooksLike p.view)) (block expression) (block expression') c c' := by
  refine closes_traced (closes_bind hat (tracks_expect hat _) fun _ hat => ?_)
  refine closes_bind hat (follows_upToBrace (follows_statement hexpression) _ hat) fun hstatements hat => ?_
  exact closes_map (closes_expect hat _) fun _ => hstatements

end ScopeLint.Grammar
