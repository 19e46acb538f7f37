import ScopeLint.Proofs.Grammar.Composition

/-!
# Nesting

The words of a language of the grammar close the brackets that are opened among them and no others
(`Spelling.Composed.bracketsClose`).  Only the nesting is watched, since the brackets in an ascription need not be
matched by their shapes.  So, of the opening brackets of a list, at most one is such that what stands behind it closes
its own brackets and no others (`Spelling.opening_unique`).
-/

namespace ScopeLint.Spelling

variable {stops : List TokenKind} {us ws : List Word} {depth depth' : Nat}

namespace BracketsClose

instance decidable (stops : List TokenKind) :
    (depth : Nat) → (ws : List Word) → Decidable (BracketsClose stops depth ws)
  | depth, [] => inferInstanceAs (Decidable (depth = 0))
  | depth, w :: ws =>
    have := decidable stops (depth + 1) ws
    have := decidable stops (depth - 1) ws
    have := decidable stops depth ws
    inferInstanceAs (Decidable (w.kind ≠ .endOfInput ∧ (depth = 0 → w.kind ∉ stops) ∧
      if w.kind.opens then BracketsClose stops (depth + 1) ws
      else if w.kind.closes then 0 < depth ∧ BracketsClose stops (depth - 1) ws
      else BracketsClose stops depth ws))

/-! ### The first word -/

theorem nil : BracketsClose [] 0 [] :=
  rfl

theorem cons_opening {w : Word} (h : w.kind.opens = true) (hws : BracketsClose [] (depth + 1) ws) :
    BracketsClose [] depth (w :: ws) := by
  refine ⟨fun hk => by simp [hk, TokenKind.opens] at h, fun _ => List.not_mem_nil, ?_⟩
  rwa [if_pos h]

theorem cons_closing {w : Word} (h : w.kind.closes = true) (hws : BracketsClose [] depth ws) :
    BracketsClose [] (depth + 1) (w :: ws) := by
  have hopens : ¬ w.kind.opens = true := fun hopens => by simp [TokenKind.closes_of_opens hopens] at h
  refine ⟨fun hk => by simp [hk, TokenKind.closes] at h, fun _ => List.not_mem_nil, ?_⟩
  rw [if_neg hopens, if_pos h]
  exact ⟨Nat.succ_pos depth, hws⟩

theorem cons_other {w : Word} (hk : w.kind ≠ .endOfInput) (hopens : w.kind.opens = false)
    (hcloses : w.kind.closes = false) (hws : BracketsClose [] depth ws) : BracketsClose [] depth (w :: ws) := by
  refine ⟨hk, fun _ => List.not_mem_nil, ?_⟩
  rwa [if_neg (Bool.eq_false_iff.mp hopens), if_neg (Bool.eq_false_iff.mp hcloses)]

/-- The first word opens a bracket, or closes one, or is none. -/
theorem cons_cases {w : Word} (h : BracketsClose stops depth (w :: ws)) :
    w.kind.opens = true ∧ BracketsClose stops (depth + 1) ws ∨
      w.kind.closes = true ∧ (∃ outer, depth = outer + 1 ∧ BracketsClose stops outer ws) ∨
      (w.kind ≠ .endOfInput ∧ w.kind.opens = false ∧ w.kind.closes = false) ∧ BracketsClose stops depth ws := by
  obtain ⟨hk, -, h⟩ := h
  split at h
  · next hopens => exact .inl ⟨hopens, h⟩
  · next hopens =>
    split at h
    · next hcloses => exact .inr (.inl ⟨hcloses, depth - 1, (Nat.sub_add_cancel h.1).symm, h.2⟩)
    · next hcloses => exact .inr (.inr ⟨⟨hk, Bool.eq_false_iff.mpr hopens, Bool.eq_false_iff.mpr hcloses⟩, h⟩)

/-! ### Depths -/

/-- Words close the brackets of one depth only. -/
theorem unique (h : BracketsClose stops depth ws) (h' : BracketsClose stops depth' ws) : depth = depth' := by
  induction ws generalizing depth depth' with
  | nil => exact Eq.trans h h'.symm
  | cons w ws ih =>
    obtain ⟨-, -, h⟩ := h
    obtain ⟨-, -, h'⟩ := h'
    split_ifs at h h'
    · exact Nat.succ.inj (ih h h')
    · have := ih h.2 h'.2
      omega
    · exact ih h h'

/-- Words behind others close the brackets of some depth. -/
theorem exists_behind (h : BracketsClose stops depth (us ++ ws)) : ∃ inner, BracketsClose stops inner ws := by
  induction us generalizing depth with
  | nil => exact ⟨depth, h⟩
  | cons u us ih =>
    rcases h.cons_cases with ⟨-, h⟩ | ⟨-, outer, -, h⟩ | ⟨-, h⟩
    · exact ih h
    · exact ih h
    · exact ih h

theorem append (h : BracketsClose [] depth us) (h' : BracketsClose [] depth' ws) :
    BracketsClose [] (depth + depth') (us ++ ws) := by
  induction us generalizing depth with
  | nil =>
    obtain rfl : depth = 0 := h
    rwa [Nat.zero_add]
  | cons u us ih =>
    rcases h.cons_cases with ⟨hopens, hrest⟩ | ⟨hcloses, outer, rfl, hrest⟩ | ⟨⟨hk, hopens, hcloses⟩, hrest⟩
    · exact .cons_opening hopens (Nat.add_right_comm depth depth' 1 ▸ ih hrest)
    · exact Nat.add_right_comm outer depth' 1 ▸ .cons_closing hcloses (ih hrest)
    · exact .cons_other hk hopens hcloses (ih hrest)

/-- The stops of an ascription are forgotten. -/
theorem unstopped (h : BracketsClose stops depth ws) : BracketsClose [] depth ws := by
  induction ws generalizing depth with
  | nil => exact h
  | cons w ws ih =>
    rcases h.cons_cases with ⟨hopens, hrest⟩ | ⟨hcloses, outer, rfl, hrest⟩ | ⟨⟨hk, hopens, hcloses⟩, hrest⟩
    · exact .cons_opening hopens (ih hrest)
    · exact .cons_closing hcloses (ih hrest)
    · exact .cons_other hk hopens hcloses (ih hrest)

end BracketsClose

/-- However a language is put together, its words close their own brackets and no others. -/
theorem Composed.bracketsClose {next : Set TokenKind} {l : Language Word} (h : Composed next l) :
    ∀ ws ∈ l, (∀ w ∈ ws, w.kind ≠ .endOfInput) → BracketsClose [] 0 ws := by
  induction h with
  | @union _ ι part _ ih =>
    intro ws hws hends
    obtain ⟨i, hi⟩ := Language.mem_iSup.mp hws
    exact ih i ws hi hends
  | one =>
    rintro ws rfl -
    exact .nil
  | led _ _ _ hl hm =>
    intro ws hws hends
    obtain ⟨us, hus, vs, hvs, rfl⟩ := Language.mem_mul.mp hws
    have hus := hl us hus fun w hw => hends w (List.mem_append_left vs hw)
    have hvs := hm vs hvs fun w hw => hends w (List.mem_append_right us hw)
    exact hus.append hvs
  | only plain text =>
    rintro ws rfl hends
    simp only [TokenKind.isPlain, Bool.and_eq_true, Bool.not_eq_true'] at plain
    exact .cons_other (hends _ List.mem_cons_self) plain.1.1 plain.1.2 .nil
  | @bracketed _ opening closing l pair _ ih =>
    rintro ws ⟨-, ⟨-, ⟨before, rfl⟩, us, hus, rfl⟩, -, ⟨behind, rfl⟩, rfl⟩ hends
    have hopens : opening.opens = true := by cases opening <;> first | rfl | cases pair
    have hcloses : closing.closes = true := by cases opening <;> cases pair <;> rfl
    have hinner := ih us hus fun w hw => hends w (by simp [hw])
    have hclosed : BracketsClose [] 1 [⟨closing, behind⟩] := .cons_closing hcloses .nil
    exact .cons_opening hopens (hinner.append hclosed)
  | @ascription _ mark stops place _ =>
    rintro ws ⟨-, ⟨text, rfl⟩, inside, hinside, rfl⟩ -
    rcases mark_of_ascriptionPlaces place with rfl | rfl <;>
      exact .cons_other TokenKind.noConfusion rfl rfl hinside.2.unstopped

/-- Behind at most one opening bracket of a list, the rest closes its own brackets and no others. -/
theorem opening_unique {xs ys vs ws : List Token} {t u : Token} (h : xs ++ t :: vs = ys ++ u :: ws)
    (ht : t.kind.opens = true) (hu : u.kind.opens = true) (hvs : BracketsClose [] 0 (vs.map Token.word))
    (hws : BracketsClose [] 0 (ws.map Token.word)) : xs = ys ∧ t = u ∧ vs = ws := by
  -- If one of the brackets is behind the other, it is one more that the rest behind it has to close.
  have hinner : ∀ {as bs : List Token} {w : Token}, w.kind.opens = true →
      BracketsClose [] 0 ((as ++ w :: bs).map Token.word) → ¬ BracketsClose [] 0 (bs.map Token.word) := by
    intro as bs w hw hall hbs
    rw [List.map_append, List.map_cons] at hall
    obtain ⟨depth, hdepth⟩ := hall.exists_behind
    obtain ⟨-, -, hdepth⟩ := hdepth
    rw [if_pos (show w.word.kind.opens = true from hw)] at hdepth
    exact absurd (hdepth.unique hbs) (Nat.succ_ne_zero depth)
  rcases List.append_eq_append_iff.mp h with ⟨as, rfl, hrest⟩ | ⟨as, rfl, hrest⟩
  · cases as with
    | nil =>
      obtain ⟨rfl, rfl⟩ := List.cons.inj hrest
      exact ⟨(List.append_nil xs).symm, rfl, rfl⟩
    | cons a as =>
      obtain ⟨-, rfl⟩ := List.cons.inj hrest
      exact absurd hws (hinner hu hvs)
  · cases as with
    | nil =>
      obtain ⟨rfl, rfl⟩ := List.cons.inj hrest
      exact ⟨List.append_nil ys, rfl, rfl⟩
    | cons a as =>
      obtain ⟨-, rfl⟩ := List.cons.inj hrest
      exact absurd hvs (hinner ht hws)

end ScopeLint.Spelling
