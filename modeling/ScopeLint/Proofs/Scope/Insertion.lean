import ScopeLint.Proofs.Scope.StepHistory

/-!
# One more reference

A reference somewhere inside a history changes little of what comes later.  The scopes that are opened behind it are
known by numbers greater by one (`scopeLater`), and they are the scopes that would be open without it
(`openScopes_insert`), with the names that would be declared in them (`declaredNames_insert`).  Only the one binding
that the reference means may have more uses, so at most one name of one scope is unused no more
(`unusedNames_insert`).
-/

namespace ScopeLint.StepHistory

/-- The number of a scope when one more step is done behind some steps: only the scopes that are opened later get
another number. -/
def scopeLater (before k : Nat) : Nat :=
  if k < before then k else k + 1

theorem scopeLater_of_lt {before k : Nat} (h : k < before) : scopeLater before k = k :=
  if_pos h

theorem scopeLater_of_le {before k : Nat} (h : before ≤ k) : scopeLater before k = k + 1 :=
  if_neg (Nat.not_lt.mpr h)

theorem scopeLater_injective (before : Nat) : Function.Injective (scopeLater before) := by
  intro a b h
  unfold scopeLater at h
  split at h <;> split at h <;> omega

/-- A scope that a name means is open. -/
theorem lt_length_of_resolve {w : List ScopeStep} {name : String} {k : Nat} (h : resolve w name = some k) :
    k < w.length :=
  (openScopes_pairwise w).2 k (List.mem_of_find?_eq_some h)

/-- A scope that is yet to be opened is meant by no reference. -/
theorem uses_of_length_le {w : List ScopeStep} {k : Nat} (h : w.length ≤ k) (name : String) : uses w k name = 0 := by
  induction w with
  | nil => rfl
  | cons step w ih =>
    have hw : w.length ≤ k := Nat.le_of_succ_le h
    have hrefers : refers k name (step :: w) = false := by
      by_contra hrefers
      cases step with
      | refer other =>
        simp only [refers, Bool.not_eq_false, Bool.and_eq_true, beq_iff_eq] at hrefers
        have hlt := lt_length_of_resolve hrefers.2
        omega
      | _ => exact hrefers rfl
    simp [uses_cons, hrefers, ih hw]

section

variable {name : String} (later past : List ScopeStep)

/-! ### Scopes and names -/

theorem pending_insert : pending (later ++ .refer name :: past) = pending (later ++ past) := by
  induction later with
  | nil => rfl
  | cons step later ih => cases step <;> simp only [List.cons_append, pending, ih]

theorem length_insert : (later ++ .refer name :: past).length = (later ++ past).length + 1 := by
  simp only [List.length_append, List.length_cons]
  omega

/-- The same scopes are open. -/
theorem openScopes_insert :
    openScopes (later ++ .refer name :: past) = (openScopes (later ++ past)).map (scopeLater past.length) := by
  induction later with
  | nil =>
    have hsame : ∀ k ∈ openScopes past, scopeLater past.length k = k := by
      intro k hk
      exact scopeLater_of_lt ((openScopes_pairwise past).2 k hk)
    rw [List.nil_append, List.nil_append, List.map_congr_left hsame, List.map_id']
    rfl
  | cons step later ih =>
    have hnew : scopeLater past.length (later ++ past).length = (later ++ .refer name :: past).length := by
      rw [length_insert, scopeLater_of_le]
      simp
    cases step with
    | push => simp only [List.cons_append, openScopes, List.map_cons, ih, hnew]
    | enter checked => simp only [List.cons_append, openScopes, List.map_cons, ih, hnew]
    | pop => simp only [List.cons_append, openScopes, List.map_tail, ih]
    | leave =>
      simp only [List.cons_append, openScopes, pending_insert, ih]
      split
      · rfl
      · rw [List.map_tail]
    | _ => simpa only [List.cons_append, openScopes] using ih

theorem declaration?_insert (step : ScopeStep) (k : Nat) :
    declaration? (scopeLater past.length k) (step :: (later ++ .refer name :: past)) =
      declaration? k (step :: (later ++ past)) := by
  cases step with
  | declare other visibility =>
    have hhead : (openScopes (later ++ .refer name :: past)).head? = some (scopeLater past.length k) ↔
        (openScopes (later ++ past)).head? = some k := by
      rw [openScopes_insert, List.head?_map, Option.map_eq_some_iff]
      constructor
      · rintro ⟨k', hk', heq⟩
        rwa [scopeLater_injective _ heq] at hk'
      · intro h
        exact ⟨k, h, rfl⟩
    simp only [declaration?, hhead]
  | _ => rfl

/-- The same names are declared in the same order. -/
theorem declarations_insert (k : Nat) :
    declarations (later ++ .refer name :: past) (scopeLater past.length k) = declarations (later ++ past) k := by
  induction later with
  | nil =>
    have hrefer : declarations (.refer name :: past) (scopeLater past.length k) =
        declarations past (scopeLater past.length k) := by
      rw [declarations_cons]
      rfl
    rw [List.nil_append, List.nil_append, hrefer]
    rcases Nat.lt_or_ge k past.length with hk | hk
    · rw [scopeLater_of_lt hk]
    · rw [scopeLater_of_le hk, declarations_of_length_le hk, declarations_of_length_le (Nat.le_succ_of_le hk)]
  | cons step later ih =>
    rw [List.cons_append, List.cons_append, declarations_cons, declarations_cons, declaration?_insert, ih]

theorem declaredNames_insert (k : Nat) :
    declaredNames (later ++ .refer name :: past) (scopeLater past.length k) = declaredNames (later ++ past) k := by
  rw [declaredNames, declaredNames, declarations_insert]

theorem visibility?_insert (k : Nat) (other : String) :
    visibility? (later ++ .refer name :: past) (scopeLater past.length k) other =
      visibility? (later ++ past) k other := by
  rw [visibility?, visibility?, declarations_insert]

/-- Every name means the same scope. -/
theorem resolve_insert (other : String) :
    resolve (later ++ .refer name :: past) other = (resolve (later ++ past) other).map (scopeLater past.length) := by
  rw [resolve, resolve, openScopes_insert, List.find?_map]
  have hsame : (fun k => decide (other ∈ declaredNames (later ++ .refer name :: past) k)) ∘ scopeLater past.length =
      fun k => decide (other ∈ declaredNames (later ++ past) k) := by
    funext k
    simp only [Function.comp, declaredNames_insert]
  rw [hsame]

/-! ### Uses -/

theorem declares_insert (step : ScopeStep) (k : Nat) (other : String) :
    declares (scopeLater past.length k) other (step :: (later ++ .refer name :: past)) =
      declares k other (step :: (later ++ past)) := by
  rw [declares, declares, declaration?_insert]

theorem refers_insert (step : ScopeStep) (k : Nat) (other : String) :
    refers (scopeLater past.length k) other (step :: (later ++ .refer name :: past)) =
      refers k other (step :: (later ++ past)) := by
  cases step with
  | refer referred =>
    have hmeans : (resolve (later ++ .refer name :: past) other == some (scopeLater past.length k)) =
        (resolve (later ++ past) other == some k) := by
      rw [resolve_insert]
      cases resolve (later ++ past) other with
      | none => rfl
      | some k' => simp [(scopeLater_injective past.length).eq_iff]
    simp only [refers, hmeans]
  | _ => rfl

/-- The reference is counted for no binding but the one that it means. -/
theorem uses_insert_of_ne {k : Nat} {other : String} (h : ¬ (other = name ∧ resolve past name = some k)) :
    uses (later ++ .refer name :: past) (scopeLater past.length k) other = uses (later ++ past) k other := by
  induction later with
  | nil =>
    have hrefers : refers (scopeLater past.length k) other (.refer name :: past) = false := by
      by_contra hrefers
      simp only [refers, Bool.not_eq_false, Bool.and_eq_true, beq_iff_eq] at hrefers
      obtain ⟨rfl, hmeans⟩ := hrefers
      have hlt := lt_length_of_resolve hmeans
      by_cases hk : k < past.length
      · rw [scopeLater_of_lt hk] at hmeans
        exact h ⟨rfl, hmeans⟩
      · rw [scopeLater_of_le (Nat.not_lt.mp hk)] at hlt
        omega
    have hdeclares : declares (scopeLater past.length k) other (.refer name :: past) = false := rfl
    simp only [List.nil_append, uses_cons, hdeclares, hrefers, Bool.false_eq_true, if_false, Nat.add_zero]
    rcases Nat.lt_or_ge k past.length with hk | hk
    · rw [scopeLater_of_lt hk]
    · rw [scopeLater_of_le hk, uses_of_length_le hk, uses_of_length_le (Nat.le_succ_of_le hk)]
  | cons step later ih =>
    rw [List.cons_append, List.cons_append, uses_cons, uses_cons, declares_insert, refers_insert, ih]

/-- No binding has fewer uses. -/
theorem uses_le_insert (k : Nat) (other : String) :
    uses (later ++ past) k other ≤ uses (later ++ .refer name :: past) (scopeLater past.length k) other := by
  induction later with
  | nil =>
    have hdeclares : declares (scopeLater past.length k) other (.refer name :: past) = false := rfl
    simp only [List.nil_append, uses_cons, hdeclares, Bool.false_eq_true, if_false]
    rcases Nat.lt_or_ge k past.length with hk | hk
    · rw [scopeLater_of_lt hk]
      omega
    · rw [uses_of_length_le hk]
      omega
  | cons step later ih =>
    rw [List.cons_append, List.cons_append, uses_cons, uses_cons, declares_insert, refers_insert]
    split
    · exact Nat.le_refl 0
    · omega

/-! ### Unused names -/

/-- In a scope that the reference does not mean, the same names are unused. -/
theorem unusedNames_insert_of_ne {k : Nat} (h : resolve past name ≠ some k) :
    unusedNames (later ++ .refer name :: past) (scopeLater past.length k) = unusedNames (later ++ past) k := by
  have hother : ∀ other, ¬ (other = name ∧ resolve past name = some k) := fun _ hmeans => h hmeans.2
  simp only [unusedNames, declaredNames_insert, visibility?_insert, uses_insert_of_ne later past (hother _)]

/-- In every scope the same names are unused, but perhaps for the name of the reference. -/
theorem unusedNames_insert (k : Nat) :
    unusedNames (later ++ .refer name :: past) (scopeLater past.length k) = unusedNames (later ++ past) k ∨
      ∃ before behind, unusedNames (later ++ past) k = before ++ name :: behind ∧
        unusedNames (later ++ .refer name :: past) (scopeLater past.length k) = before ++ behind := by
  -- A name is unused in the two histories alike unless it is the name of the reference.
  have hother : ∀ other, other ≠ name →
      uses (later ++ .refer name :: past) (scopeLater past.length k) other = uses (later ++ past) k other :=
    fun other hne => uses_insert_of_ne later past fun hmeans => hne hmeans.1
  by_cases hname : name ∈ declaredNames (later ++ past) k
  · obtain ⟨before, behind, hsplit⟩ := List.append_of_mem hname
    have hnodup := nodup_declaredNames (later ++ past) k
    rw [hsplit, List.nodup_middle, List.nodup_cons, List.mem_append, not_or] at hnodup
    have hsame : ∀ names : List String, name ∉ names →
        names.filter (fun other => visibility? (later ++ past) k other == some .priv &&
            uses (later ++ .refer name :: past) (scopeLater past.length k) other == 0) =
          names.filter (fun other => visibility? (later ++ past) k other == some .priv &&
            uses (later ++ past) k other == 0) := by
      intro names hnames
      apply List.filter_congr
      intro other hmem
      rw [hother other (ne_of_mem_of_not_mem hmem hnames)]
    have hmore : uses (later ++ past) k name ≤ uses (later ++ .refer name :: past) (scopeLater past.length k) name :=
      uses_le_insert later past k name
    simp only [unusedNames, declaredNames_insert, visibility?_insert, hsplit, List.filter_append, List.filter_cons,
      hsame before hnodup.1.1, hsame behind hnodup.1.2]
    cases hunused : visibility? (later ++ past) k name == some .priv && uses (later ++ past) k name == 0 with
    | true =>
      cases hstill : visibility? (later ++ past) k name == some .priv &&
          uses (later ++ .refer name :: past) (scopeLater past.length k) name == 0 with
      | true => exact .inl rfl
      | false => exact .inr ⟨_, _, rfl, rfl⟩
    | false =>
      have hstill : (visibility? (later ++ past) k name == some .priv &&
          uses (later ++ .refer name :: past) (scopeLater past.length k) name == 0) = false := by
        simp only [Bool.and_eq_false_iff, beq_eq_false_iff_ne] at hunused ⊢
        rcases hunused with hpublic | hused
        · exact .inl hpublic
        · exact .inr (by omega)
      left
      rw [hstill]
  · left
    simp only [unusedNames, declaredNames_insert, visibility?_insert]
    apply List.filter_congr
    intro other hmem
    rw [hother other (ne_of_mem_of_not_mem hmem hname)]

end

end ScopeLint.StepHistory
