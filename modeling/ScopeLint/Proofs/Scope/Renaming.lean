import Mathlib.Data.List.Forall2
import ScopeLint.Proofs.Scope.History

/-!
# Histories with other names

When each name of a history is replaced by another one, and different names by different ones, every question about
the history has the answer that it had before, with the new names for the old ones: a history compares names and does
nothing else with them.  So it reports the same as before about the new names, in the same order (`findings_renamed`).
-/

namespace ScopeLint

/-- The event with another name in the place of its name. -/
def NameEvent.renamed (r : String → String) : NameEvent → NameEvent
  | declare name => declare (r name)
  | ref name => ref (r name)
  | opening => opening
  | closing => closing

theorem NameEvent.renamed_injective {r : String → String} (hr : Function.Injective r) :
    Function.Injective (renamed r) := by
  intro e e' h
  cases e <;> cases e' <;> simp_all [renamed, hr.eq_iff]

/-- A diagnostic about a name, and the same one about the new name. -/
inductive Diagnostic.Renames (r : String → String) : Diagnostic → Diagnostic → Prop where
  | undefined (name : String) : Renames r (.undefined name) (.undefined (r name))
  | unused (name : String) : Renames r (.unused name) (.unused (r name))

namespace History

variable {r : String → String}

theorem openScopes_renamed (w : List NameEvent) : openScopes (w.map (.renamed r)) = openScopes w := by
  induction w using List.reverseRecOn with
  | nil => rfl
  | append_singleton w e ih =>
    rw [List.map_append, List.map_singleton, openScopes_snoc, openScopes_snoc, ih]
    cases e <;> simp [NameEvent.renamed, scopesAfter]

theorem declaration?_renamed (w : List NameEvent) (e : NameEvent) (scope : Nat) :
    declaration? scope (w.map (.renamed r), e.renamed r) = (declaration? scope (w, e)).map r := by
  cases e with
  | declare name =>
    simp only [declaration?, NameEvent.renamed, openScopes_renamed]
    split <;> rfl
  | _ => rfl

section

variable (hr : Function.Injective r)

include hr

theorem declares_renamed (w : List NameEvent) (e : NameEvent) (scope : Nat) (name : String) :
    declares scope (r name) (w.map (.renamed r), e.renamed r) = declares scope name (w, e) := by
  have hevent : (e.renamed r == .declare (r name)) = (e == .declare name) :=
    (NameEvent.renamed_injective hr).beq_eq (a := e) (b := .declare name)
  rw [declares, declares, hevent, openScopes_renamed]

theorem declaredIn_renamed (w : List NameEvent) (scope : Nat) (name : String) :
    declaredIn (w.map (.renamed r)) scope (r name) = declaredIn w scope name := by
  induction w using List.reverseRecOn with
  | nil => rfl
  | append_singleton w e ih =>
    rw [List.map_append, List.map_singleton, declaredIn_snoc, declaredIn_snoc, ih, declares_renamed hr]

/-- A new name means what the old one meant. -/
theorem resolve_renamed (w : List NameEvent) (name : String) :
    resolve (w.map (.renamed r)) (r name) = resolve w name := by
  simp only [resolve, openScopes_renamed, declaredIn_renamed hr]

theorem refers_renamed (w : List NameEvent) (e : NameEvent) (scope : Nat) (name : String) :
    refers scope (r name) (w.map (.renamed r), e.renamed r) = refers scope name (w, e) := by
  have hevent : (e.renamed r == .ref (r name)) = (e == .ref name) :=
    (NameEvent.renamed_injective hr).beq_eq (a := e) (b := .ref name)
  rw [refers, refers, hevent, resolve_renamed hr]

theorem referredSince_renamed (w : List NameEvent) (scope : Nat) (name : String) :
    referredSince (w.map (.renamed r)) scope (r name) = referredSince w scope name := by
  induction w using List.reverseRecOn with
  | nil => rfl
  | append_singleton w e ih =>
    rw [List.map_append, List.map_singleton, referredSince_snoc, referredSince_snoc, ih, declares_renamed hr,
      refers_renamed hr]

theorem declaredNames_renamed (w : List NameEvent) (scope : Nat) :
    declaredNames (w.map (.renamed r)) scope = (declaredNames w scope).map r := by
  induction w using List.reverseRecOn with
  | nil => rfl
  | append_singleton w e ih =>
    rw [List.map_append, List.map_singleton, declaredNames_snoc, declaredNames_snoc, declaration?_renamed, ih]
    cases declaration? scope (w, e) with
    | none => rfl
    | some name =>
      simp only [Option.map_some, declaredIn_renamed hr]
      split <;> simp

theorem unreferredNames_renamed (w : List NameEvent) (scope : Nat) :
    unreferredNames (w.map (.renamed r)) scope = (unreferredNames w scope).map r := by
  rw [unreferredNames, unreferredNames, declaredNames_renamed hr, List.filter_map]
  exact congrArg _ (List.filter_congr fun name _ => by simp [referredSince_renamed hr])

/-- At each moment there is the same to report, about the new names. -/
theorem findingsAt_renamed (w : List NameEvent) (e : NameEvent) :
    List.Forall₂ (Diagnostic.Renames r) (findingsAt (w, e)) (findingsAt (w.map (.renamed r), e.renamed r)) := by
  cases e with
  | declare name => exact .nil
  | opening => exact .nil
  | ref name =>
    simp only [findingsAt, NameEvent.renamed, resolve_renamed hr]
    split
    · exact .cons (.undefined name) .nil
    · exact .nil
  | closing =>
    simp only [findingsAt, NameEvent.renamed, openScopes_renamed]
    cases (openScopes w).head? with
    | none => exact .nil
    | some scope =>
      simp only [Option.toList_some, List.flatMap_singleton, unreferredNames_renamed hr, List.forall₂_map_left_iff,
        List.forall₂_map_right_iff]
      exact List.forall₂_same.mpr fun name _ => .unused name

/-- There is the same to report, in the same order, about the new names. -/
theorem findings_renamed (w : List NameEvent) :
    List.Forall₂ (Diagnostic.Renames r) (findings w) (findings (w.map (.renamed r))) := by
  induction w using List.reverseRecOn with
  | nil => exact .nil
  | append_singleton w e ih =>
    rw [List.map_append, List.map_singleton, findings_snoc, findings_snoc]
    exact List.rel_append ih (findingsAt_renamed hr w e)

end

end History

end ScopeLint
