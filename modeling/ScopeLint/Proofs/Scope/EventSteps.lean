import ScopeLint.Proofs.Scope.History
import ScopeLint.Proofs.Scope.StepHistory

/-!
# Steps that tell events

The events of a module are told by steps of a session, one step for each event (`StepHistory.Tells`).  Both histories
know the scopes by the same numbers, and they say the same of them: which are open, which names are declared in them,
which scope a name means, and which names no reference has meant (`Tells.openScopes_eq`, `Tells.declaredNames_eq`,
`Tells.resolve_eq`, `Tells.unusedNames_eq`).  So what is known of the steps of a session is known of events.
-/

namespace ScopeLint.StepHistory

/-- A step tells an event that comes behind some others.  All scopes are to be checked.  Only in the scope of the module
may a name be declared that is seen from outside. -/
inductive TellsNext (w : List NameEvent) : ScopeStep → NameEvent → Prop where
  | declare (name : String) (visibility : Visibility) (within : visibility = .priv ∨ History.openScopes w = [0]) :
      TellsNext w (.declare name visibility) (.declare name)
  | refer (name : String) : TellsNext w (.refer name) (.ref name)
  | enter : TellsNext w (.enter true) .opening
  | leave : TellsNext w .leave .closing

/-- The steps tell the events.  Before all events the scope of the module is entered, and it is not to be checked. -/
inductive Tells : List ScopeStep → List NameEvent → Prop where
  | start : Tells [.enter false] []
  | snoc {v : List ScopeStep} {w : List NameEvent} {step : ScopeStep} {e : NameEvent} (past : Tells v w)
      (next : TellsNext w step e) : Tells (step :: v) (w ++ [e])

variable {v : List ScopeStep} {w : List NameEvent} {step : ScopeStep} {e : NameEvent} {k : Nat} {name : String}

/-! ### One step and its event -/

namespace TellsNext

theorem declaration?_eq (h : TellsNext w step e) (hopen : openScopes v = History.openScopes w) (k : Nat) :
    (declaration? k (step :: v)).map Prod.fst = History.declaration? k (w, e) := by
  cases h with
  | declare name visibility within =>
    rw [declaration?, History.declaration?, hopen]
    by_cases hinner : (History.openScopes w).head? = some k <;> simp [hinner]
  | refer name => rfl
  | enter => rfl
  | leave => rfl

theorem declares_eq (h : TellsNext w step e) (hopen : openScopes v = History.openScopes w) (k : Nat) (name : String) :
    declares k name (step :: v) = History.declares k name (w, e) := by
  cases h with
  | declare own visibility within =>
    rw [declares, History.declares, declaration?, hopen]
    by_cases hinner : (History.openScopes w).head? = some k <;> simp [hinner]
  | refer name => rfl
  | enter => rfl
  | leave => rfl

theorem refers_eq (h : TellsNext w step e) (hmeans : ∀ name, resolve v name = History.resolve w name) (k : Nat)
    (name : String) : refers k name (step :: v) = History.refers k name (w, e) := by
  cases h with
  | declare own visibility within => rfl
  | refer own =>
    have hsame : (NameEvent.ref own == NameEvent.ref name) = (own == name) := by
      rw [Bool.eq_iff_iff, beq_iff_eq, beq_iff_eq, NameEvent.ref.injEq]
    rw [refers, History.refers, hmeans, hsame]
  | enter => rfl
  | leave => rfl

/-- Names that are declared in a scope inside another one are seen in this scope only. -/
theorem visibility_eq (h : TellsNext w step e) (hopen : openScopes v = History.openScopes w) (hk : k ≠ 0)
    {declaration : String × Visibility} (hdeclaration : declaration? k (step :: v) = some declaration) :
    declaration.2 = .priv := by
  cases h with
  | declare name visibility within =>
    obtain ⟨hinner, hsame⟩ := Option.ite_none_right_eq_some.mp hdeclaration
    obtain rfl := Option.some.inj hsame
    refine within.resolve_right fun hmodule => hk ?_
    rw [hopen, hmodule] at hinner
    exact (Option.some.inj hinner).symm
  | refer name => cases hdeclaration
  | enter => cases hdeclaration
  | leave => cases hdeclaration

end TellsNext

namespace Tells

theorem length_eq (h : Tells v w) : v.length = w.length + 1 := by
  induction h with
  | start => rfl
  | snoc _ _ ih => rw [List.length_cons, ih, List.length_append, List.length_singleton]

/-! ### The open scopes -/

/-- The same scopes are open, and all those that were entered are to be checked but the scope of the module. -/
theorem scopes_eq (h : Tells v w) :
    openScopes v = History.openScopes w ∧ pending v = (History.openScopes w).map fun k => k != 0 := by
  induction h with
  | start => exact ⟨rfl, rfl⟩
  | @snoc v w _ _ past next ih =>
    obtain ⟨hopen, hpending⟩ := ih
    cases next with
    | declare name visibility within =>
      rw [History.openScopes_declare]
      exact ⟨hopen, hpending⟩
    | refer name =>
      rw [History.openScopes_ref]
      exact ⟨hopen, hpending⟩
    | enter =>
      rw [History.openScopes_opening, openScopes, pending, hopen, hpending, past.length_eq]
      exact ⟨rfl, rfl⟩
    | leave =>
      rw [History.openScopes_closing, openScopes, pending, hopen, hpending, List.map_tail]
      refine ⟨?_, rfl⟩
      split
      · next hnil => rw [List.map_eq_nil_iff.mp hnil, List.tail_nil]
      · rfl

theorem openScopes_eq (h : Tells v w) : openScopes v = History.openScopes w :=
  h.scopes_eq.1

/-! ### The names of a scope -/

/-- The same names are declared in a scope, in the same order. -/
theorem declaredNames_eq (h : Tells v w) (k : Nat) : declaredNames v k = History.declaredNames w k := by
  induction h with
  | start => rfl
  | @snoc v w step e past next ih =>
    rw [declaredNames_cons, History.declaredNames_snoc, ← next.declaration?_eq past.openScopes_eq, ih]
    cases declaration? k (step :: v) with
    | none => rfl
    | some declaration => simp only [Option.map_some, History.mem_declaredNames]

/-- A name means the same scope. -/
theorem resolve_eq (h : Tells v w) (name : String) : resolve v name = History.resolve w name := by
  rw [resolve, History.resolve, h.openScopes_eq]
  congr 1
  funext k
  rw [h.declaredNames_eq, Bool.eq_iff_iff, decide_eq_true_iff, History.mem_declaredNames]

/-- No reference is counted for a name if and only if none has meant it since its last declaration. -/
theorem uses_eq_zero_iff (h : Tells v w) (k : Nat) (name : String) :
    uses v k name = 0 ↔ History.referredSince w k name = false := by
  induction h with
  | start => exact iff_of_true rfl rfl
  | @snoc v w step e past next ih =>
    rw [uses_cons, History.referredSince_snoc, next.declares_eq past.openScopes_eq, next.refers_eq past.resolve_eq]
    cases History.declares k name (w, e) <;> cases History.refers k name (w, e) <;> simp [ih]

theorem visibility_of_mem_declarations (h : Tells v w) (hk : k ≠ 0) :
    ∀ declaration ∈ declarations v k, declaration.2 = .priv := by
  induction h with
  | start =>
    intro declaration hmem
    cases hmem
  | @snoc v w step e past next ih =>
    intro declaration hmem
    rw [declarations_cons] at hmem
    rcases List.mem_append.mp hmem with hmem | hmem
    · exact next.visibility_eq past.openScopes_eq hk (Option.mem_toList.mp hmem)
    · exact ih declaration hmem

/-- The same names of a scope inside another one are left without a reference. -/
theorem unusedNames_eq (h : Tells v w) (hk : k ≠ 0) : unusedNames v k = History.unreferredNames w k := by
  rw [unusedNames, History.unreferredNames, h.declaredNames_eq]
  refine List.filter_congr fun name hname => ?_
  rw [← h.declaredNames_eq] at hname
  obtain ⟨visibility, hvisibility⟩ := exists_visibility? hname
  have hmem : (name, visibility) ∈ declarations v k := by
    obtain ⟨later, earlier, hsplit, -⟩ := List.lookup_eq_some_iff.mp hvisibility
    simp [hsplit]
  obtain rfl : visibility = .priv := h.visibility_of_mem_declarations hk _ hmem
  rw [hvisibility, Bool.eq_iff_iff]
  simp [h.uses_eq_zero_iff]

end Tells

end ScopeLint.StepHistory
