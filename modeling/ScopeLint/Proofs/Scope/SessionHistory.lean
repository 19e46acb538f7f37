import ScopeLint.Proofs.Scope.StepHistory

/-!
# Sessions follow their histories

A session keeps scopes and overwrites them.  What it holds and answers is nevertheless a function of the steps that
were done (`ScopeSession.reached_eq`), whatever their order: scopes may be opened and closed by hand while others are
entered, and a step that fails may be followed by any other step.
-/

namespace ScopeLint

open StepHistory

namespace StepHistory

/-- What a step reports, with the steps before it. -/
def reports (past : List ScopeStep) : ScopeStep → List Diagnostic
  | .report d => [d]
  | .leave =>
    if (pending past).head? = some true then ((openScopes past).head?.toList.flatMap (unusedNames past)).map .unused
    else []
  | _ => []

/-- The diagnostics of a history, in the order in which they were reported. -/
def diagnostics : List ScopeStep → List Diagnostic
  | [] => []
  | step :: past => diagnostics past ++ reports past step

/-- What a step answers, with the steps before it. -/
def answer (past : List ScopeStep) : ScopeStep → Except CheckFailure ScopeAnswer
  | .pop =>
    match openScopes past with
    | [] => .error .nothingToClose
    | k :: _ => .ok (.scope (bindings past k))
  | .declare name _ => if openScopes past = [] then .error (.nowhereToDeclare name) else .ok .done
  | .refer name => .ok (.truth (decide (∃ k ∈ openScopes past, name ∈ declaredNames past k)))
  | .binds name => .ok (.truth (decide (∃ k ∈ openScopes past, name ∈ declaredNames past k)))
  | .depth => .ok (.count (openScopes past).length)
  | .leave => if openScopes past = [] ∧ pending past ≠ [] then .error .nothingToClose else .ok (.truth false)
  | .push => .ok .done
  | .enter _ => .ok .done
  | .report _ => .ok .done

end StepHistory

namespace ScopeSession

/-- The session behind some steps, the latest first. -/
def reached : List ScopeStep → ScopeSession
  | [] => initial
  | step :: past => ((reached past).perform step).2

/-- A step that fails changes neither scopes nor diagnostics. -/
theorem state_of_error {s : ScopeSession} {step : ScopeStep} {failure : CheckFailure}
    (h : (s.perform step).1 = .error failure) : (s.perform step).2.state = s.state := by
  cases step with
  | pop =>
    cases hpop : s.state.pop with
    | ok closed => simp [perform, hpop] at h
    | error failure => simp [perform, hpop]
  | declare name visibility =>
    cases hdeclare : s.state.declare name visibility with
    | ok state => simp [perform, hdeclare] at h
    | error failure => simp [perform, hdeclare]
  | refer name => cases hrefer : s.state.refer? name <;> simp [perform, hrefer] at h
  | leave =>
    cases hentered : s.entered with
    | nil => simp [perform, hentered]
    | cons checked rest =>
      cases hclose : s.state.close checked with
      | ok state => simp [perform, hentered, hclose] at h
      | error failure => simp [perform, hentered, hclose]
  | _ => cases h

/-- The session that a history tells of. -/
def told (w : List ScopeStep) : ScopeSession :=
  ⟨⟨scopes w, diagnostics w⟩, pending w⟩

private theorem perform_pop (w : List ScopeStep) : (told w).perform .pop = (answer w .pop, told (.pop :: w)) := by
  have hbehind : told (.pop :: w) = ⟨⟨(scopes w).tail, diagnostics w⟩, pending w⟩ := by
    simp [told, scopes_pop, diagnostics, reports, pending]
  rw [hbehind, told]
  cases hopen : openScopes w with
  | nil => simp [perform, ScopeState.pop, answer, hopen, scopes_of_nil hopen]
  | cons k ks => simp [perform, ScopeState.pop, answer, hopen, scopes_of_cons hopen]

private theorem perform_declare (w : List ScopeStep) (name : String) (visibility : Visibility) :
    (told w).perform (.declare name visibility) =
      (answer w (.declare name visibility), told (.declare name visibility :: w)) := by
  have hbehind : told (.declare name visibility :: w) =
      ⟨⟨scopes (.declare name visibility :: w), diagnostics w⟩, pending w⟩ := by
    simp [told, diagnostics, reports, pending]
  rw [hbehind, told]
  cases hopen : openScopes w with
  | nil =>
    have hsame : scopes (.declare name visibility :: w) = scopes w := by
      rw [scopes_of_nil hopen]
      exact scopes_of_nil hopen
    simp [perform, hsame, declare_of_nil _ hopen, answer, hopen]
  | cons k ks => simp [perform, declare_of_cons _ hopen, answer, hopen]

private theorem perform_refer (w : List ScopeStep) (name : String) :
    (told w).perform (.refer name) = (answer w (.refer name), told (.refer name :: w)) := by
  have hbehind : told (.refer name :: w) = ⟨⟨scopes (.refer name :: w), diagnostics w⟩, pending w⟩ := by
    simp [told, diagnostics, reports, pending]
  have hanswer : answer w (.refer name) = .ok (.truth (resolve w name).isSome) := by
    simp only [answer, ← isSome_resolve_iff, Bool.decide_eq_true]
  rw [hbehind, hanswer, told]
  cases hmeans : resolve w name with
  | none => simp [perform, refer?_none _ hmeans, scopes_refer_none hmeans]
  | some k =>
    obtain ⟨found, hfound⟩ := refer?_some (diagnostics w) hmeans
    simp [perform, hfound]

private theorem perform_binds (w : List ScopeStep) (name : String) :
    (told w).perform (.binds name) = (answer w (.binds name), told (.binds name :: w)) := by
  have hbehind : told (.binds name :: w) = told w := by
    have hscopes : scopes (.binds name :: w) = scopes w := scopes_quiet rfl (fun _ => rfl) fun _ _ => rfl
    simp [told, hscopes, diagnostics, reports, pending]
  have hbinds : (told w).state.binds name = decide (∃ k ∈ openScopes w, name ∈ declaredNames w k) := by
    rw [told, binds_scopes, Bool.eq_iff_iff, isSome_resolve_iff, decide_eq_true_iff]
  rw [perform, hbinds, hbehind, answer]

private theorem perform_leave (w : List ScopeStep) :
    (told w).perform .leave = (answer w .leave, told (.leave :: w)) := by
  have hbehind : told (.leave :: w) =
      ⟨⟨if pending w = [] then scopes w else (scopes w).tail, diagnostics w ++ reports w .leave⟩, (pending w).tail⟩ := by
    simp [told, scopes_leave, diagnostics, pending]
  rw [hbehind, told]
  cases hpending : pending w with
  | nil => simp [perform, reports, answer, hpending]
  | cons checked rest =>
    cases hopen : openScopes w with
    | nil =>
      have hclose := close_of_nil (diagnostics w) hopen checked
      rw [scopes_of_nil hopen] at hclose
      simp [perform, reports, answer, hpending, hopen, hclose, scopes_of_nil hopen]
    | cons k ks => simp [perform, reports, answer, hpending, hopen, close_of_cons _ hopen]

/-- A step leads from the session that a history tells of to the one that the longer history tells of. -/
theorem perform_told (w : List ScopeStep) (step : ScopeStep) :
    (told w).perform step = (answer w step, told (step :: w)) := by
  cases step with
  | push => simp [perform, told, ScopeState.push, answer, scopes_push, diagnostics, reports, pending]
  | pop => exact perform_pop w
  | declare name visibility => exact perform_declare w name visibility
  | refer name => exact perform_refer w name
  | binds name => exact perform_binds w name
  | depth =>
    have hscopes : scopes (.depth :: w) = scopes w := scopes_quiet rfl (fun _ => rfl) fun _ _ => rfl
    have hdepth : (scopes w).length = (openScopes w).length := List.length_map _
    simp [perform, told, ScopeState.depth, answer, hscopes, hdepth, diagnostics, reports, pending]
  | report d =>
    have hscopes : scopes (.report d :: w) = scopes w := scopes_quiet rfl (fun _ => rfl) fun _ _ => rfl
    simp [perform, told, ScopeState.report, answer, hscopes, diagnostics, reports, pending]
  | enter checked => simp [perform, told, ScopeState.push, answer, scopes_enter, diagnostics, reports, pending]
  | leave => exact perform_leave w

theorem reached_eq (w : List ScopeStep) : reached w = told w := by
  induction w with
  | nil => rfl
  | cons step w ih => rw [reached, ih, perform_told]

/-- Behind any steps, in any order, each open scope holds the bindings that the steps say, the next step answers what
they say, and it adds to the diagnostics what they say and takes none away.  A step that fails changes neither scopes
nor diagnostics. -/
theorem perform_reached (w : List ScopeStep) (step : ScopeStep) :
    (reached w).state.scopes = (openScopes w).map (bindings w) ∧
    ((reached w).perform step).1 = answer w step ∧
    ((reached w).perform step).2.state.diagnostics = (reached w).state.diagnostics ++ reports w step ∧
    ∀ failure, answer w step = .error failure → ((reached w).perform step).2.state = (reached w).state := by
  have hperform := perform_told w step
  rw [reached_eq]
  refine ⟨rfl, by rw [hperform], by rw [hperform]; rfl, fun failure hfailure => ?_⟩
  have hfailed : ((told w).perform step).1 = .error failure := by rw [hperform, hfailure]
  exact state_of_error hfailed

/-- A name is bound anew with another visibility, and a scope that was opened by hand hides another name.  At the end a
scope that was entered is closed by hand. -/
def strayHistory : List ScopeStep :=
  [.pop, .enter false, .leave, .pop, .refer "a", .refer "b", .declare "b" .priv, .push, .declare "b" .priv,
    .declare "a" .pub, .refer "a", .declare "a" .priv, .enter true]

theorem perform_strayHistory :
    ((reached strayHistory).perform .leave).1 = .error .nothingToClose ∧
      ((reached strayHistory).perform .leave).2.state = ⟨[], [.unused "b"]⟩ := by
  obtain ⟨-, hanswer, -, hsame⟩ := perform_reached strayHistory .leave
  have hfailure : answer strayHistory .leave = .error .nothingToClose := by decide
  have hstate : (reached strayHistory).state = ⟨[], [.unused "b"]⟩ := by decide
  exact ⟨hanswer.trans hfailure, (hsame _ hfailure).trans hstate⟩

end ScopeSession

end ScopeLint
