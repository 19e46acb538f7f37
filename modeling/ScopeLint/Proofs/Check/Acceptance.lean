import ScopeLint.CommandLine.Run
import ScopeLint.Proofs.Check.Descent

/-!
# What is read can be checked

The check fails at nodes of some kinds, wherever it meets them.  It meets statements, patterns and expressions only,
since the grammar puts every node of another kind below one that the check does not look into.

* `Node.placed_of_spelled`: a function of a text has parameters for parameters, and statements of the text for its body.
* `Module.isRegular_of_ofTokens`: the functions of a module that was read are regular.
* `check_of_read`: the check of a module that was read finds something in any case, so the check of a text fails with
  a fault of its tokens if it fails.
-/

namespace ScopeLint

open Spelling

/-! ### Functions and modules -/

/-- A function with a spelling has parameters for parameters, and its body is made of statements of the text. -/
theorem Node.placed_of_spelled {node : Node} {ws : List Word} (hnode : node.isFunction = true)
    (h : ws ∈ node.spelling) :
    node.parameters.all Node.isParameter = true ∧ ∀ statement ∈ node.body, statement.IsPlaced := by
  cases node with
  | function anchor name visibility parameters body ascription =>
    unfold Node.spelling at h
    obtain ⟨-, ⟨-, ⟨-, ⟨-, -, us, hus, -⟩, -, -, -⟩, -, -, -⟩, _, hblock, -⟩ := h
    obtain ⟨-, ⟨-, -, vs, hvs, -⟩, -, -, -⟩ := hblock
    constructor
    · refine List.all_eq_true.mpr fun p hp => ?_
      rw [spellings_eq_map] at hus
      obtain ⟨ws, hws⟩ := mem_of_mem_commaList hus (List.mem_map_of_mem hp)
      exact (mem_provided.mp hws).1
    · exact Node.isPlaced_of_spellings (fun _ => Node.isMet_of_isStatement) fun l hl => mem_of_mem_prod hvs hl
  | _ => cases hnode

theorem Node.isRegularFunction_of_spelled {node : Node} {ws : List Word} (hnode : node.isFunction = true)
    (h : ws ∈ node.spelling) : node.isRegularFunction = true := by
  obtain ⟨hparameters, hbody⟩ := Node.placed_of_spelled hnode h
  cases node with
  | function anchor name visibility parameters body ascription =>
    exact Bool.and_eq_true_iff.mpr ⟨hparameters, areRegular_iff.mpr fun b hb => (hbody b hb).isRegular⟩
  | _ => cases hnode

theorem DefinitionsSpelled.mem_functions {functions imports : List Node} {ws : List Word}
    (h : DefinitionsSpelled functions imports ws) :
    ∀ f ∈ functions, f.isFunction = true ∧ ∃ vs, vs ∈ f.spelling := by
  induction h with
  | nothing => simp
  | function stands head _ ih => exact List.forall_mem_cons.mpr ⟨⟨stands, _, head⟩, ih⟩
  | importing _ _ _ ih => exact ih

theorem Module.functions_of_ofTokens {ts : List Token} (hts : Finished ts) {m : Module}
    (hm : Module.ofTokens ts = .ok m) : ∀ f ∈ m.functions, f.isFunction = true ∧ ∃ ws, ws ∈ f.spelling := by
  rcases Module.ofTokens_cases hts with ⟨fault, hfault⟩ | ⟨m', ws, hm', hspelled⟩
  · rw [hm] at hfault
    cases hfault
  · rw [hm] at hm'
    cases hm'
    exact hspelled.mem_functions

/-- The functions of a module that was read are made of statements, patterns and expressions. -/
theorem Module.isRegular_of_ofTokens {ts : List Token} (hts : Finished ts) {m : Module}
    (hm : Module.ofTokens ts = .ok m) : ∀ f ∈ m.functions, f.isRegularFunction = true := by
  intro f hf
  obtain ⟨hfunction, ws, hws⟩ := Module.functions_of_ofTokens hts hm f hf
  exact Node.isRegularFunction_of_spelled hfunction hws

/-! ### Texts -/

theorem CommandLine.checkText_value (text : List Char) :
    (checkText text).value =
      match Module.ofTokens (tokenize text) with
      | .error failure => .error (.syntactic failure)
      | .ok m =>
        match m.check.value with
        | .error failure => .error (.analysis failure)
        | .ok found => .ok found := by
  have hne : tokenize text ≠ [] := by simp [tokenize, Scanned.tokens]
  obtain ⟨t, ts, htokens⟩ := List.exists_cons_of_ne_nil hne
  have honTokens : (Grammar.wholeModule.onTokens (t :: ts)).value = Grammar.wholeModule.run ⟨[], t, ts⟩ := rfl
  rw [checkText]
  simp only [Logged.value_bind, withNotices, htokens, Module.ofTokens_cons, honTokens]
  cases Grammar.wholeModule.run ⟨[], t, ts⟩ with
  | error failure => rfl
  | ok answer =>
    obtain ⟨m, d⟩ := answer
    simp only [Except.map, Logged.value_bind]
    cases m.check.value <;> rfl

/-- A module that was read from a text can be checked: a checker that is run on it fails nowhere and has no scope open
at the end.  So the check of a text finds something, or fails with a fault of the tokens of the text. -/
theorem check_of_read (text : List Char) :
    (∀ m, Module.ofTokens (tokenize text) = .ok m → ∃ found,
      (Checker.fresh.run m).value = (.ok found, ⟨⟨[], found⟩, true⟩) ∧ m.check.value = .ok found) ∧
    ((∃ found, (CommandLine.checkText text).value = .ok found) ∨
      ∃ fault, (CommandLine.checkText text).value = .error (.syntactic (.fault fault))) := by
  have hcheck : ∀ m, Module.ofTokens (tokenize text) = .ok m → ∃ found,
      (Checker.fresh.run m).value = (.ok found, ⟨⟨[], found⟩, true⟩) ∧ m.check.value = .ok found := by
    intro m hm
    have hrun := Checker.run_fresh (Module.isRegular_of_ofTokens (finished_tokenize text) hm)
    exact ⟨_, hrun, by rw [Module.check_value, hrun]⟩
  refine ⟨hcheck, ?_⟩
  rw [CommandLine.checkText_value]
  rcases Module.ofTokens_cases (finished_tokenize text) with ⟨fault, hfault⟩ | ⟨m, ws, hm, -⟩
  · right
    exact ⟨fault, by rw [hfault]⟩
  · left
    obtain ⟨found, -, hfound⟩ := hcheck m hm
    exact ⟨found, by rw [hm]; simp only [hfound]⟩

/-- A function whose parameter is bound to another name, which nothing refers to. -/
def unusedText : List Char :=
  "fn f(x) \x7blet y = x\x7d".toList

/-- The function is read, and checking it leaves no scope open. -/
theorem check_unusedText :
    ∃ m, Module.ofTokens (tokenize unusedText) = .ok m ∧ ∃ found,
      (Checker.fresh.run m).value = (.ok found, ⟨⟨[], found⟩, true⟩) ∧ m.check.value = .ok found := by
  obtain ⟨m, hm⟩ : ∃ m, Module.ofTokens (tokenize unusedText) = .ok m := Module.exists_of_isSome (by decide +kernel)
  exact ⟨m, hm, (check_of_read unusedText).1 m hm⟩

end ScopeLint
