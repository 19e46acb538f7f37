import ScopeLint.Proofs.Grammar.ModuleTracking

/-!
# What a fault depends on

A fault is decided by the tokens up to the one behind it: every other list with these tokens has the same fault,
whatever it has behind them (`Module.fault_of_prefix`).  One more token than the one at the fault is needed, since a
rule that finds a name or a dot may look at the token behind it.
-/

namespace ScopeLint

/-- Two lists that have the same tokens up to the one behind an index. -/
def Twins.ofPrefix {ts us : List Token} (hts : Closed ts) (hus : Closed us) (k : Nat)
    (hsame : ∀ i ≤ k + 1, i < ts.length → us[i]? = ts[i]?) : Twins where
  left := ts
  right := us
  shift := 0
  first := 0
  bound := k + 1
  view := fun _ => ""
  leftClosed := hts
  rightClosed := hus
  echo {i t} _ hi ht := by
    refine ⟨t, ?_, .inl (.refl t)⟩
    rw [Nat.add_zero, hsame i (by omega) (List.getElem?_eq_some_iff.mp ht).1, ht]
  next {i t} _ hi ht hk := by
    have hne : t.kind ≠ .endOfInput := by rcases hk with hk | hk <;> rw [hk] <;> decide
    obtain ⟨u, hu⟩ := hts.getElem?_succ ht hne
    refine ⟨u, u, hu, ?_, fun _ _ => rfl⟩
    rw [Nat.add_zero, hsame (i + 1) (by omega) (List.getElem?_eq_some_iff.mp hu).1, hu]
  text _ _ _ _ _ _ _ := rfl

theorem Twins.strict_ofPrefix {ts us : List Token} (hts : Closed ts) (hus : Closed us) (k : Nat)
    (hsame : ∀ i ≤ k + 1, i < ts.length → us[i]? = ts[i]?) : (Twins.ofPrefix hts hus k hsame).Strict := by
  intro i t u _ hi ht hu
  have hi : i < k + 1 := hi
  have ht : ts[i]? = some t := ht
  have hu : us[i]? = some u := hu
  rw [hsame i (by omega) (List.getElem?_eq_some_iff.mp ht).1, ht] at hu
  cases hu
  exact .refl t

/-- A fault of a list is the fault of every other list with the same tokens up to the one behind the fault. -/
theorem Module.fault_of_prefix {ts us : List Token} (hts : Finished ts) (hus : Finished us) {f : Fault}
    (hf : Module.ofTokens ts = .error (.fault f))
    (hsame : ∀ i ≤ f.index + 1, i < ts.length → us[i]? = ts[i]?) :
    ts[f.index]? = some f.token ∧ Module.ofTokens us = .error (.fault f) := by
  have hat := Module.getElem?_of_fault hts hf
  have hstrict := Twins.strict_ofPrefix hts.closed_list hus.closed_list f.index hsame
  obtain ⟨f', hf', hcause, hindex⟩ :=
    (Module.tracks_ofTokens hstrict rfl rfl hts hus).2 f hf (Nat.lt_succ_self _)
  refine ⟨hat, ?_⟩
  have hat' := Module.getElem?_of_fault hus hf'
  rw [hindex, hsame f.index (by omega) (List.getElem?_eq_some_iff.mp hat).1, hat] at hat'
  obtain ⟨cause, token, index⟩ := f
  obtain ⟨cause', token', index'⟩ := f'
  cases hcause
  cases hindex
  cases hat'
  exact hf'

/-- The tokens of a function whose name is followed by the wrong parenthesis. -/
def wrongParenthesis (behind : List Token) : List Token :=
  [⟨.keyword, some "fn", 1, 1, 0, 2⟩, ⟨.name, some "f", 1, 4, 3, 4⟩, ⟨.rightParen, some ")", 1, 5, 4, 5⟩,
   ⟨.leftBrace, some "\x7b", 1, 7, 6, 7⟩] ++ behind ++ [⟨.endOfInput, none, 2, 1, 9, 9⟩]

/-- Closing the braces behind a wrong parenthesis does not change the fault. -/
theorem fault_wrongParenthesis :
    Module.ofTokens (wrongParenthesis []) =
      .error (.fault ⟨.missing .parametersStart, ⟨.rightParen, some ")", 1, 5, 4, 5⟩, 2⟩) ∧
    Module.ofTokens (wrongParenthesis [⟨.rightBrace, some "\x7d", 1, 8, 7, 8⟩]) =
      .error (.fault ⟨.missing .parametersStart, ⟨.rightParen, some ")", 1, 5, 4, 5⟩, 2⟩) := by
  have hf : Module.ofTokens (wrongParenthesis []) =
      .error (.fault ⟨.missing .parametersStart, ⟨.rightParen, some ")", 1, 5, 4, 5⟩, 2⟩) := by rfl
  have hts : Finished (wrongParenthesis []) := ⟨⟨_, rfl, rfl⟩, by decide⟩
  have hus : Finished (wrongParenthesis [⟨.rightBrace, some "\x7d", 1, 8, 7, 8⟩]) := ⟨⟨_, rfl, rfl⟩, by decide⟩
  exact ⟨hf, (Module.fault_of_prefix hts hus hf (by decide)).2⟩

end ScopeLint
