import Mathlib.Data.Finset.Insert
import Mathlib.Data.List.Find
import ScopeLint.Proofs.Scope.History

/-!
# Histories that go on behind others

A history that goes on behind one that has left nothing open but the scope of the module runs as it would alone, in
scopes of its own.  All that it sees of the past are the names declared in the scope of the module: a reference that
would mean no scope means that one if its name is declared there.  So what there is to report is what there was before,
and then what the history reports alone, without the errors for names that the past declares (`findings_append`).
-/

namespace ScopeLint

theorem Diagnostic.undefined_injective : Function.Injective undefined := by
  intro a b h
  have hmessage := congrArg (String.toList ∘ message) h
  exact String.toList_inj.mp (by simpa [undefined] using hmessage)

theorem Diagnostic.unused_injective : Function.Injective unused := by
  intro a b h
  have hmessage := congrArg (String.toList ∘ message) h
  exact String.toList_inj.mp (by simpa [unused] using hmessage)

/-- The diagnostics that are left when some more names are known: an error for one of them is not made. -/
def Diagnostic.knowing (known : Finset String) (ds : List Diagnostic) : List Diagnostic :=
  ds.filter fun d => ∀ name ∈ known, d ≠ .undefined name

theorem Diagnostic.knowing_undefined (known : Finset String) (name : String) :
    knowing known [.undefined name] = if name ∈ known then [] else [.undefined name] := by
  have hother : (∀ other ∈ known, undefined name ≠ undefined other) ↔ name ∉ known := by
    simp [undefined_injective.eq_iff]
  simp only [knowing, List.filter_singleton, hother]
  by_cases hname : name ∈ known <;> simp [hname]

namespace History

/-! ### Scopes opened later -/

/-- The scope of a history when some more events stand before it.  The scope of the module is opened before all events.
-/
def scopeBehind (before : Nat) : Nat → Nat
  | 0 => 0
  | scope + 1 => before + (scope + 1)

theorem scopeBehind_injective (before : Nat) : Function.Injective (scopeBehind before) := by
  intro a b h
  cases a <;> cases b <;> simp only [scopeBehind] at h <;> omega

theorem lt_scopeBehind (before : Nat) {scope : Nat} (h : scope ≠ 0) : before < scopeBehind before scope := by
  cases scope with
  | zero => exact absurd rfl h
  | succ scope => simp only [scopeBehind]; omega

/-- A scope that no event has opened yet is meant by no reference. -/
theorem referredSince_of_length_lt {w : List NameEvent} {scope : Nat} (h : w.length < scope) (name : String) :
    referredSince w scope name = false := by
  induction w using List.reverseRecOn with
  | nil => rfl
  | append_singleton w e ih =>
    rw [List.length_append] at h
    have hbefore : w.length < scope := Nat.lt_of_le_of_lt (Nat.le_add_right _ _) h
    have hnot : refers scope name (w, e) = false := by
      by_contra hrefers
      simp only [refers, Bool.not_eq_false, Bool.and_eq_true, beq_iff_eq] at hrefers
      have hopen := (openScopes_pairwise w).2 scope (List.mem_of_find?_eq_some hrefers.2)
      omega
    rw [referredSince_snoc, hnot, ih hbefore, Bool.or_false, Bool.and_false]

/-- While the scope of the module is open, it is the outermost one. -/
theorem openScopes_of_zero_mem {v : List NameEvent} (h : 0 ∈ openScopes v) :
    ∃ inner, openScopes v = inner ++ [0] ∧ ∀ scope ∈ inner, scope ≠ 0 := by
  obtain ⟨inner, outer, hsplit⟩ := List.append_of_mem h
  have hsorted := (openScopes_pairwise v).1
  rw [hsplit] at hsorted
  obtain ⟨-, houter, hinner⟩ := List.pairwise_append.mp hsorted
  have hlast : outer = [] := by
    rw [List.eq_nil_iff_forall_not_mem]
    exact fun scope hscope => Nat.not_lt_zero _ ((List.pairwise_cons.mp houter).1 scope hscope)
  subst hlast
  exact ⟨inner, hsplit, fun scope hscope => Nat.pos_iff_ne_zero.mp (hinner scope hscope 0 List.mem_cons_self)⟩

/-! ### A history behind another one -/

section

variable {w : List NameEvent} (hw : openScopes w = [0])

include hw

theorem openScopes_append (v : List NameEvent) :
    openScopes (w ++ v) = (openScopes v).map (scopeBehind w.length) := by
  induction v using List.reverseRecOn with
  | nil => rw [List.append_nil, hw]; rfl
  | append_singleton v e ih =>
    rw [← List.append_assoc, openScopes_snoc, openScopes_snoc, ih]
    cases e with
    | declare name => rfl
    | ref name => rfl
    | opening => simp [scopesAfter, scopeBehind, Nat.add_assoc]
    | closing => simp [scopesAfter]

theorem head?_openScopes_append (v : List NameEvent) (scope : Nat) :
    ((openScopes (w ++ v)).head? == some (scopeBehind w.length scope)) = ((openScopes v).head? == some scope) := by
  rw [openScopes_append hw, List.head?_map]
  cases (openScopes v).head? with
  | none => rfl
  | some k => simp [(scopeBehind_injective w.length).beq_eq]

theorem declares_append (v : List NameEvent) (e : NameEvent) (scope : Nat) (name : String) :
    declares (scopeBehind w.length scope) name (w ++ v, e) = declares scope name (v, e) := by
  rw [declares, head?_openScopes_append hw, declares]

theorem declaration?_append (v : List NameEvent) (e : NameEvent) (scope : Nat) :
    declaration? (scopeBehind w.length scope) (w ++ v, e) = declaration? scope (v, e) := by
  cases e <;> simp only [declaration?, head?_openScopes_append hw]

theorem declaredIn_append (v : List NameEvent) (scope : Nat) (name : String) :
    declaredIn (w ++ v) (scopeBehind w.length scope) name =
      (declaredIn w (scopeBehind w.length scope) name || declaredIn v scope name) := by
  induction v using List.reverseRecOn with
  | nil => rw [List.append_nil]; exact (Bool.or_false _).symm
  | append_singleton v e ih =>
    rw [← List.append_assoc, declaredIn_snoc, declaredIn_snoc, ih, declares_append hw, Bool.or_assoc]

/-- What is declared in a scope of the history was declared by the history. -/
theorem declaredIn_append_of_ne {scope : Nat} (hscope : scope ≠ 0) (v : List NameEvent) (name : String) :
    declaredIn (w ++ v) (scopeBehind w.length scope) name = declaredIn v scope name := by
  rw [declaredIn_append hw, declaredIn_of_length_lt (lt_scopeBehind _ hscope), Bool.false_or]

/-- A name means what it means alone, or else the scope of the module if it was declared there before. -/
theorem resolve_append {v : List NameEvent} (hv : 0 ∈ openScopes v) (name : String) :
    resolve (w ++ v) name =
      ((resolve v name).map (scopeBehind w.length)).or (if declaredIn w 0 name then some 0 else none) := by
  obtain ⟨inner, hopen, hinner⟩ := openScopes_of_zero_mem hv
  have houter : declaredIn (w ++ v) 0 name = (declaredIn w 0 name || declaredIn v 0 name) :=
    declaredIn_append hw v 0 name
  have hfind : (inner.map (scopeBehind w.length)).find? (declaredIn (w ++ v) · name) =
      (inner.find? (declaredIn v · name)).map (scopeBehind w.length) := by
    rw [List.find?_map]
    exact congrArg _ (List.find?_congr fun scope hscope => declaredIn_append_of_ne hw (hinner scope hscope) v name)
  -- The scope of the module is asked last, so what was declared there before counts only if nothing else does.
  rw [resolve, openScopes_append hw, hopen, List.map_append, List.find?_append, hfind, resolve, hopen,
    List.find?_append]
  cases inner.find? (declaredIn v · name) with
  | some scope => rfl
  | none =>
    cases hbefore : declaredIn w 0 name <;> cases hbehind : declaredIn v 0 name <;>
      simp [scopeBehind, houter, hbefore, hbehind]

section

variable {scope : Nat} (hscope : scope ≠ 0)

include hscope

theorem refers_append {v : List NameEvent} (hv : 0 ∈ openScopes v) (e : NameEvent) (name : String) :
    refers (scopeBehind w.length scope) name (w ++ v, e) = refers scope name (v, e) := by
  have hmodule : scopeBehind w.length scope ≠ 0 := Nat.ne_of_gt (Nat.zero_lt_of_lt (lt_scopeBehind _ hscope))
  have hmeans : (resolve (w ++ v) name == some (scopeBehind w.length scope)) = (resolve v name == some scope) := by
    rw [resolve_append hw hv]
    cases resolve v name with
    | none => cases declaredIn w 0 name <;> simp [hmodule.symm]
    | some k => simp [(scopeBehind_injective w.length).beq_eq]
  rw [refers, hmeans, refers]

theorem referredSince_append {v : List NameEvent} (hv : 0 ∈ openScopes v) (name : String) :
    referredSince (w ++ v) (scopeBehind w.length scope) name = referredSince v scope name := by
  induction v using List.reverseRecOn with
  | nil =>
    rw [List.append_nil]
    exact referredSince_of_length_lt (lt_scopeBehind _ hscope) name
  | append_singleton v e ih =>
    have hbefore := zero_mem_of_snoc hv
    rw [← List.append_assoc, referredSince_snoc, referredSince_snoc, declares_append hw, refers_append hw hscope hbefore,
      ih hbefore]

theorem declaredNames_append (v : List NameEvent) :
    declaredNames (w ++ v) (scopeBehind w.length scope) = declaredNames v scope := by
  induction v using List.reverseRecOn with
  | nil =>
    rw [List.append_nil]
    exact declaredNames_of_length_lt (lt_scopeBehind _ hscope)
  | append_singleton v e ih =>
    rw [← List.append_assoc, declaredNames_snoc, declaredNames_snoc, declaration?_append hw, ih]
    simp only [declaredIn_append_of_ne hw hscope]

theorem unreferredNames_append {v : List NameEvent} (hv : 0 ∈ openScopes v) :
    unreferredNames (w ++ v) (scopeBehind w.length scope) = unreferredNames v scope := by
  simp only [unreferredNames, declaredNames_append hw hscope, referredSince_append hw hscope hv]

end

/-- What there is to report at a moment, once the names that were declared before are known. -/
theorem findingsAt_append {known : Finset String} (hknown : ∀ name, name ∈ known ↔ declaredIn w 0 name = true)
    {v : List NameEvent} {e : NameEvent} (hv : 0 ∈ openScopes (v ++ [e])) :
    findingsAt (w ++ v, e) = Diagnostic.knowing known (findingsAt (v, e)) := by
  have hbefore := zero_mem_of_snoc hv
  cases e with
  | declare name => rfl
  | opening => rfl
  | ref name =>
    simp only [findingsAt, resolve_append hw hbefore]
    cases resolve v name with
    | some scope => rfl
    | none =>
      rw [Option.map_none, Option.none_or, Option.isNone_none, if_pos rfl, Diagnostic.knowing_undefined]
      cases hdeclared : declaredIn w 0 name <;> simp [hknown, hdeclared]
  | closing =>
    obtain ⟨scope, outer, hopen⟩ := List.exists_cons_of_ne_nil (List.ne_nil_of_mem hbefore)
    -- The scope of the module stays open, so the scope that is closed was opened by the history.
    have hscope : scope ≠ 0 := ne_zero_of_closing hv hopen
    have hunused : ∀ d ∈ (unreferredNames v scope).map Diagnostic.unused, ∀ name ∈ known, d ≠ .undefined name := by
      simp [Diagnostic.unused, Diagnostic.undefined]
    simp only [findingsAt, openScopes_append hw, hopen, List.map_cons, List.head?_cons, Option.toList_some,
      List.flatMap_singleton, unreferredNames_append hw hscope hbefore]
    exact (List.filter_eq_self.mpr fun d hd => decide_eq_true (hunused d hd)).symm

/-- What there is to report of a history behind others: what there was before, and what the history reports alone, once
the names that were declared before are known. -/
theorem findings_append {known : Finset String} (hknown : ∀ name, name ∈ known ↔ declaredIn w 0 name = true)
    {v : List NameEvent} (hv : 0 ∈ openScopes v) :
    findings (w ++ v) = findings w ++ Diagnostic.knowing known (findings v) := by
  induction v using List.reverseRecOn with
  | nil => simp [findings, moments, momentsFrom, Diagnostic.knowing]
  | append_singleton v e ih =>
    rw [← List.append_assoc, findings_snoc, findings_snoc, ih (zero_mem_of_snoc hv), findingsAt_append hw hknown hv]
    simp only [Diagnostic.knowing, List.filter_append, List.append_assoc]

end

end History

end ScopeLint
