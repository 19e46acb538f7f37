import ScopeLint.Proofs.Check.Acceptance
import ScopeLint.Proofs.Check.Independence

/-!
# Discarded names

A name that starts with an underscore is given to no binding, but for one place of the language.  The grammar reads such
a name as a pattern that binds nothing, wherever a pattern may stand, and the check leaves out the parameters with such
names; an alias pattern binds its name whatever it is.

* `Module.declaredInside_iff`: what the functions of a module declare inside its scope are the names of their parameters
  and what the nodes of their bodies declare.
* `Module.alias_of_discarded`: in a text, a discarded name is declared inside the scope of the module exactly if it is
  the name of an alias pattern, so no other discarded name is reported as unused.
* `unused_aliasText`: the name of an alias pattern is reported, discarded or not.
-/

namespace ScopeLint

namespace History

/-! ### Names declared inside the scope of the module -/

/-- A name was declared in a scope inside the scope of the module.  These are the scopes that are checked for unused
names when they are closed. -/
def DeclaredInside (w : List NameEvent) (name : String) : Prop :=
  ∃ scope ≠ 0, declaredIn w scope name = true

/-- The innermost scope is not the scope of the module. -/
def IsInside (w : List NameEvent) : Prop :=
  ∃ scope ≠ 0, (openScopes w).head? = some scope

variable {w : List NameEvent} {name : String}

theorem declaredInside_snoc (w : List NameEvent) (e : NameEvent) (name : String) :
    DeclaredInside (w ++ [e]) name ↔ DeclaredInside w name ∨ e = .declare name ∧ IsInside w := by
  simp only [DeclaredInside, IsInside, declaredIn_snoc, declares, Bool.or_eq_true, Bool.and_eq_true, beq_iff_eq]
  constructor
  · rintro ⟨scope, hscope, hdeclared | ⟨he, hhead⟩⟩
    · exact .inl ⟨scope, hscope, hdeclared⟩
    · exact .inr ⟨he, scope, hscope, hhead⟩
  · rintro (⟨scope, hscope, hdeclared⟩ | ⟨he, scope, hscope, hhead⟩)
    · exact ⟨scope, hscope, .inl hdeclared⟩
    · exact ⟨scope, hscope, .inr ⟨he, hhead⟩⟩

theorem declaredInside_snoc_of_ne {e : NameEvent} (he : e ≠ .declare name) :
    DeclaredInside (w ++ [e]) name ↔ DeclaredInside w name := by
  rw [declaredInside_snoc, or_iff_left fun h => he h.1]

theorem isInside_opening (w : List NameEvent) : IsInside (w ++ [NameEvent.opening]) :=
  ⟨w.length + 1, Nat.succ_ne_zero _, by rw [openScopes_opening, List.head?_cons]⟩

theorem IsInside.of_openScopes_eq {v : List NameEvent} (hw : IsInside w) (h : openScopes v = openScopes w) :
    IsInside v := by
  rwa [IsInside, h]

/-- Nested events inside a scope declare all their names inside the scope of the module. -/
theorem declaredInside_append {v : List NameEvent} (hv : Nested v) (hw : IsInside w) (name : String) :
    DeclaredInside (w ++ v) name ↔ DeclaredInside w name ∨ .declare name ∈ v := by
  induction hv generalizing w with
  | nothing => simp
  | declare other _ ih =>
    rw [List.append_cons, ih (hw.of_openScopes_eq (openScopes_declare w other)), declaredInside_snoc, and_iff_left hw,
      List.mem_cons, or_assoc, eq_comm (a := NameEvent.declare other)]
  | ref other _ ih =>
    rw [List.append_cons, ih (hw.of_openScopes_eq (openScopes_ref w other)),
      declaredInside_snoc_of_ne NameEvent.noConfusion]
    simp
  | @scope u v inner _ ihinner ihrest =>
    have hclosed : openScopes (w ++ [NameEvent.opening] ++ u ++ [NameEvent.closing]) = openScopes w := by
      rw [openScopes_closing, inner.openScopes_append, openScopes_opening, List.tail_cons]
    rw [List.append_cons, ← List.append_assoc, List.append_cons, ihrest (hw.of_openScopes_eq hclosed),
      declaredInside_snoc_of_ne NameEvent.noConfusion, ihinner (isInside_opening w),
      declaredInside_snoc_of_ne NameEvent.noConfusion]
    simp [or_assoc]

/-- While the scope of the module is open, what was reported as unused was declared inside it. -/
theorem declaredInside_of_unused (hw : 0 ∈ openScopes w) (h : .unused name ∈ findings w) : DeclaredInside w name := by
  induction w using List.reverseRecOn with
  | nil => cases h
  | append_singleton w e ih =>
    rw [findings_snoc, List.mem_append] at h
    refine (declaredInside_snoc w e name).mpr (.inl ?_)
    rcases h with h | h
    · exact ih (zero_mem_of_snoc hw) h
    · cases e with
      | declare other => cases h
      | opening => cases h
      | ref other =>
        simp only [findingsAt] at h
        split at h
        · simp [Diagnostic.unused, Diagnostic.undefined] at h
        · cases h
      | closing =>
        obtain ⟨scope, outer, hopen⟩ := List.exists_cons_of_ne_nil (List.ne_nil_of_mem (zero_mem_of_snoc hw))
        simp only [findingsAt, hopen, List.head?_cons, Option.toList_some, List.flatMap_singleton, List.mem_map,
          Diagnostic.unused_injective.eq_iff, exists_eq_right, unreferredNames, List.mem_filter] at h
        exact ⟨scope, ne_zero_of_closing hw hopen, mem_declaredNames.mp h.1⟩

end History

open History

/-! ### Functions -/

/-- A function declares its name in the scope of the module, and everything else inside it. -/
theorem declaredInside_functionEvents {w : List NameEvent} (hw : openScopes w = [0]) (f : Node) (name : String) :
    DeclaredInside (w ++ functionEvents f) name ↔
      DeclaredInside w name ∨ .declare name ∈ parameterEvents f.parameters ++ eventsAll f.body := by
  cases f with
  | function anchor own visibility parameters body ascription =>
    have hsplit : w ++ functionEvents (.function anchor own visibility parameters body ascription) =
        w ++ [NameEvent.declare own] ++ [NameEvent.opening] ++
          (parameterEvents parameters ++ .opening :: (eventsAll body ++ [NameEvent.closing])) ++
          [NameEvent.closing] := by
      simp [functionEvents]
    have hown : DeclaredInside (w ++ [NameEvent.declare own]) name ↔ DeclaredInside w name := by
      refine (declaredInside_snoc w _ name).trans (or_iff_left ?_)
      rintro ⟨-, scope, hscope, hhead⟩
      rw [hw] at hhead
      exact hscope (Option.some.inj hhead).symm
    rw [hsplit, declaredInside_snoc_of_ne NameEvent.noConfusion,
      declaredInside_append (nested_function parameters body) (isInside_opening _),
      declaredInside_snoc_of_ne NameEvent.noConfusion, hown]
    simp [Node.parameters, Node.body]
  | _ => simp [functionEvents, Node.parameters, Node.body, parameterEvents, eventsAll]

/-- What the functions of a module declare inside its scope. -/
theorem Module.declaredInside_iff (m : Module) (name : String) :
    DeclaredInside m.events name ↔
      ∃ f ∈ m.functions, .declare name ∈ parameterEvents f.parameters ++ eventsAll f.body := by
  unfold Module.events
  induction m.functions using List.reverseRecOn with
  | nil => simp [DeclaredInside, declaredIn, moments, momentsFrom]
  | append_singleton fs f ih =>
    have hopen : openScopes (fs.flatMap functionEvents) = [0] := Module.openScopes_events ⟨.nowhere, fs, []⟩
    rw [List.flatMap_append, List.flatMap_singleton, declaredInside_functionEvents hopen, ih]
    simp [or_and_right, exists_or]

theorem not_isDiscarded_of_mem_parameterEvents {parameters : List Node} {name : String}
    (h : .declare name ∈ parameterEvents parameters) : isDiscarded name = false := by
  fun_induction parameterEvents parameters with
  | case1 => cases h
  | case2 _ _ _ _ _ _ ih => exact ih h
  | case3 _ own _ _ _ hkept ih =>
    rcases List.mem_cons.mp h with heq | h
    · rw [NameEvent.declare.inj heq]
      exact Bool.eq_false_iff.mpr hkept
    · exact ih h
  | case4 _ _ _ ih => exact ih h

/-! ### Texts -/

/-- The check of a module meets an alias pattern of a name. -/
def Module.HasAlias (m : Module) (name : String) : Prop :=
  ∃ f ∈ m.functions, ∃ statement ∈ f.body, ∃ anchor inner, statement.LeadsTo (.patAlias anchor inner name)

/-- In a text, only an alias pattern declares a discarded name: there is no name pattern of one. -/
theorem Node.IsPlaced.declare_mem_events_iff {node : Node} (h : node.IsPlaced) {name : String}
    (hname : isDiscarded name = true) :
    .declare name ∈ node.events ↔ ∃ anchor inner, node.LeadsTo (.patAlias anchor inner name) := by
  rw [Node.mem_events_iff NameEvent.noConfusion NameEvent.noConfusion]
  constructor
  · rintro ⟨b, hleads, hb⟩
    cases b with
    | patAlias anchor inner own =>
      cases hb
      exact ⟨anchor, inner, hleads⟩
    | patName anchor own =>
      cases hb
      rcases (h.leadsTo hleads).2 with hbare | ⟨ws, hws⟩
      · cases hbare
      · rw [Node.spelling] at hws
        have hkept := (Spelling.mem_provided.mp hws).1
        rw [hname] at hkept
        cases hkept
    | _ => cases hb
  · rintro ⟨anchor, inner, hleads⟩
    exact ⟨_, hleads, rfl⟩

/-- In a text, a discarded name is declared in a checked scope exactly if the check meets an alias pattern of it.  So
no discarded name is reported as unused that is not the name of an alias pattern: neither a parameter, nor a name
pattern of a binding or use statement at any depth, nor the tail of a list pattern. -/
theorem Module.alias_of_discarded (text : List Char) {m : Module} (hm : Module.ofTokens (tokenize text) = .ok m)
    {name : String} (hname : isDiscarded name = true) :
    (DeclaredInside m.events name ↔ m.HasAlias name) ∧
      ∃ found, m.check.value = .ok found ∧ (.unused name ∈ found → m.HasAlias name) := by
  have hdeclared : DeclaredInside m.events name ↔ m.HasAlias name := by
    rw [Module.declaredInside_iff]
    refine exists_congr fun f => and_congr_right fun hf => ?_
    obtain ⟨hfunction, ws, hws⟩ := Module.functions_of_ofTokens (finished_tokenize text) hm f hf
    have hbody := (Node.placed_of_spelled hfunction hws).2
    have hparameters : .declare name ∉ parameterEvents f.parameters := fun h => by
      rw [not_isDiscarded_of_mem_parameterEvents h] at hname
      cases hname
    rw [List.mem_append, or_iff_right hparameters, eventsAll_eq_flatMap, List.mem_flatMap]
    exact exists_congr fun statement => and_congr_right fun hstatement =>
      (hbody statement hstatement).declare_mem_events_iff hname
  have hregular := Module.isRegular_of_ofTokens (finished_tokenize text) hm
  refine ⟨hdeclared, findings m.events, by rw [Module.check_value, Checker.run_fresh hregular], fun hunused => ?_⟩
  refine hdeclared.mp (declaredInside_of_unused ?_ hunused)
  rw [m.openScopes_events]
  exact List.mem_singleton_self 0

/-- A function with a discarded parameter and with discarded names in a binding statement. -/
def discardingText : List Char :=
  "fn f(_a) \x7blet #(_b, [_c, .._d]) = 1\x7d".toList

/-- The discarded names of the text are declared nowhere and not reported. -/
theorem alias_discardingText :
    ∃ m, Module.ofTokens (tokenize discardingText) = .ok m ∧ isDiscarded "_d" = true ∧
      (DeclaredInside m.events "_d" ↔ m.HasAlias "_d") ∧
        ∃ found, m.check.value = .ok found ∧ (.unused "_d" ∈ found → m.HasAlias "_d") := by
  obtain ⟨m, hm⟩ : ∃ m, Module.ofTokens (tokenize discardingText) = .ok m :=
    Module.exists_of_isSome (by decide +kernel)
  exact ⟨m, hm, by decide, Module.alias_of_discarded discardingText hm (by decide)⟩

/-- A function that gives a discarded name to the match of a pattern. -/
def aliasText : List Char :=
  "fn f() \x7b\nlet x as _y = 1\nx\n\x7d".toList

/-- The text is read, and the discarded name of its alias pattern is reported as unused. -/
theorem unused_aliasText :
    isDiscarded "_y" = true ∧ (CommandLine.checkText aliasText).value.toOption = some [.unused "_y"] := by
  decide +kernel

end ScopeLint
