import ScopeLint.Check.Visit
import Mathlib.Data.List.Forall2

/-!
# What a visit leaves alone

A visit binds names in the innermost scope only.  Whatever the node is and whether the visit fails or not, the scopes
that were open are open behind it: the scopes around the innermost one have their bindings, perhaps with more
references counted, and the innermost one has its names, perhaps with more of them behind (`ScopeState.Confines`).

* `Checking.Hereditary.visit`: a visit is put together from a few sorts of steps, so what holds of these and is kept
  by putting steps together holds of every visit.
* `visit_confines`: every visit is confined to the innermost scope.
-/

namespace ScopeLint

/-- The binding behind some references: nothing about it has changed but that it may have been referred to more
often. -/
structure Binding.ReferredOn (b c : Binding) : Prop where
  name : c.name = b.name
  visibility : c.visibility = b.visibility
  uses : b.uses ≤ c.uses

/-- The scope behind some references: its bindings in their order, with their counts. -/
def Scope.ReferredOn (s t : Scope) : Prop :=
  List.Forall₂ Binding.ReferredOn s t

/-- From one state to the other, only the innermost scope may get new names.  Its old names stay in front in their
order, the scopes around it are referred to at most, and what was found stays found. -/
structure ScopeState.Confines (s t : ScopeState) : Prop where
  depth : t.depth = s.depth
  outer : List.Forall₂ Scope.ReferredOn s.scopes.tail t.scopes.tail
  inner : ∀ scope ∈ s.scopes.head?, ∀ scope' ∈ t.scopes.head?, scope.names <+: scope'.names
  diagnostics : s.diagnostics <+: t.diagnostics

/-! ### References -/

namespace Binding.ReferredOn

instance : Std.Refl ReferredOn :=
  ⟨fun _ => ⟨rfl, rfl, Nat.le_refl _⟩⟩

theorem trans {b c d : Binding} (h : b.ReferredOn c) (h' : c.ReferredOn d) : b.ReferredOn d :=
  ⟨h'.name.trans h.name, h'.visibility.trans h.visibility, Nat.le_trans h.uses h'.uses⟩

end Binding.ReferredOn

/-- What goes on from element to element goes on from list to list. -/
private theorem forall₂_trans {α : Type} {R : α → α → Prop} (htrans : ∀ a b c, R a b → R b c → R a c)
    {as bs cs : List α} (h : List.Forall₂ R as bs) (h' : List.Forall₂ R bs cs) : List.Forall₂ R as cs := by
  induction h generalizing cs with
  | nil => exact h'
  | cons hab _ ih =>
    obtain _ | ⟨hbc, hrest⟩ := h'
    exact .cons (htrans _ _ _ hab hbc) (ih hrest)

namespace Scope.ReferredOn

instance : Std.Refl ReferredOn :=
  ⟨List.forall₂_refl⟩

theorem trans {s t u : Scope} (h : s.ReferredOn t) (h' : t.ReferredOn u) : s.ReferredOn u :=
  forall₂_trans (fun _ _ _ => .trans) h h'

theorem names_eq {s t : Scope} (h : s.ReferredOn t) : t.names = s.names := by
  unfold ReferredOn at h
  induction h with
  | nil => rfl
  | cons hb _ ih => exact congrArg₂ List.cons hb.name ih

end Scope.ReferredOn

theorem Scope.referredOn_of_refer? {name : String} {s : Scope} {found : Binding × Scope}
    (h : s.refer? name = some found) : s.ReferredOn found.2 := by
  induction s generalizing found with
  | nil => nomatch h
  | cons b bs ih =>
    by_cases hb : b.name = name
    · simp only [refer?, if_pos hb, Option.some.injEq] at h
      exact h ▸ .cons ⟨rfl, rfl, Nat.le_succ _⟩ (List.forall₂_refl bs)
    · simp only [refer?, if_neg hb, Option.map_eq_some_iff] at h
      obtain ⟨rest, hrest, rfl⟩ := h
      exact .cons (Std.Refl.refl b) (ih hrest)

theorem ScopeState.referredOn_of_referIn? {name : String} {scopes : List Scope} {found : Binding × List Scope}
    (h : referIn? name scopes = some found) : List.Forall₂ Scope.ReferredOn scopes found.2 := by
  induction scopes generalizing found with
  | nil => nomatch h
  | cons scope scopes ih =>
    rw [referIn?] at h
    cases hscope : scope.refer? name with
    | some hit =>
      simp only [hscope, Option.some.injEq] at h
      exact h ▸ .cons (Scope.referredOn_of_refer? hscope) (List.forall₂_refl scopes)
    | none =>
      simp only [hscope, Option.map_eq_some_iff] at h
      obtain ⟨rest, hrest, rfl⟩ := h
      exact .cons (Std.Refl.refl scope) (ih hrest)

/-! ### States -/

namespace ScopeState

variable {s t u : ScopeState}

namespace Confines

/-- References alone are confined, whichever scopes they reach. -/
theorem of_referredOn (h : List.Forall₂ Scope.ReferredOn s.scopes t.scopes) (hfound : s.diagnostics <+: t.diagnostics) :
    s.Confines t := by
  obtain ⟨scopes, _⟩ := s
  obtain ⟨scopes', _⟩ := t
  cases h with
  | nil => exact ⟨rfl, .nil, nofun, hfound⟩
  | cons hscope hrest =>
    refine ⟨congrArg (· + 1) hrest.length_eq.symm, hrest, ?_, hfound⟩
    rintro _ ⟨⟩ _ ⟨⟩
    exact hscope.names_eq ▸ List.prefix_rfl

theorem refl (s : ScopeState) : s.Confines s :=
  of_referredOn (List.forall₂_refl s.scopes) List.prefix_rfl

theorem ne_nil (h : s.Confines t) (hopen : s.scopes ≠ []) : t.scopes ≠ [] := by
  have hpos : 0 < s.depth := List.length_pos_iff.mpr hopen
  rw [← h.depth] at hpos
  exact List.length_pos_iff.mp hpos

theorem trans (h : s.Confines t) (h' : t.Confines u) : s.Confines u := by
  refine ⟨h'.depth.trans h.depth, forall₂_trans (fun _ _ _ => .trans) h.outer h'.outer, ?_,
    h.diagnostics.trans h'.diagnostics⟩
  intro scope hs scope' hu
  have hopen : t.scopes ≠ [] := h.ne_nil (List.ne_nil_of_mem (List.mem_of_head? hs))
  have ht := List.head?_eq_some_head hopen
  exact (h.inner scope hs _ ht).trans (h'.inner _ ht scope' hu)

end Confines

theorem confines_of_declare {name : String} {visibility : Visibility} (h : s.declare name visibility = .ok t) :
    s.Confines t := by
  obtain ⟨_ | ⟨scope, scopes⟩, _⟩ := s
  · nomatch h
  · obtain rfl := Except.ok.inj h
    refine ⟨rfl, List.forall₂_refl scopes, ?_, List.prefix_rfl⟩
    rintro _ ⟨⟩ _ ⟨⟩
    rw [Scope.names_declare]
    split
    · exact List.prefix_rfl
    · exact List.prefix_append _ _

theorem confines_of_refer? {name : String} {found : Binding} (h : s.refer? name = some (found, t)) : s.Confines t := by
  simp only [refer?, Option.map_eq_some_iff] at h
  obtain ⟨scopes, hscopes, heq⟩ := h
  obtain rfl := congrArg Prod.snd heq
  exact .of_referredOn (referredOn_of_referIn? hscopes) List.prefix_rfl

theorem confines_report (d : Diagnostic) (s : ScopeState) : s.Confines (s.report d) :=
  .of_referredOn (List.forall₂_refl s.scopes) (List.prefix_append _ _)

/-- What is confined to a scope that is closed behind it does no more to the scopes around it than to refer to them. -/
theorem Confines.close (h : s.push.Confines t) : ∃ u, t.close true = .ok u ∧ s.Confines u := by
  obtain ⟨scopes, diagnostics⟩ := t
  obtain ⟨scope, rest, rfl⟩ := List.exists_cons_of_ne_nil (h.ne_nil (List.cons_ne_nil _ _))
  exact ⟨_, rfl, .of_referredOn h.outer (h.diagnostics.trans (List.prefix_append _ _))⟩

end ScopeState

/-! ### Steps of a visit -/

/-- Holds of the single steps of a visit, and of what is put together from steps of which it holds. -/
structure Checking.Hereditary (P : Checking Unit → Prop) : Prop where
  nothing : P (pure ())
  note : ∀ event, P (note event)
  declare : ∀ name visibility, P (declare name visibility)
  refer : ∀ name, P (do if ← refer name then pure () else report (.undefined name))
  ruleless : ∀ node : Node, P (fail (.noRule node.kind node.anchor))
  seq : ∀ {c d}, P c → P d → P (do c; d)
  inScope : ∀ {c} description, P c → P (inScope description true c)

namespace Checking.Hereditary

variable {P : Checking Unit → Prop}

theorem declareParameters (h : Hereditary P) (parameters : List Node) : P (declareParameters parameters) := by
  fun_induction ScopeLint.declareParameters parameters with
  | case1 => exact h.nothing
  | case2 _ name _ _ rest _ _ ih => exact h.seq (h.note _) ih
  | case3 _ name _ _ rest _ _ ih => exact h.seq (h.declare _ _) ih
  | case4 _ rest _ ih => exact ih

mutual

/-- What is hereditary holds of the visit of every node, of whatever kinds the nodes below it are. -/
theorem visit (h : Hereditary P) : ∀ node : Node, P (visit node)
  | .function _ name visibility parameters body _ => by
    rw [ScopeLint.visit]
    have hbody := h.inScope ("body of " ++ name) (h.visitAll body)
    have hparameters := h.inScope ("parameters of " ++ name) (h.seq (h.declareParameters parameters) hbody)
    exact h.seq (h.note _) (h.seq (h.note _) (h.seq (h.declare _ _) (h.seq hparameters (h.note _))))
  | .assignment _ pattern _ _ _ => by
    rw [ScopeLint.visit]
    exact h.seq (h.note _) (h.visit pattern)
  | .use _ patterns _ => by
    rw [ScopeLint.visit]
    exact h.seq (h.note _) (h.visitAll patterns)
  | .expression _ inner => by
    rw [ScopeLint.visit]
    exact h.seq (h.note _) (h.visit inner)
  | .patName _ name => by
    rw [ScopeLint.visit]
    exact h.seq (h.note _) (h.declare name .priv)
  | .patTuple _ elements => by
    rw [ScopeLint.visit]
    exact h.seq (h.note _) (h.visitAll elements)
  | .patList _ elements tail => by
    rw [ScopeLint.visit]
    exact h.seq (h.note _) (h.seq (h.visitAll elements) (h.visitOption tail))
  | .patAlias _ inner name => by
    rw [ScopeLint.visit]
    exact h.seq (h.note _) (h.seq (h.visit inner) (h.declare name .priv))
  | .var _ name => by
    rw [ScopeLint.visit]
    exact h.seq (h.note _) (h.refer name)
  | .minus _ operand => by
    rw [ScopeLint.visit]
    exact h.seq (h.note _) (h.visit operand)
  | .not _ operand => by
    rw [ScopeLint.visit]
    exact h.seq (h.note _) (h.visit operand)
  | .block _ statements => by
    rw [ScopeLint.visit]
    exact h.seq (h.note _) (h.inScope _ (h.visitAll statements))
  | .tuple _ elements => by
    rw [ScopeLint.visit]
    exact h.seq (h.note _) (h.visitAll elements)
  | .patDiscard .. | .patInt .. | .patFloat .. | .patString .. | .patConstructor .. | .int .. | .float ..
  | .string .. | .list .. | .constructor .. | .call .. | .field .. | .binary .. | .choice .. | .lambda ..
  | .todo .. | .panic .. => by
    rw [ScopeLint.visit]
    exact h.seq (h.note _) (h.note _)
  | .argument .. | .clause .. | .parameter .. | .importing .. | .wholeModule .. | .unknown .. => by
    rw [ScopeLint.visit]
    exact h.seq (h.note _) (h.ruleless _)

theorem visitAll (h : Hereditary P) : ∀ nodes : List Node, P (visitAll nodes)
  | [] => by
    rw [ScopeLint.visitAll]
    exact h.nothing
  | node :: nodes => by
    rw [ScopeLint.visitAll]
    exact h.seq (h.visit node) (h.visitAll nodes)

theorem visitOption (h : Hereditary P) : ∀ node : Option Node, P (visitOption node)
  | none => by
    rw [ScopeLint.visitOption]
    exact h.nothing
  | some node => by
    rw [ScopeLint.visitOption]
    exact h.visit node

end

end Checking.Hereditary

/-- Whether it fails or not, the step works on the innermost scope only. -/
def Checking.Confined (c : Checking Unit) : Prop :=
  ∀ s : ScopeState, s.scopes ≠ [] → s.Confines (c.run s).2

namespace Checking.Confined

variable {c d : Checking Unit}

theorem seq (hc : Confined c) (hd : Confined d) : Confined (do c; d) := by
  intro s hopen
  have hfirst := hc s hopen
  rw [run_bind]
  cases hrun : c.run s with
  | mk answer t =>
    rw [hrun] at hfirst
    cases answer with
    | error failure => exact hfirst
    | ok => exact hfirst.trans (hd t (hfirst.ne_nil hopen))

theorem declare (name : String) (visibility : Visibility) : Confined (Checking.declare name visibility) := by
  intro s _
  rw [run_declare]
  cases hdeclare : s.declare name visibility with
  | error failure => exact .refl s
  | ok t => exact ScopeState.confines_of_declare hdeclare

theorem refer (name : String) :
    Confined (do if ← Checking.refer name then pure () else report (.undefined name)) := by
  intro s _
  rw [run_bind, run_refer]
  cases hrefer : s.refer? name with
  | none => exact s.confines_report _
  | some found => exact ScopeState.confines_of_refer? hrefer

theorem inScope (description : String) (hc : Confined c) : Confined (Checking.inScope description true c) := by
  intro s _
  obtain ⟨u, hclose, hconfines⟩ := (hc s.push (List.cons_ne_nil _ _)).close
  rw [run_inScope, hclose]
  exact hconfines

theorem hereditary : Hereditary Confined where
  nothing s _ := .refl s
  note _ s _ := .refl s
  declare := declare
  refer := refer
  ruleless _ s _ := .refl s
  seq := seq
  inScope := inScope

end Checking.Confined

/-- A visit disturbs only the innermost of the open scopes, for a node of any kind with nodes of any kinds below it,
whether the visit fails or not. -/
theorem visit_confines (node : Node) {s : ScopeState} (hopen : s.scopes ≠ []) :
    s.Confines ((visit node).run s).2 :=
  Checking.Confined.hereditary.visit node s hopen

/-- A function inside a tuple, with an argument as a statement of its body, where the visit fails. -/
def tupleWithFunction : Node :=
  .tuple .nowhere [.var .nowhere "y", .function .nowhere "f" .priv [.parameter .nowhere "p" none none]
    [.assignment .nowhere (.patName .nowhere "x") (.var .nowhere "u") false none,
      .argument .nowhere (.var .nowhere "v") none] none]

theorem visit_confines_tupleWithFunction :
    let s : ScopeState := ⟨[[⟨"x", .priv, 0⟩], [⟨"y", .pub, 2⟩]], [.undefined "z"]⟩
    let t : ScopeState := ⟨[[⟨"x", .priv, 0⟩, ⟨"f", .priv, 0⟩], [⟨"y", .pub, 3⟩]],
      [.undefined "z", .unused "x", .unused "p"]⟩
    s.scopes ≠ [] ∧ (visit tupleWithFunction).run s = (.error (.noRule "Argument" .nowhere), t) ∧ s.Confines t :=
  ⟨List.cons_ne_nil _ _, rfl, visit_confines tupleWithFunction (List.cons_ne_nil _ _)⟩

end ScopeLint
