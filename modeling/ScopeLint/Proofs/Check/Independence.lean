import Mathlib.Data.Finset.Image
import ScopeLint.Proofs.Check.Resolution
import ScopeLint.Proofs.Scope.Continuation

/-!
# Functions are checked one by one

The functions of a module share one stack of scopes, but a function leaves nothing behind on it except its name.  So a
function behind others finds what it finds by itself, without the errors for their names: what it finds depends on the
names of the functions before it, and on nothing else of them (`Module.check_append_function`).
-/

namespace ScopeLint

open History

/-- Events that close every scope that they open, and no other. -/
inductive Nested : List NameEvent → Prop where
  | nothing : Nested []
  | declare (name : String) {v : List NameEvent} (rest : Nested v) : Nested (.declare name :: v)
  | ref (name : String) {v : List NameEvent} (rest : Nested v) : Nested (.ref name :: v)
  | scope {u v : List NameEvent} (inner : Nested u) (rest : Nested v) : Nested (.opening :: (u ++ .closing :: v))

namespace Nested

variable {u v : List NameEvent}

theorem append (hu : Nested u) (hv : Nested v) : Nested (u ++ v) := by
  induction hu with
  | nothing => exact hv
  | declare name _ ih => exact .declare name ih
  | ref name _ ih => exact .ref name ih
  | scope inner _ _ ih => simpa using inner.scope ih

/-- Nested events leave the scopes open that were open before. -/
theorem openScopes_append (h : Nested v) (w : List NameEvent) : openScopes (w ++ v) = openScopes w := by
  induction h generalizing w with
  | nothing => rw [List.append_nil]
  | declare name _ ih => rw [List.append_cons, ih, openScopes_declare]
  | ref name _ ih => rw [List.append_cons, ih, openScopes_ref]
  | scope _ _ inner rest =>
    rw [List.append_cons, ← List.append_assoc, List.append_cons, rest, openScopes_closing, inner, openScopes_opening,
      List.tail_cons]

theorem declaredIn_snoc_of_ne {w : List NameEvent} {scope : Nat} (hscope : (openScopes w).head? ≠ some scope)
    (e : NameEvent) (name : String) : declaredIn (w ++ [e]) scope name = declaredIn w scope name := by
  have hnot : declares scope name (w, e) = false := by simp [declares, hscope]
  rw [declaredIn_snoc, hnot, Bool.or_false]

/-- Nested events declare names in the innermost scope and in scopes of their own. -/
theorem declaredIn_append (h : Nested v) {w : List NameEvent} {scope : Nat} (hlength : scope ≤ w.length)
    (hscope : (openScopes w).head? ≠ some scope) (name : String) :
    declaredIn (w ++ v) scope name = declaredIn w scope name := by
  induction h generalizing w with
  | nothing => rw [List.append_nil]
  | declare name' _ ih =>
    rw [List.append_cons, ih (by simp; omega) (by rwa [openScopes_declare]), declaredIn_snoc_of_ne hscope]
  | ref name' _ ih =>
    rw [List.append_cons, ih (by simp; omega) (by rwa [openScopes_ref]), declaredIn_snoc_of_ne hscope]
  | @scope u v inner rest ihinner ihrest =>
    -- The scope opened here is younger than the one asked for, so neither it nor its closing declares anything there.
    have hinner : openScopes (w ++ [NameEvent.opening] ++ u) = (w.length + 1) :: openScopes w := by
      rw [inner.openScopes_append, openScopes_opening]
    have hopened : (openScopes (w ++ [NameEvent.opening])).head? ≠ some scope := by
      rw [openScopes_opening, List.head?_cons, ne_eq, Option.some.injEq]
      omega
    have hclosed : (openScopes (w ++ [NameEvent.opening] ++ u)).head? ≠ some scope := by
      rw [inner.openScopes_append]
      exact hopened
    rw [List.append_cons, ← List.append_assoc, List.append_cons,
      ihrest (by simp; omega) (by rwa [openScopes_closing, hinner, List.tail_cons]), declaredIn_snoc_of_ne hclosed,
      ihinner (by simp; omega) hopened, declaredIn_snoc_of_ne hscope]

end Nested

mutual

/-- The events of a node are nested. -/
private theorem nested_events : ∀ node : Node, Nested node.events
  | .assignment _ pattern _ _ _ => nested_events pattern
  | .use _ patterns _ => nested_eventsAll patterns
  | .expression _ inner => nested_events inner
  | .patName _ name => .declare name .nothing
  | .patTuple _ elements => nested_eventsAll elements
  | .patList _ elements tail => (nested_eventsAll elements).append (nested_eventsOption tail)
  | .patAlias _ inner name => (nested_events inner).append (.declare name .nothing)
  | .var _ name => .ref name .nothing
  | .minus _ operand => nested_events operand
  | .not _ operand => nested_events operand
  | .block _ statements => (nested_eventsAll statements).scope .nothing
  | .tuple _ elements => nested_eventsAll elements
  | .patDiscard .. | .patInt .. | .patFloat .. | .patString .. | .patConstructor .. | .int .. | .float .. | .string ..
  | .list .. | .constructor .. | .call .. | .field .. | .binary .. | .choice .. | .lambda .. | .todo .. | .panic ..
  | .argument .. | .clause .. | .parameter .. | .function .. | .importing .. | .wholeModule .. | .unknown .. => .nothing

private theorem nested_eventsAll : ∀ nodes : List Node, Nested (eventsAll nodes)
  | [] => .nothing
  | node :: nodes => (nested_events node).append (nested_eventsAll nodes)

private theorem nested_eventsOption : ∀ node : Option Node, Nested (eventsOption node)
  | none => .nothing
  | some node => nested_events node

end

private theorem nested_parameterEvents (parameters : List Node) : Nested (parameterEvents parameters) := by
  fun_induction parameterEvents parameters with
  | case1 => exact .nothing
  | case2 _ _ _ _ _ _ ih => exact ih
  | case3 _ name _ _ _ _ ih => exact .declare name ih
  | case4 _ _ _ ih => exact ih

/-! ### Functions and their names -/

/-- The name of a function. -/
def Node.functionName? : Node → Option String
  | .function _ name .. => some name
  | _ => none

/-- The names of the functions of a module. -/
def Module.functionNames (m : Module) : Finset String :=
  (m.functions.filterMap Node.functionName?).toFinset

/-- Behind its declaration, a function opens a scope for what it does. -/
theorem nested_function (parameters body : List Node) :
    Nested (parameterEvents parameters ++ .opening :: (eventsAll body ++ [NameEvent.closing])) :=
  (nested_parameterEvents parameters).append ((nested_eventsAll body).scope .nothing)

theorem nested_functionEvents (f : Node) : Nested (functionEvents f) := by
  cases f with
  | function anchor name visibility parameters body ascription =>
    simpa [functionEvents] using Nested.declare name ((nested_function parameters body).scope .nothing)
  | _ => exact .nothing

/-- A function declares nothing but its name in the scope of the module. -/
private theorem declaredIn_functionEvents (f : Node) (name : String) :
    declaredIn (functionEvents f) 0 name = true ↔ f.functionName? = some name := by
  cases f with
  | function anchor own visibility parameters body ascription =>
    have hinner := nested_function parameters body
    have hsplit : functionEvents (.function anchor own visibility parameters body ascription) =
        [NameEvent.declare own, .opening] ++
          (parameterEvents parameters ++ .opening :: (eventsAll body ++ [NameEvent.closing])) ++
          [NameEvent.closing] := by
      simp [functionEvents]
    have hopened : (openScopes [.declare own, .opening]).head? ≠ some 0 := by
      simp [openScopes, moments, momentsFrom, scopesAfter]
    have hclosed : (openScopes ([NameEvent.declare own, .opening] ++
        (parameterEvents parameters ++ .opening :: (eventsAll body ++ [NameEvent.closing])))).head? ≠ some 0 := by
      rw [hinner.openScopes_append]
      exact hopened
    have hfirst : declaredIn [.declare own, .opening] 0 name = true ↔ own = name := by
      simp [declaredIn, moments, momentsFrom, declares, openScopes]
    rw [hsplit, Nested.declaredIn_snoc_of_ne hclosed, hinner.declaredIn_append (Nat.zero_le _) hopened, hfirst,
      Node.functionName?, Option.some.injEq]
  | _ => simp [functionEvents, Node.functionName?, declaredIn, moments, momentsFrom]

/-- Behind a function, only the scope of the module is open. -/
private theorem openScopes_functionEvents (f : Node) : openScopes (functionEvents f) = [0] :=
  (nested_functionEvents f).openScopes_append []

/-- Behind the functions of a module, only its own scope is open. -/
theorem Module.openScopes_events (m : Module) : openScopes m.events = [0] := by
  have hnested : Nested m.events := by
    unfold Module.events
    induction m.functions with
    | nil => exact .nothing
    | cons f fs ih => exact (nested_functionEvents f).append ih
  exact hnested.openScopes_append []

/-- The functions of a module declare nothing but their names in its scope. -/
private theorem declaredIn_flatMap (fs : List Node) (name : String) :
    declaredIn (fs.flatMap functionEvents) 0 name = true ↔ some name ∈ fs.map Node.functionName? := by
  induction fs with
  | nil => simp [declaredIn, moments, momentsFrom]
  | cons f fs ih =>
    have happend : declaredIn (functionEvents f ++ fs.flatMap functionEvents) 0 name =
        (declaredIn (functionEvents f) 0 name || declaredIn (fs.flatMap functionEvents) 0 name) :=
      declaredIn_append (openScopes_functionEvents f) _ 0 name
    rw [List.flatMap_cons, happend, Bool.or_eq_true, declaredIn_functionEvents, ih, List.map_cons, List.mem_cons, eq_comm]

theorem Module.mem_functionNames (m : Module) (name : String) :
    name ∈ m.functionNames ↔ declaredIn m.events 0 name = true := by
  rw [Module.events, declaredIn_flatMap, functionNames, List.mem_toFinset, List.mem_filterMap, List.mem_map]

/-! ### One function behind others -/

theorem Diagnostic.knowing_insert (name : String) (known : Finset String) (ds : List Diagnostic) :
    knowing (insert name known) ds = (knowing known ds).filter (· ≠ .undefined name) := by
  simp [knowing, List.filter_filter]

/-- What a check finds in a function behind others depends on it and on the names of the others only: the function adds
to what is found in the others alone, and one more name takes away the errors for this name and nothing else. -/
theorem Module.check_append_function {f : Node} (hf : f.isRegularFunction = true) :
    ∃ own : Finset String → List Diagnostic,
      (∀ m : Module, (∀ g ∈ m.functions, g.isRegularFunction = true) →
        ∃ found, m.check.value = .ok found ∧
          ({ m with functions := m.functions ++ [f] } : Module).check.value = .ok (found ++ own m.functionNames)) ∧
      ∀ name known, own (insert name known) = (own known).filter (· ≠ .undefined name) := by
  refine ⟨fun known => Diagnostic.knowing known (findings (functionEvents f)), fun m hm => ?_, fun name known =>
    Diagnostic.knowing_insert name known _⟩
  have hbehind : ∀ g ∈ m.functions ++ [f], g.isRegularFunction = true := by
    simpa [or_imp, forall_and] using ⟨hm, hf⟩
  have hevents : ({ m with functions := m.functions ++ [f] } : Module).events = m.events ++ functionEvents f := by
    simp [Module.events]
  have hopen : 0 ∈ openScopes (functionEvents f) := by simp [openScopes_functionEvents]
  have hfindings := findings_append m.openScopes_events m.mem_functionNames hopen
  refine ⟨findings m.events, by rw [Module.check_value, Checker.run_fresh hm], ?_⟩
  rw [Module.check_value, Checker.run_fresh hbehind, hevents, hfindings]

/-- A function that refers to two names from outside and binds one that it does not use. -/
def referringFunction : Node :=
  .function .nowhere "f" .pub []
    [.expression .nowhere (.tuple .nowhere [.var .nowhere "g", .var .nowhere "h"]),
     .assignment .nowhere (.patName .nowhere "x") (.int .nowhere "1") false none] none

/-- Two functions of one name.  The first one has a parameter, and refers to a function that is not there. -/
def sameNameModule : Module :=
  ⟨.nowhere,
    [.function .nowhere "g" .pub [.parameter .nowhere "h" none none] [.expression .nowhere (.var .nowhere "f")] none,
     .function .nowhere "g" .priv [] [] none],
    []⟩

/-- The name of the functions before is known to a function behind them, and the name of a parameter is not. -/
theorem check_sameNameModule :
    referringFunction.isRegularFunction = true ∧ (∀ g ∈ sameNameModule.functions, g.isRegularFunction = true) ∧
      sameNameModule.check.value = .ok [.undefined "f", .unused "h"] ∧
      ({ sameNameModule with functions := sameNameModule.functions ++ [referringFunction] } : Module).check.value =
        .ok ([.undefined "f", .unused "h"] ++ [.undefined "h", .unused "x"]) := by
  have hregular : referringFunction.isRegularFunction = true := by decide
  have hmodule : ∀ g ∈ sameNameModule.functions, g.isRegularFunction = true := by decide
  obtain ⟨own, hbehind, hinsert⟩ := Module.check_append_function hregular
  obtain ⟨found, hfound, happend⟩ := hbehind sameNameModule hmodule
  obtain ⟨nothing, hnothing, halone⟩ := hbehind ⟨.nowhere, [], []⟩ (by decide)
  have hown : own ∅ = [.undefined "g", .undefined "h", .unused "x"] := by
    obtain rfl : [] = nothing := Except.ok.inj hnothing
    exact (Except.ok.inj halone).symm
  have hnames : sameNameModule.functionNames = insert "g" ∅ := by decide
  have hknown : own sameNameModule.functionNames = [.undefined "h", .unused "x"] := by
    rw [hnames, hinsert, hown]
    decide
  have hbefore : sameNameModule.check.value = .ok [.undefined "f", .unused "h"] := rfl
  rw [hbefore] at hfound
  rw [hknown, ← Except.ok.inj hfound] at happend
  exact ⟨hregular, hmodule, hbefore, happend⟩

end ScopeLint
