import ScopeLint.Proofs.Check.Unwinding
import ScopeLint.Proofs.Scope.EventSteps
import ScopeLint.Proofs.Tree.Standing

/-!
# The check resolves names by their history

The events of a module are what it does with names, read off the tree: which names it declares, which it refers to,
and where scopes are opened and closed.  A check finds exactly what these events say (`check_eq_findings`): its stack
of scopes with their counts is a way to answer, event by event, the questions that a history answers by looking back.

The way of a check through a regular tree has no node without a rule on it, and its steps tell the events of the tree
one by one (`visits_of_regular`).  So the events say what the history of the steps says.
-/

namespace ScopeLint

open History Checking Visit

mutual

/-- What a node does with names.  The value behind a binding statement does nothing, and neither do the kinds that the
check skips. -/
def Node.events : Node → List NameEvent
  | .assignment _ pattern _ _ _ => pattern.events
  | .use _ patterns _ => eventsAll patterns
  | .expression _ inner => inner.events
  | .patName _ name => [.declare name]
  | .patTuple _ elements => eventsAll elements
  | .patList _ elements tail => eventsAll elements ++ eventsOption tail
  | .patAlias _ inner name => inner.events ++ [.declare name]
  | .var _ name => [.ref name]
  | .minus _ operand => operand.events
  | .not _ operand => operand.events
  | .block _ statements => .opening :: (eventsAll statements ++ [.closing])
  | .tuple _ elements => eventsAll elements
  | _ => []

/-- What nodes do with names, in order. -/
def eventsAll : List Node → List NameEvent
  | [] => []
  | node :: nodes => node.events ++ eventsAll nodes

/-- What the node that there may be does with names. -/
def eventsOption : Option Node → List NameEvent
  | none => []
  | some node => node.events

end

/-- The declarations of parameters, those left out that are discarded. -/
def parameterEvents : List Node → List NameEvent
  | [] => []
  | .parameter _ name _ _ :: rest =>
    if isDiscarded name then parameterEvents rest else .declare name :: parameterEvents rest
  | _ :: rest => parameterEvents rest

/-- What a function does with names: it is declared, its parameters are declared in a scope, and its body has a scope
inside that one. -/
def functionEvents : Node → List NameEvent
  | .function _ name _ parameters body _ =>
    .declare name :: .opening :: (parameterEvents parameters ++ .opening :: (eventsAll body ++ [.closing, .closing]))
  | _ => []

/-- What a module does with names. -/
def Module.events (m : Module) : List NameEvent :=
  m.functions.flatMap functionEvents

mutual

/-- The node is a statement, a pattern or an expression, and so is every node below it that the check looks at. -/
def Node.isRegular : Node → Bool
  | .assignment _ pattern _ _ _ => pattern.isRegular
  | .use _ patterns _ => areRegular patterns
  | .expression _ inner => inner.isRegular
  | .patTuple _ elements => areRegular elements
  | .patList _ elements tail => areRegular elements && isRegularOption tail
  | .patAlias _ inner _ => inner.isRegular
  | .minus _ operand => operand.isRegular
  | .not _ operand => operand.isRegular
  | .block _ statements => areRegular statements
  | .tuple _ elements => areRegular elements
  | .argument .. | .clause .. | .parameter .. | .function .. | .importing .. | .wholeModule .. | .unknown .. => false
  | _ => true

/-- All nodes are regular. -/
def areRegular : List Node → Bool
  | [] => true
  | node :: nodes => node.isRegular && areRegular nodes

/-- The node is regular if there is one. -/
def isRegularOption : Option Node → Bool
  | none => true
  | some node => node.isRegular

end

/-- A function with parameters for parameters, whose body is made of statements, patterns and expressions. -/
def Node.isRegularFunction : Node → Bool
  | .function _ _ _ parameters body _ => parameters.all Node.isParameter && areRegular body
  | _ => false

/-! ### Steps that tell the events of a tree -/

/-- The step that tells an event.  No name that it declares is seen from outside. -/
def NameEvent.step : NameEvent → ScopeStep
  | declare name => .declare name .priv
  | ref name => .refer name
  | opening => .enter true
  | closing => .leave

/-- The visit on which an event is told. -/
def NameEvent.visit (e : NameEvent) : Visit :=
  .did e.step

mutual

/-- On the way through a regular node its events are told, and nothing else happens. -/
private theorem visits_of_regular : ∀ node : Node, node.isRegular = true →
    node.visits = node.events.map NameEvent.visit
  | .assignment _ pattern _ _ _, h => visits_of_regular pattern h
  | .use _ patterns _, h => visitsAll_of_regular patterns h
  | .expression _ inner, h => visits_of_regular inner h
  | .patName .., _ => rfl
  | .patTuple _ elements, h => visitsAll_of_regular elements h
  | .patList _ elements tail, h => by
    obtain ⟨helements, htail⟩ := Bool.and_eq_true_iff.mp h
    rw [Node.visits, Node.events, visitsAll_of_regular elements helements, visitsOption_of_regular tail htail,
      List.map_append]
  | .patAlias _ inner name, h => by
    rw [Node.visits, Node.events, visits_of_regular inner h, List.map_append]
    rfl
  | .var .., _ => rfl
  | .minus _ operand, h => visits_of_regular operand h
  | .not _ operand, h => visits_of_regular operand h
  | .block _ statements, h => by
    rw [Node.visits, Node.events, visitsAll_of_regular statements h, List.map_cons, List.map_append]
    rfl
  | .tuple _ elements, h => visitsAll_of_regular elements h
  | .patDiscard .., _ | .patInt .., _ | .patFloat .., _ | .patString .., _ | .patConstructor .., _ | .int .., _
  | .float .., _ | .string .., _ | .list .., _ | .constructor .., _ | .call .., _ | .field .., _ | .binary .., _
  | .choice .., _ | .lambda .., _ | .todo .., _ | .panic .., _ => rfl

private theorem visitsAll_of_regular : ∀ nodes : List Node, areRegular nodes = true →
    visitsAll nodes = (eventsAll nodes).map NameEvent.visit
  | [], _ => rfl
  | node :: nodes, h => by
    obtain ⟨hnode, hnodes⟩ := Bool.and_eq_true_iff.mp h
    rw [visitsAll, eventsAll, visits_of_regular node hnode, visitsAll_of_regular nodes hnodes, List.map_append]

private theorem visitsOption_of_regular : ∀ node : Option Node, isRegularOption node = true →
    visitsOption node = (eventsOption node).map NameEvent.visit
  | none, _ => rfl
  | some node, h => visits_of_regular node h

end

private theorem parameterVisits_eq (parameters : List Node) :
    parameterVisits parameters = (parameterEvents parameters).map NameEvent.visit := by
  fun_induction parameterEvents parameters with
  | case1 => rfl
  | case2 _ name _ _ rest hd ih => rw [parameterVisits, if_pos hd, ih]
  | case3 _ name _ _ rest hd ih =>
    rw [parameterVisits, if_neg hd, ih]
    rfl
  | case4 node rest hnot ih =>
    rw [parameterVisits]
    · exact ih
    · exact hnot

namespace StepHistory

variable {v : List ScopeStep} {w : List NameEvent}

theorem tellsNext_step (w : List NameEvent) (e : NameEvent) : TellsNext w e.step e := by
  cases e with
  | declare name => exact .declare name .priv (.inl rfl)
  | ref name => exact .refer name
  | opening => exact .enter
  | closing => exact .leave

/-- Events that are told one by one have been told behind those before. -/
theorem Tells.walked (h : Tells v w) (es : List NameEvent) :
    Tells (Visit.walked v (es.map NameEvent.visit)) (w ++ es) := by
  induction es generalizing v w with
  | nil => rwa [List.append_nil]
  | cons e es ih =>
    rw [List.append_cons]
    exact ih (h.snoc (tellsNext_step w e))

/-- While the scope of the module is open, the steps find what the events say. -/
theorem Tells.findings_eq (h : Tells v w) (hmodule : 0 ∈ History.openScopes w) : findings v = History.findings w := by
  induction h with
  | start => rfl
  | @snoc v w step e past next ih =>
    rw [findings, findings_snoc, ih (zero_mem_of_snoc hmodule)]
    congr 1
    cases next with
    | declare name visibility within => rfl
    | refer name =>
      rw [findingsAt, History.findingsAt, past.resolve_eq]
      simp only [Option.isNone_iff_eq_none]
    | enter => rfl
    | leave =>
      cases hopen : History.openScopes w with
      | nil => simp [hopen] at hmodule
      | cons scope outer =>
        have hscope := ne_zero_of_closing hmodule hopen
        simp [findingsAt, reports, History.findingsAt, past.scopes_eq, hopen, hscope, past.unusedNames_eq hscope]

end StepHistory

theorem firstRuleless?_told (es : List NameEvent) : firstRuleless? (es.map NameEvent.visit) = none := by
  induction es with
  | nil => rfl
  | cons e es ih => exact ih

/-- On the way through a function it is declared as it is seen from outside.  Then its other events are told. -/
private theorem visits_function {f : Node} (hf : f.isRegularFunction = true) :
    ∃ name visibility es, functionEvents f = .declare name :: es ∧
      f.visits = .did (.declare name visibility) :: es.map NameEvent.visit := by
  cases f with
  | function anchor name visibility parameters body ascription =>
    have hbody := visitsAll_of_regular body (Bool.and_eq_true_iff.mp hf).2
    refine ⟨name, visibility, _, rfl, ?_⟩
    simp [Node.visits, parameterVisits_eq, hbody, NameEvent.visit, NameEvent.step]
  | _ => cases hf

/-- On the way through a function that is visited in the scope of the module its events are told, and the scope of the
module is left open. -/
private theorem tells_function {f : Node} (hf : f.isRegularFunction = true) {v : List ScopeStep} {w : List NameEvent}
    (h : StepHistory.Tells v w) (hopen : openScopes w = [0]) :
    firstRuleless? f.visits = none ∧ StepHistory.Tells (walked v f.visits) (w ++ functionEvents f) ∧
      openScopes (w ++ functionEvents f) = [0] := by
  obtain ⟨name, visibility, es, hevents, hvisits⟩ := visits_function hf
  have hnone : firstRuleless? f.visits = none := by
    rw [hvisits]
    exact firstRuleless?_told es
  have htells : StepHistory.Tells (walked v f.visits) (w ++ functionEvents f) := by
    have hdeclared := h.snoc (.declare name visibility (.inr hopen))
    rw [hvisits, walked, hevents, List.append_cons]
    exact hdeclared.walked es
  have hstays : StepHistory.openScopes (walked v f.visits) = StepHistory.openScopes v := by
    have hv : StepHistory.openScopes v ≠ [] := by simp [h.openScopes_eq, hopen]
    exact ((visit_traces f).finishes hnone v hv).2.1
  refine ⟨hnone, htells, ?_⟩
  rw [← htells.openScopes_eq, hstays, h.openScopes_eq, hopen]

private theorem tells_functions {fs : List Node} (hfs : ∀ f ∈ fs, f.isRegularFunction = true) {v : List ScopeStep}
    {w : List NameEvent} (h : StepHistory.Tells v w) (hopen : openScopes w = [0]) :
    firstRuleless? (visitsAll fs) = none ∧
      StepHistory.Tells (walked v (visitsAll fs)) (w ++ fs.flatMap functionEvents) ∧
      openScopes (w ++ fs.flatMap functionEvents) = [0] := by
  induction fs generalizing v w with
  | nil =>
    rw [List.flatMap_nil, List.append_nil]
    exact ⟨rfl, h, hopen⟩
  | cons f fs ih =>
    obtain ⟨hnone, htells, hopen'⟩ := tells_function (hfs f List.mem_cons_self) h hopen
    obtain ⟨hnone', htells', hopen''⟩ := ih (fun g hg => hfs g (List.mem_cons_of_mem _ hg)) htells hopen'
    rw [visitsAll, List.flatMap_cons, ← List.append_assoc, walked_append_of_none hnone, firstRuleless?_append, hnone]
    exact ⟨hnone', htells', hopen''⟩

/-- A fresh checker that is run on a module whose functions are made of statements, patterns and expressions finds what
the events of the module say, in their order, and has no scope open at the end. -/
theorem Checker.run_fresh {m : Module} (hm : ∀ f ∈ m.functions, f.isRegularFunction = true) :
    (Checker.fresh.run m).value = (.ok (findings m.events), ⟨⟨[], findings m.events⟩, true⟩) := by
  obtain ⟨hnone, htells, hopen⟩ := tells_functions hm .start rfl
  rw [List.nil_append, ← Module.events] at htells hopen
  have hfirst : firstRuleless? m.visits = none := m.firstRuleless?_visits.trans hnone
  have hmodule : 0 ∈ openScopes m.events := hopen ▸ List.mem_cons_self
  -- Nothing is found at the last step, since it leaves the scope of the module.
  have hfindings : StepHistory.findings m.history = findings m.events := by
    rw [Module.history_of_none hfirst, StepHistory.findings, htells.findings_eq hmodule]
    simp [StepHistory.findingsAt, StepHistory.reports, htells.scopes_eq, hopen]
  have hvalue : (Checker.fresh.run m).value =
      (((visitModule m).run .initial).1, ⟨((visitModule m).run .initial).2, true⟩) := rfl
  rw [hvalue, visitModule_finishes hfirst, hfindings]

/-- The check of a module is the run of a fresh checker. -/
theorem Module.check_value (m : Module) : m.check.value = (Checker.fresh.run m).value.1 :=
  rfl

/-- A check of a module whose functions are made of statements, patterns and expressions finds what the events of the
module say, in their order. -/
theorem check_eq_findings (m : Module) (hm : ∀ f ∈ m.functions, f.isRegularFunction = true) :
    m.check.value = .ok (findings m.events) := by
  rw [Module.check_value, Checker.run_fresh hm]

/-- A private function with two parameters.  Its body binds the first one anew, refers to it, refers to the second one
from a block that binds another name, refers to that name behind the block, and binds the first parameter once more. -/
def shadowingModule : Module :=
  ⟨.nowhere,
    [.function .nowhere "f" .priv [.parameter .nowhere "x" none none, .parameter .nowhere "y" none none]
      [.assignment .nowhere (.patTuple .nowhere [.patName .nowhere "x", .patDiscard .nowhere "_"]) (.int .nowhere "1")
        false none,
       .expression .nowhere (.minus .nowhere (.var .nowhere "x")),
       .expression .nowhere (.block .nowhere [.expression .nowhere (.tuple .nowhere [.var .nowhere "y"]),
         .use .nowhere [.patName .nowhere "z"] (.var .nowhere "unseen")]),
       .expression .nowhere (.var .nowhere "z"),
       .assignment .nowhere (.patAlias .nowhere (.patInt .nowhere "1") "x") (.int .nowhere "2") false none] none],
    []⟩

theorem check_shadowingModule :
    (∀ f ∈ shadowingModule.functions, f.isRegularFunction = true) ∧
      shadowingModule.check.value = .ok [.unused "z", .undefined "z", .unused "x", .unused "x"] := by
  have hregular : ∀ f ∈ shadowingModule.functions, f.isRegularFunction = true := by decide
  refine ⟨hregular, (check_eq_findings shadowingModule hregular).trans (congrArg Except.ok ?_)⟩
  decide

end ScopeLint
