import ScopeLint.Check.Visit
import ScopeLint.Proofs.Scope.SessionHistory

/-!
# Checks of arbitrary trees

A tree that was made by hand may have any node in any place.  The visits of such a tree are the steps that its check
takes, in their order, and the nodes on the way that have no rule.  The check fails if and only if there is such a
node, with the first one, and in no other way (`Checker.run_fresh_visits`).

A failure leaves each scope that is open by then, so what is found before the failure is followed by the unused names
of these scopes.  The scopes to be left are those that were opened since (`Checking.Traces.fails`), and no step of the
history tells of their leaving: their names do not change any more.
-/

namespace ScopeLint

open StepHistory Checking

/-- Something that happens on the way through a tree. -/
inductive Visit where
  /-- A step with scopes and names. -/
  | did (step : ScopeStep)
  /-- A node without a rule. -/
  | ruleless (node : Node)

/-- The declarations of parameters, those left out that are discarded. -/
def parameterVisits : List Node → List Visit
  | [] => []
  | .parameter _ name _ _ :: rest =>
    if isDiscarded name then parameterVisits rest else .did (.declare name .priv) :: parameterVisits rest
  | _ :: rest => parameterVisits rest

mutual

/-- What happens on the way through a node. -/
def Node.visits (node : Node) : List Visit :=
  match node with
  | .function _ name visibility parameters body _ =>
    .did (.declare name visibility) :: .did (.enter true) ::
      (parameterVisits parameters ++ .did (.enter true) :: (visitsAll body ++ [.did .leave]) ++ [.did .leave])
  | .assignment _ pattern _ _ _ => pattern.visits
  | .use _ patterns _ => visitsAll patterns
  | .expression _ inner => inner.visits
  | .patName _ name => [.did (.declare name .priv)]
  | .patTuple _ elements => visitsAll elements
  | .patList _ elements tail => visitsAll elements ++ visitsOption tail
  | .patAlias _ inner name => inner.visits ++ [.did (.declare name .priv)]
  | .var _ name => [.did (.refer name)]
  | .minus _ operand => operand.visits
  | .not _ operand => operand.visits
  | .block _ statements => .did (.enter true) :: (visitsAll statements ++ [.did .leave])
  | .tuple _ elements => visitsAll elements
  | .patDiscard .. | .patInt .. | .patFloat .. | .patString .. | .patConstructor .. | .int .. | .float .. | .string ..
  | .list .. | .constructor .. | .call .. | .field .. | .binary .. | .choice .. | .lambda .. | .todo .. | .panic .. => []
  | .argument .. | .clause .. | .parameter .. | .importing .. | .wholeModule .. | .unknown .. => [.ruleless node]

/-- What happens on the way through nodes, in order. -/
def visitsAll : List Node → List Visit
  | [] => []
  | node :: nodes => node.visits ++ visitsAll nodes

/-- What happens on the way through the node that there may be. -/
def visitsOption : Option Node → List Visit
  | none => []
  | some node => node.visits

end

/-- What happens on the way through a module. -/
def Module.visits (m : Module) : List Visit :=
  .did (.enter false) :: (visitsAll m.functions ++ [.did .leave])

namespace Visit

/-- The first node without a rule. -/
def firstRuleless? : List Visit → Option Node
  | [] => none
  | .did _ :: visits => firstRuleless? visits
  | .ruleless node :: _ => some node

/-- A history that goes on with the steps before the first node without a rule. -/
def walked (w : List ScopeStep) : List Visit → List ScopeStep
  | [] => w
  | .did s :: visits => walked (s :: w) visits
  | .ruleless _ :: _ => w

variable {us vs : List Visit}

theorem firstRuleless?_append (us vs : List Visit) :
    firstRuleless? (us ++ vs) = (firstRuleless? us).or (firstRuleless? vs) := by
  induction us with
  | nil => rfl
  | cons u us ih =>
    cases u with
    | did s => exact ih
    | ruleless node => rfl

/-- The steps are done behind those that were done before. -/
theorem walked_eq_append (w : List ScopeStep) (vs : List Visit) : walked w vs = walked [] vs ++ w := by
  induction vs generalizing w with
  | nil => rfl
  | cons v vs ih =>
    cases v with
    | did s => rw [walked, walked, ih (s :: w), ih [s], List.append_assoc, List.singleton_append]
    | ruleless node => rfl

theorem firstRuleless?_isSome_iff : (firstRuleless? vs).isSome = true ↔ ∃ node, .ruleless node ∈ vs := by
  induction vs with
  | nil => simp [firstRuleless?]
  | cons v vs ih =>
    cases v with
    | did s => simpa [firstRuleless?] using ih
    | ruleless node => simp [firstRuleless?]

theorem walked_append_of_none (h : firstRuleless? us = none) (w : List ScopeStep) :
    walked w (us ++ vs) = walked (walked w us) vs := by
  induction us generalizing w with
  | nil => rfl
  | cons u us ih =>
    cases u with
    | did s => exact ih h (s :: w)
    | ruleless node => cases h

theorem walked_append_of_some {node : Node} (h : firstRuleless? us = some node) (w : List ScopeStep) :
    walked w (us ++ vs) = walked w us := by
  induction us generalizing w with
  | nil => cases h
  | cons u us ih =>
    cases u with
    | did s => exact ih h (s :: w)
    | ruleless node => rfl

end Visit

open Visit

/-- What a check finds at a step, with the steps before it. -/
def StepHistory.findingsAt (past : List ScopeStep) : ScopeStep → List Diagnostic
  | .refer name => if resolve past name = none then [.undefined name] else []
  | step => reports past step

/-- What a check finds at the steps of a history, in their order. -/
def StepHistory.findings : List ScopeStep → List Diagnostic
  | [] => []
  | step :: past => findings past ++ findingsAt past step

/-- The state of a check that has a history. -/
def StepHistory.checked (w : List ScopeStep) : ScopeState :=
  ⟨scopes w, findings w⟩

/-- The state of a check with a history that has failed and has left some of its scopes. -/
def StepHistory.unwound (w : List ScopeStep) (inner outer : List Nat) : ScopeState :=
  ⟨outer.map (bindings w), findings w ++ (inner.flatMap (unusedNames w)).map .unused⟩

namespace StepHistory

variable {w : List ScopeStep} {k : Nat} {ks inner : List Nat}

theorem push_checked (flag : Bool) (w : List ScopeStep) : (checked w).push = checked (.enter flag :: w) := by
  simp [checked, ScopeState.push, scopes_enter, findings, findingsAt, reports]

theorem close_checked {flag : Bool} {flags : List Bool} (hopen : openScopes w = k :: ks)
    (hpending : pending w = flag :: flags) : (checked w).close flag = .ok (checked (.leave :: w)) := by
  have hscopes : scopes (.leave :: w) = (scopes w).tail := by simp [scopes_leave, hpending]
  rw [checked, close_of_cons _ hopen, checked, hscopes]
  cases flag <;> simp [findings, findingsAt, reports, hopen, hpending]

/-- Leaving one more scope after a failure. -/
theorem close_unwound (w : List ScopeStep) (inner : List Nat) (k : Nat) (ks : List Nat) :
    (unwound w inner (k :: ks)).close true = .ok (unwound w (inner ++ [k]) ks) := by
  simp [ScopeState.close, ScopeState.pop, unwound, Except.map, ScopeState.reportUnused, unusedNames_bindings]

end StepHistory

/-- A step of a check takes the steps of some visits, up to the first node without a rule.  If there is none, then the
scopes that were open before are open again; else the step fails there, and leaves the scopes that it has opened. -/
structure Checking.Traces (c : Checking Unit) (visits : List Visit) : Prop where
  finishes : firstRuleless? visits = none → ∀ w, openScopes w ≠ [] →
    c.run (checked w) = (.ok (), checked (walked w visits)) ∧
      openScopes (walked w visits) = openScopes w ∧ pending (walked w visits) = pending w
  fails : ∀ node, firstRuleless? visits = some node → ∀ w, openScopes w ≠ [] →
    ∃ inner, openScopes (walked w visits) = inner ++ openScopes w ∧
      c.run (checked w) = (.error (.noRule node.kind node.anchor), unwound (walked w visits) inner (openScopes w))

namespace Checking.Traces

variable {c d : Checking Unit} {us vs : List Visit}

private theorem nothing : Traces (pure ()) [] :=
  ⟨fun _ _ _ => ⟨rfl, rfl, rfl⟩, fun _ h => nomatch h⟩

private theorem note (event : CheckEvent) : Traces (Checking.note event) [] :=
  ⟨fun _ _ _ => ⟨rfl, rfl, rfl⟩, fun _ h => nomatch h⟩

private theorem seq (hc : Traces c us) (hd : Traces d vs) : Traces (do c; d) (us ++ vs) := by
  constructor
  · intro h w hopen
    rw [firstRuleless?_append, Option.or_eq_none_iff] at h
    obtain ⟨hrun, hsame, hpending⟩ := hc.finishes h.1 w hopen
    obtain ⟨hrun', hsame', hpending'⟩ := hd.finishes h.2 (walked w us) (hsame ▸ hopen)
    rw [walked_append_of_none h.1, run_bind, hrun]
    exact ⟨hrun', hsame'.trans hsame, hpending'.trans hpending⟩
  · intro node h w hopen
    rw [firstRuleless?_append, Option.or_eq_some_iff] at h
    rcases h with h | ⟨hnone, h⟩
    · obtain ⟨inner, hinner, hrun⟩ := hc.fails node h w hopen
      rw [walked_append_of_some h, run_bind, hrun]
      exact ⟨inner, hinner, rfl⟩
    · obtain ⟨hrun, hsame, -⟩ := hc.finishes hnone w hopen
      obtain ⟨inner, hinner, hrun'⟩ := hd.fails node h (walked w us) (hsame ▸ hopen)
      rw [hsame] at hinner hrun'
      rw [walked_append_of_none hnone, run_bind, hrun]
      exact ⟨inner, hinner, hrun'⟩

private theorem noted (event : CheckEvent) (hc : Traces c vs) : Traces (do Checking.note event; c) vs :=
  .seq (.note event) hc

private theorem ruleless (node : Node) : Traces (fail (.noRule node.kind node.anchor)) [.ruleless node] := by
  refine ⟨fun h => (nomatch h), fun node' h w _ => ?_⟩
  obtain rfl : node = node' := Option.some.inj h
  refine ⟨[], rfl, ?_⟩
  rw [run_fail]
  simp [checked, unwound, walked, scopes]

private theorem declare (name : String) (visibility : Visibility) :
    Traces (Checking.declare name visibility) [.did (.declare name visibility)] := by
  refine ⟨fun _ w hopen => ⟨?_, rfl, rfl⟩, fun _ h => nomatch h⟩
  obtain ⟨k, ks, hks⟩ := List.exists_cons_of_ne_nil hopen
  rw [run_declare, checked, declare_of_cons _ hks]
  simp [checked, walked, findings, findingsAt, reports]

private theorem refer (name : String) :
    Traces (do if ← Checking.refer name then pure () else report (.undefined name)) [.did (.refer name)] := by
  refine ⟨fun _ w hopen => ⟨?_, rfl, rfl⟩, fun _ h => nomatch h⟩
  rw [run_bind, run_refer, checked]
  cases hmeans : resolve w name with
  | none =>
    rw [refer?_none _ hmeans]
    simp [checked, walked, findings, findingsAt, hmeans, scopes_refer_none hmeans, ScopeState.report]
  | some k =>
    obtain ⟨found, hfound⟩ := refer?_some (findings w) hmeans
    rw [hfound]
    simp [checked, walked, findings, findingsAt, hmeans]

/-- A step in a scope of its own, if it does not fail. -/
theorem run_inScope {flag : Bool} {w v : List ScopeStep} (description : String)
    (hrun : c.run (checked (.enter flag :: w)) = (.ok (), checked v)) (hopen : openScopes v = w.length :: openScopes w)
    (hpending : pending v = flag :: pending w) :
    (Checking.inScope description flag c).run (checked w) = (.ok (), checked (.leave :: v)) := by
  rw [Checking.run_inScope, push_checked flag, hrun, close_checked hopen hpending]

private theorem inScope (description : String) (hc : Traces c vs) :
    Traces (Checking.inScope description true c) (.did (.enter true) :: (vs ++ [.did .leave])) := by
  have hfirst : firstRuleless? (.did (.enter true) :: (vs ++ [.did .leave])) = firstRuleless? vs := by
    rw [firstRuleless?, firstRuleless?_append]
    exact Option.or_none
  constructor
  · intro h w _
    rw [hfirst] at h
    obtain ⟨hrun, hopen, hpending⟩ := hc.finishes h (.enter true :: w) (List.cons_ne_nil _ _)
    rw [walked, walked_append_of_none h]
    refine ⟨run_inScope description hrun hopen hpending, ?_, ?_⟩
    · simp [walked, openScopes, hopen, hpending, pending]
    · simp [walked, hpending, pending]
  · intro node h w _
    rw [hfirst] at h
    obtain ⟨inner, hinner, hrun⟩ := hc.fails node h (.enter true :: w) (List.cons_ne_nil _ _)
    rw [walked, walked_append_of_some h]
    refine ⟨inner ++ [w.length], by simpa [openScopes] using hinner, ?_⟩
    rw [Checking.run_inScope, push_checked true, hrun]
    simp only [openScopes, close_unwound]

end Checking.Traces

private theorem declareParameters_traces (parameters : List Node) :
    Traces (declareParameters parameters) (parameterVisits parameters) := by
  fun_induction parameterVisits parameters with
  | case1 =>
    rw [declareParameters]
    exact .nothing
  | case2 _ name _ _ rest hd ih =>
    rw [declareParameters, if_pos hd]
    exact .noted _ ih
  | case3 _ name _ _ rest hd ih =>
    rw [declareParameters, if_neg hd]
    exact .seq (.declare name .priv) ih
  | case4 node rest hnot ih =>
    rw [declareParameters]
    · exact ih
    · exact hnot

mutual

/-- The visit of a node traces the visits that are read off the node. -/
theorem visit_traces : ∀ node : Node, Traces (visit node) node.visits
  | .function _ name visibility parameters body _ => by
    rw [visit, Node.visits]
    refine .noted _ (.noted _ (.seq (.declare name visibility) ?_))
    have hbody := Traces.inScope ("body of " ++ name) (visitAll_traces body)
    have hparameters := Traces.inScope ("parameters of " ++ name) (.seq (declareParameters_traces parameters) hbody)
    simpa using hparameters.seq (.note (.functionFinished name))
  | .assignment _ pattern _ _ _ => by
    rw [visit]
    exact .noted _ (visit_traces pattern)
  | .use _ patterns _ => by
    rw [visit]
    exact .noted _ (visitAll_traces patterns)
  | .expression _ inner => by
    rw [visit]
    exact .noted _ (visit_traces inner)
  | .patName _ name => by
    rw [visit]
    exact .noted _ (.declare name .priv)
  | .patTuple _ elements => by
    rw [visit]
    exact .noted _ (visitAll_traces elements)
  | .patList _ elements tail => by
    rw [visit]
    exact .noted _ (.seq (visitAll_traces elements) (visitOption_traces tail))
  | .patAlias _ inner name => by
    rw [visit]
    exact .noted _ (.seq (visit_traces inner) (.declare name .priv))
  | .var _ name => by
    rw [visit]
    exact .noted _ (.refer name)
  | .minus _ operand => by
    rw [visit]
    exact .noted _ (visit_traces operand)
  | .not _ operand => by
    rw [visit]
    exact .noted _ (visit_traces operand)
  | .block _ statements => by
    rw [visit]
    exact .noted _ (.inScope _ (visitAll_traces statements))
  | .tuple _ elements => by
    rw [visit]
    exact .noted _ (visitAll_traces elements)
  | .patDiscard .. | .patInt .. | .patFloat .. | .patString .. | .patConstructor .. | .int .. | .float .. | .string ..
  | .list .. | .constructor .. | .call .. | .field .. | .binary .. | .choice .. | .lambda .. | .todo .. | .panic .. => by
    rw [visit]
    exact .noted _ (.note _)
  | .argument .. | .clause .. | .parameter .. | .importing .. | .wholeModule .. | .unknown .. => by
    rw [visit]
    exact .noted _ (.ruleless _)

theorem visitAll_traces : ∀ nodes : List Node, Traces (visitAll nodes) (visitsAll nodes)
  | [] => by
    rw [visitAll]
    exact .nothing
  | node :: nodes => by
    rw [visitAll]
    exact .seq (visit_traces node) (visitAll_traces nodes)

theorem visitOption_traces : ∀ node : Option Node, Traces (visitOption node) (visitsOption node)
  | none => by
    rw [visitOption]
    exact .nothing
  | some node => by
    rw [visitOption]
    exact visit_traces node

end

/-- The steps that the check of a module takes before the first node without a rule, the latest first. -/
def Module.history (m : Module) : List ScopeStep :=
  walked [] m.visits

theorem Module.firstRuleless?_visits (m : Module) : firstRuleless? m.visits = firstRuleless? (visitsAll m.functions) := by
  rw [visits, firstRuleless?, firstRuleless?_append]
  exact Option.or_none

theorem Module.history_of_none {m : Module} (h : firstRuleless? m.visits = none) :
    m.history = .leave :: walked [.enter false] (visitsAll m.functions) := by
  rw [m.firstRuleless?_visits] at h
  rw [history, visits, walked, walked_append_of_none h]
  rfl

theorem Module.history_of_some {m : Module} {node : Node} (h : firstRuleless? m.visits = some node) :
    m.history = walked [.enter false] (visitsAll m.functions) := by
  rw [m.firstRuleless?_visits] at h
  rw [history, visits, walked, walked_append_of_some h]

theorem visitModule_finishes {m : Module} (h : firstRuleless? m.visits = none) :
    (visitModule m).run .initial = (.ok (findings m.history), ⟨[], findings m.history⟩) := by
  have hfirst := m.firstRuleless?_visits.symm.trans h
  obtain ⟨hrun, hopen, hpending⟩ := (visitAll_traces m.functions).finishes hfirst [.enter false] (List.cons_ne_nil _ _)
  have hscope := Traces.run_inScope "module scope" (w := []) hrun hopen hpending
  rw [← Module.history_of_none h] at hscope
  have hscopes : scopes m.history = [] := by
    refine scopes_of_nil ?_
    simp [Module.history_of_none h, openScopes, hopen, hpending, pending]
  have hbehind : checked m.history = ⟨[], findings m.history⟩ := by rw [checked, hscopes]
  have hinitial : ScopeState.initial = checked [] := rfl
  rw [visitModule, run_bind, run_note, hinitial]
  simp only [run_bind, hscope, hbehind, run_state, run_note, run_pure]

private theorem visitModule_fails {m : Module} {node : Node} (h : firstRuleless? m.visits = some node) :
    (visitModule m).run .initial = (.error (.noRule node.kind node.anchor),
      ⟨[], findings m.history ++ ((openScopes m.history).dropLast.flatMap (unusedNames m.history)).map .unused⟩) := by
  have hfirst := m.firstRuleless?_visits.symm.trans h
  obtain ⟨inner, hinner, hrun⟩ := (visitAll_traces m.functions).fails node hfirst [.enter false] (List.cons_ne_nil _ _)
  rw [← Module.history_of_some h] at hinner hrun
  have hopen : (openScopes m.history).dropLast = inner := by
    rw [hinner]
    exact List.dropLast_concat
  have hpush : ScopeState.initial.push = checked [.enter false] := push_checked false []
  have hclose : (unwound m.history inner (openScopes [.enter false])).close false =
      .ok ⟨[], findings m.history ++ (inner.flatMap (unusedNames m.history)).map .unused⟩ := rfl
  rw [visitModule, run_bind, run_note, hopen]
  simp only [run_bind, Checking.run_inScope, hpush, hrun, hclose]

/-- What the check of a module answers. -/
theorem Module.check_value_eq (m : Module) :
    m.check.value =
      match firstRuleless? m.visits with
      | none => .ok (findings m.history)
      | some node => .error (.noRule node.kind node.anchor) := by
  have hvalue : m.check.value = ((visitModule m).run .initial).1 := rfl
  rw [hvalue]
  cases hfirst : firstRuleless? m.visits with
  | none => rw [visitModule_finishes hfirst]
  | some node => rw [visitModule_fails hfirst]

/-- The check of a module fails if and only if there is a node without a rule on the way through its functions, and
then with the first such node.  No scope is open behind it.  If it does not fail it finds what the history of the
module says; if it fails, it has found what the history up to the failure says, and behind that the unused names of
the scopes that were open at the failure, from the innermost one outwards, the scope of the module left out. -/
theorem Checker.run_fresh_visits (m : Module) :
    ((∃ failure, (Checker.fresh.run m).value.1 = .error failure) ↔ ∃ node, .ruleless node ∈ m.visits) ∧
    (Checker.fresh.run m).value =
      match firstRuleless? m.visits with
      | none => (.ok (findings m.history), ⟨⟨[], findings m.history⟩, true⟩)
      | some node =>
        (.error (.noRule node.kind node.anchor),
          ⟨⟨[], findings m.history ++ ((openScopes m.history).dropLast.flatMap (unusedNames m.history)).map .unused⟩,
            true⟩) := by
  have hvalue : (Checker.fresh.run m).value =
      (((visitModule m).run .initial).1, ⟨((visitModule m).run .initial).2, true⟩) := rfl
  rw [hvalue, ← firstRuleless?_isSome_iff]
  cases hfirst : firstRuleless? m.visits with
  | none => simp [visitModule_finishes hfirst]
  | some node => simp [visitModule_fails hfirst]

/-- A function with a function inside a tuple of its body.  A block of the inner one has a pattern with an argument in
it, which has no rule. -/
def illSortedModule : Module :=
  ⟨.nowhere,
    [.function .nowhere "f" .priv [.parameter .nowhere "p" none none]
      [.expression .nowhere (.tuple .nowhere [.var .nowhere "u", .function .nowhere "g" .pub []
        [.block .nowhere [.patAlias .nowhere (.patTuple .nowhere [.patName .nowhere "a",
          .argument .nowhere (.var .nowhere "v") none]) "b"]] none])] none],
    []⟩

theorem check_illSortedModule :
    (Checker.fresh.run illSortedModule).value =
      (.error (.noRule "Argument" .nowhere), ⟨⟨[], [.undefined "u", .unused "a", .unused "p"]⟩, true⟩) := by
  rw [(Checker.run_fresh_visits illSortedModule).2]
  rfl

end ScopeLint
