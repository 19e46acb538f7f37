import ScopeLint.Check.Checking

/-!
# Visiting nodes

The rules of the check, by kinds of nodes. Only some kinds have a rule; a further set of kinds is skipped, with all
that is below them, and the check fails at a node of any other kind. The rules do not look at where a node stands
in the tree.

A binding statement and a use statement bind the names of their patterns; the values on their other side are not
checked. A function is bound before its body is visited, so that it may refer to itself, and its parameters lie in
a scope around the scope of its body.
-/

namespace ScopeLint

/-- Nodes of this kind are visited by a rule of their own. -/
def Node.hasRule : Node → Bool
  | .function .. | .assignment .. | .use .. | .expression .. | .patName .. | .patTuple .. | .patList .. | .patAlias ..
  | .var .. | .minus .. | .not .. | .block .. | .tuple .. => true
  | _ => false

open Checking

/-- Binds the parameters of a function that are not discarded. -/
def declareParameters : List Node → Checking Unit
  | [] => return
  | .parameter _ name _ _ :: rest => do
    if isDiscarded name then note (.parameterDiscarded name) else declare name .priv
    declareParameters rest
  | _ :: rest => declareParameters rest

mutual

/-- Checks a node. -/
def visit (node : Node) : Checking Unit := do
  note (.visited node.kind node.hasRule)
  match node with
  | .function _ name visibility parameters body _ =>
    note (.functionStarted name)
    declare name visibility
    inScope ("parameters of " ++ name) true do
      declareParameters parameters
      inScope ("body of " ++ name) true (visitAll body)
    note (.functionFinished name)
  | .assignment _ pattern _ _ _ => visit pattern
  | .use _ patterns _ => visitAll patterns
  | .expression _ inner => visit inner
  | .patName _ name => declare name .priv
  | .patTuple _ elements => visitAll elements
  | .patList _ elements tail =>
    visitAll elements
    visitOption tail
  | .patAlias _ inner name =>
    visit inner
    declare name .priv
  | .var _ name => if ← refer name then pure () else report (.undefined name)
  | .minus _ operand => visit operand
  | .not _ operand => visit operand
  | .block _ statements => inScope "block" true (visitAll statements)
  | .tuple _ elements => visitAll elements
  | .patDiscard .. | .patInt .. | .patFloat .. | .patString .. | .patConstructor .. | .int .. | .float .. | .string ..
  | .list .. | .constructor .. | .call .. | .field .. | .binary .. | .choice .. | .lambda .. | .todo .. | .panic .. =>
    note (.skipped node.kind)
  | .argument .. | .clause .. | .parameter .. | .importing .. | .wholeModule .. | .unknown .. =>
    fail (.noRule node.kind node.anchor)

/-- Checks nodes in order. -/
def visitAll : List Node → Checking Unit
  | [] => return
  | node :: nodes => do
    visit node
    visitAll nodes

/-- Checks the node that there may be. -/
def visitOption : Option Node → Checking Unit
  | none => return
  | some node => visit node

end

/-- Checks a module. Its functions are bound in a scope that is not checked for unused names. -/
def visitModule (m : Module) : Checking (List Diagnostic) := do
  note (.started m.functions.length)
  inScope "module scope" false (visitAll m.functions)
  let found := (← state).diagnostics
  note (.finished found.length)
  return found

/-- A checker with the state that its run has left; it can be run once. -/
structure Checker where
  state : ScopeState
  used : Bool

namespace Checker

/-- A checker that has not been run. -/
def fresh : Checker :=
  ⟨.initial, false⟩

/-- Checks a module and gives its diagnostics, in the order in which they were found. -/
def run (c : Checker) (m : Module) : Logged CheckEvent (Except CheckFailure (List Diagnostic) × Checker) :=
  if c.used then .silent (.error .alreadyUsed, c)
  else (visitModule m c.state).andThen fun (result, s) => .silent (result, ⟨s, true⟩)

end Checker

/-- Checks a module with a checker of its own. -/
def Module.check (m : Module) : Logged CheckEvent (Except CheckFailure (List Diagnostic)) := do
  Logged.note .ready
  let (result, _) ← Checker.fresh.run m
  return result

end ScopeLint
