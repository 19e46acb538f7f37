import Mathlib.Logic.Equiv.Basic
import ScopeLint.Proofs.Check.Resolution
import ScopeLint.Proofs.Scope.Renaming

/-!
# Trees with other names

Renaming replaces the names of functions and parameters, of name and alias patterns, and of variables.  If different
names get different new names, and a name is discarded if and only if its new name is, then a module does with the new
names what it did with the old ones (`Module.events_renamed`), and its check finds the same about the new names, in the
same order (`Module.check_renamed`).
-/

namespace ScopeLint

open History

mutual

/-- The tree with another name for each name that the check declares or refers to. -/
def Node.renamed (r : String → String) : Node → Node
  | .patName anchor name => .patName anchor (r name)
  | .patDiscard anchor name => .patDiscard anchor name
  | .patTuple anchor elements => .patTuple anchor (renamedAll r elements)
  | .patList anchor elements tail => .patList anchor (renamedAll r elements) (renamedOption r tail)
  | .patAlias anchor inner name => .patAlias anchor (inner.renamed r) (r name)
  | .patInt anchor value => .patInt anchor value
  | .patFloat anchor value => .patFloat anchor value
  | .patString anchor value => .patString anchor value
  | .patConstructor anchor name arguments => .patConstructor anchor name (renamedAll r arguments)
  | .var anchor name => .var anchor (r name)
  | .constructor anchor name => .constructor anchor name
  | .minus anchor operand => .minus anchor (operand.renamed r)
  | .not anchor operand => .not anchor (operand.renamed r)
  | .block anchor statements => .block anchor (renamedAll r statements)
  | .tuple anchor elements => .tuple anchor (renamedAll r elements)
  | .int anchor value => .int anchor value
  | .float anchor value => .float anchor value
  | .string anchor value => .string anchor value
  | .list anchor elements tail => .list anchor (renamedAll r elements) (renamedOption r tail)
  | .argument anchor value label => .argument anchor (value.renamed r) label
  | .call anchor function arguments => .call anchor (function.renamed r) (renamedAll r arguments)
  | .field anchor container label => .field anchor (container.renamed r) label
  | .binary anchor operator left right => .binary anchor operator (left.renamed r) (right.renamed r)
  | .clause anchor alternatives guard body =>
    .clause anchor (renamedRows r alternatives) (renamedOption r guard) (body.renamed r)
  | .choice anchor subjects clauses => .choice anchor (renamedAll r subjects) (renamedAll r clauses)
  | .lambda anchor parameters body => .lambda anchor (renamedAll r parameters) (renamedAll r body)
  | .todo anchor message => .todo anchor (renamedOption r message)
  | .panic anchor message => .panic anchor (renamedOption r message)
  | .assignment anchor pattern value asserted ascription =>
    .assignment anchor (pattern.renamed r) (value.renamed r) asserted ascription
  | .use anchor patterns function => .use anchor (renamedAll r patterns) (function.renamed r)
  | .expression anchor inner => .expression anchor (inner.renamed r)
  | .parameter anchor name label ascription => .parameter anchor (r name) label ascription
  | .function anchor name visibility parameters body ascription =>
    .function anchor (r name) visibility (renamedAll r parameters) (renamedAll r body) ascription
  | .importing anchor path asName names => .importing anchor path asName names
  | .wholeModule anchor functions imports => .wholeModule anchor (renamedAll r functions) (renamedAll r imports)
  | .unknown anchor kind => .unknown anchor kind

/-- The renamed nodes of a list. -/
def renamedAll (r : String → String) : List Node → List Node
  | [] => []
  | node :: nodes => node.renamed r :: renamedAll r nodes

/-- The renamed node that there may be. -/
def renamedOption (r : String → String) : Option Node → Option Node
  | none => none
  | some node => some (node.renamed r)

/-- The renamed nodes of alternatives. -/
def renamedRows (r : String → String) : List (List Node) → List (List Node)
  | [] => []
  | row :: rows => renamedAll r row :: renamedRows r rows

end

/-- The module with other names in its functions. -/
def Module.renamed (r : String → String) (m : Module) : Module :=
  ⟨m.anchor, renamedAll r m.functions, renamedAll r m.imports⟩

theorem renamedAll_eq_map (r : String → String) (nodes : List Node) :
    renamedAll r nodes = nodes.map (Node.renamed r) := by
  induction nodes with
  | nil => rw [renamedAll, List.map_nil]
  | cons node nodes ih => rw [renamedAll, ih, List.map_cons]

/-! ### What renamed trees do with names -/

variable {r : String → String}

mutual

/-- A renamed node does the same with the new names. -/
theorem Node.events_renamed : ∀ node : Node, (node.renamed r).events = node.events.map (.renamed r)
  | .assignment _ pattern _ _ _ => pattern.events_renamed
  | .use _ patterns _ => eventsAll_renamed patterns
  | .expression _ inner => inner.events_renamed
  | .patName .. | .var .. => rfl
  | .patTuple _ elements => eventsAll_renamed elements
  | .patList _ elements tail => by
    rw [Node.renamed, Node.events, Node.events, eventsAll_renamed elements, eventsOption_renamed tail, List.map_append]
  | .patAlias _ inner name => by
    rw [Node.renamed, Node.events, Node.events, inner.events_renamed, List.map_append]
    rfl
  | .minus _ operand => operand.events_renamed
  | .not _ operand => operand.events_renamed
  | .block _ statements => by
    rw [Node.renamed, Node.events, Node.events, eventsAll_renamed statements, List.map_cons, List.map_append]
    rfl
  | .tuple _ elements => eventsAll_renamed elements
  | .patDiscard .. | .patInt .. | .patFloat .. | .patString .. | .patConstructor .. | .int .. | .float .. | .string ..
  | .list .. | .constructor .. | .call .. | .field .. | .binary .. | .choice .. | .lambda .. | .todo .. | .panic ..
  | .argument .. | .clause .. | .parameter .. | .function .. | .importing .. | .wholeModule .. | .unknown .. => rfl

theorem eventsAll_renamed : ∀ nodes : List Node, eventsAll (renamedAll r nodes) = (eventsAll nodes).map (.renamed r)
  | [] => rfl
  | node :: nodes => by
    rw [renamedAll, eventsAll, eventsAll, node.events_renamed, eventsAll_renamed nodes, List.map_append]

theorem eventsOption_renamed : ∀ node : Option Node,
    eventsOption (renamedOption r node) = (eventsOption node).map (.renamed r)
  | none => rfl
  | some node => node.events_renamed

end

mutual

/-- A renamed node is regular if and only if the node is. -/
theorem Node.isRegular_renamed : ∀ node : Node, (node.renamed r).isRegular = node.isRegular
  | .assignment _ pattern _ _ _ => pattern.isRegular_renamed
  | .use _ patterns _ => areRegular_renamed patterns
  | .expression _ inner => inner.isRegular_renamed
  | .patTuple _ elements => areRegular_renamed elements
  | .patList _ elements tail => by
    rw [Node.renamed, Node.isRegular, Node.isRegular, areRegular_renamed elements, isRegularOption_renamed tail]
  | .patAlias _ inner _ => inner.isRegular_renamed
  | .minus _ operand => operand.isRegular_renamed
  | .not _ operand => operand.isRegular_renamed
  | .block _ statements => areRegular_renamed statements
  | .tuple _ elements => areRegular_renamed elements
  | .patName .. | .var .. | .patDiscard .. | .patInt .. | .patFloat .. | .patString .. | .patConstructor .. | .int ..
  | .float .. | .string .. | .list .. | .constructor .. | .call .. | .field .. | .binary .. | .choice .. | .lambda ..
  | .todo .. | .panic .. | .argument .. | .clause .. | .parameter .. | .function .. | .importing .. | .wholeModule ..
  | .unknown .. => rfl

theorem areRegular_renamed : ∀ nodes : List Node, areRegular (renamedAll r nodes) = areRegular nodes
  | [] => rfl
  | node :: nodes => by
    rw [renamedAll, areRegular, areRegular, node.isRegular_renamed, areRegular_renamed nodes]

theorem isRegularOption_renamed : ∀ node : Option Node,
    isRegularOption (renamedOption r node) = isRegularOption node
  | none => rfl
  | some node => node.isRegular_renamed

end

/-! ### Functions and modules -/

theorem all_isParameter_renamed (parameters : List Node) :
    (renamedAll r parameters).all Node.isParameter = parameters.all Node.isParameter := by
  rw [renamedAll_eq_map, List.all_map]
  refine congrArg parameters.all (funext fun p => ?_)
  cases p <;> rfl

theorem Node.isRegularFunction_renamed (f : Node) : (f.renamed r).isRegularFunction = f.isRegularFunction := by
  cases f with
  | function anchor name visibility parameters body ascription =>
    rw [Node.renamed, Node.isRegularFunction, Node.isRegularFunction, all_isParameter_renamed, areRegular_renamed]
  | _ => rfl

section

variable (hdiscarded : ∀ name, isDiscarded (r name) = isDiscarded name)

include hdiscarded

theorem parameterEvents_renamed (parameters : List Node) :
    parameterEvents (renamedAll r parameters) = (parameterEvents parameters).map (.renamed r) := by
  fun_induction parameterEvents parameters with
  | case1 => rfl
  | case2 anchor name label ascription rest hd ih =>
    rw [renamedAll, Node.renamed, parameterEvents, hdiscarded, if_pos hd, ih]
  | case3 anchor name label ascription rest hd ih =>
    rw [renamedAll, Node.renamed, parameterEvents, hdiscarded, if_neg hd, ih]
    rfl
  | case4 node rest hnot ih =>
    rw [renamedAll, ← ih]
    cases node with
    | parameter anchor name label ascription => exact absurd rfl (hnot anchor name label ascription)
    | _ => rfl

theorem functionEvents_renamed (f : Node) : functionEvents (f.renamed r) = (functionEvents f).map (.renamed r) := by
  cases f with
  | function anchor name visibility parameters body ascription =>
    simp [Node.renamed, functionEvents, parameterEvents_renamed hdiscarded, eventsAll_renamed, NameEvent.renamed]
  | _ => rfl

/-- A renamed module does the same with the new names. -/
theorem Module.events_renamed (m : Module) : (m.renamed r).events = m.events.map (.renamed r) := by
  rw [Module.events, Module.events, Module.renamed, renamedAll_eq_map, List.flatMap_map, List.map_flatMap]
  exact congrArg (m.functions.flatMap ·) (funext fun f => functionEvents_renamed hdiscarded f)

end

/-- If different names get different new names, and new names are discarded if and only if the old ones are, the check
of a renamed module finds the same as before, in the same order, about the new names. -/
theorem Module.check_renamed (hr : Function.Injective r) (hdiscarded : ∀ name, isDiscarded (r name) = isDiscarded name)
    (m : Module) (hm : ∀ f ∈ m.functions, f.isRegularFunction = true) :
    ∃ found found', m.check.value = .ok found ∧ (m.renamed r).check.value = .ok found' ∧
      List.Forall₂ (Diagnostic.Renames r) found found' := by
  have hm' : ∀ f ∈ (m.renamed r).functions, f.isRegularFunction = true := by
    intro f hf
    rw [Module.renamed, renamedAll_eq_map] at hf
    obtain ⟨g, hg, rfl⟩ := List.mem_map.mp hf
    rw [g.isRegularFunction_renamed]
    exact hm g hg
  refine ⟨findings m.events, findings (m.renamed r).events, ?_, ?_, ?_⟩
  · rw [Module.check_value, Checker.run_fresh hm]
  · rw [Module.check_value, Checker.run_fresh hm']
  · rw [Module.events_renamed hdiscarded]
    exact findings_renamed hr m.events

/-- Two names exchanged for each other. -/
def exchanged : String → String :=
  Equiv.swap "x" "z"

/-- The names of the module that binds one name in several scopes, exchanged for each other. -/
theorem check_exchanged :
    Function.Injective exchanged ∧ (∀ name, isDiscarded (exchanged name) = isDiscarded name) ∧
      (∀ f ∈ shadowingModule.functions, f.isRegularFunction = true) ∧
      ∃ found found', shadowingModule.check.value = .ok found ∧
        (shadowingModule.renamed exchanged).check.value = .ok found' ∧
        List.Forall₂ (Diagnostic.Renames exchanged) found found' := by
  have hinjective : Function.Injective exchanged := (Equiv.swap "x" "z").injective
  have hdiscarded : ∀ name, isDiscarded (exchanged name) = isDiscarded name := by
    intro name
    rw [exchanged, Equiv.swap_apply_def]
    split
    · next h =>
      rw [h]
      decide
    · split
      · next h =>
        rw [h]
        decide
      · rfl
  have hregular : ∀ f ∈ shadowingModule.functions, f.isRegularFunction = true := by decide
  exact ⟨hinjective, hdiscarded, hregular, Module.check_renamed hinjective hdiscarded shadowingModule hregular⟩

end ScopeLint
