import Mathlib.Data.List.Forall2
import ScopeLint.Tree.Sameness

/-!
# Outlines of trees

What is left of a tree when the places of its nodes are forgotten and the texts of its ascriptions are seen through a
view.  Two trees with one outline have the same kinds and parts; with a view that forgets nothing they are the same
(`Node.same_of_outline_eq`).
-/

namespace ScopeLint

mutual

/-- The tree with every node standing nowhere and the text of every ascription seen through a view. -/
def Node.outline (view : String → String) : Node → Node
  | .patName _ name => .patName .nowhere name
  | .patDiscard _ name => .patDiscard .nowhere name
  | .patTuple _ elements => .patTuple .nowhere (outlineAll view elements)
  | .patList _ elements tail => .patList .nowhere (outlineAll view elements) (outlineOption view tail)
  | .patAlias _ inner name => .patAlias .nowhere (inner.outline view) name
  | .patInt _ value => .patInt .nowhere value
  | .patFloat _ value => .patFloat .nowhere value
  | .patString _ value => .patString .nowhere value
  | .patConstructor _ name arguments => .patConstructor .nowhere name (outlineAll view arguments)
  | .var _ name => .var .nowhere name
  | .constructor _ name => .constructor .nowhere name
  | .minus _ operand => .minus .nowhere (operand.outline view)
  | .not _ operand => .not .nowhere (operand.outline view)
  | .block _ statements => .block .nowhere (outlineAll view statements)
  | .tuple _ elements => .tuple .nowhere (outlineAll view elements)
  | .int _ value => .int .nowhere value
  | .float _ value => .float .nowhere value
  | .string _ value => .string .nowhere value
  | .list _ elements tail => .list .nowhere (outlineAll view elements) (outlineOption view tail)
  | .argument _ value label => .argument .nowhere (value.outline view) label
  | .call _ function arguments => .call .nowhere (function.outline view) (outlineAll view arguments)
  | .field _ container label => .field .nowhere (container.outline view) label
  | .binary _ operator left right => .binary .nowhere operator (left.outline view) (right.outline view)
  | .clause _ alternatives guard body =>
    .clause .nowhere (outlineRows view alternatives) (outlineOption view guard) (body.outline view)
  | .choice _ subjects clauses => .choice .nowhere (outlineAll view subjects) (outlineAll view clauses)
  | .lambda _ parameters body => .lambda .nowhere (outlineAll view parameters) (outlineAll view body)
  | .todo _ message => .todo .nowhere (outlineOption view message)
  | .panic _ message => .panic .nowhere (outlineOption view message)
  | .assignment _ pattern value asserted ascription =>
    .assignment .nowhere (pattern.outline view) (value.outline view) asserted (ascription.map view)
  | .use _ patterns function => .use .nowhere (outlineAll view patterns) (function.outline view)
  | .expression _ inner => .expression .nowhere (inner.outline view)
  | .parameter _ name label ascription => .parameter .nowhere name label (ascription.map view)
  | .function _ name visibility parameters body ascription =>
    .function .nowhere name visibility (outlineAll view parameters) (outlineAll view body) (ascription.map view)
  | .importing _ path asName names => .importing .nowhere path asName names
  | .wholeModule _ functions imports =>
    .wholeModule .nowhere (outlineAll view functions) (outlineAll view imports)
  | .unknown _ kind => .unknown .nowhere kind

/-- The outlines of the nodes of a list. -/
def outlineAll (view : String → String) : List Node → List Node
  | [] => []
  | node :: nodes => node.outline view :: outlineAll view nodes

/-- The outline of the node that there may be. -/
def outlineOption (view : String → String) : Option Node → Option Node
  | none => none
  | some node => some (node.outline view)

/-- The outlines of the nodes of alternatives. -/
def outlineRows (view : String → String) : List (List Node) → List (List Node)
  | [] => []
  | row :: rows => outlineAll view row :: outlineRows view rows

end

/-- The outline of a module. -/
def Module.outline (view : String → String) (m : Module) : Module :=
  ⟨.nowhere, outlineAll view m.functions, outlineAll view m.imports⟩

theorem Module.toNode_outline (view : String → String) (m : Module) :
    (m.outline view).toNode = m.toNode.outline view := by
  rw [toNode, toNode, outline, Node.outline]

/-- Two trees look alike if they have one outline. -/
def Node.LooksLike (view : String → String) (a b : Node) : Prop :=
  a.outline view = b.outline view

section

variable {view : String → String}

theorem outlineAll_eq {as bs : List Node} (h : List.Forall₂ (Node.LooksLike view) as bs) :
    outlineAll view as = outlineAll view bs := by
  induction h with
  | nil => rfl
  | cons hab _ ih => rw [outlineAll, outlineAll, hab, ih]

theorem outlineAll_append (as bs : List Node) :
    outlineAll view (as ++ bs) = outlineAll view as ++ outlineAll view bs := by
  induction as with
  | nil => rfl
  | cons a as ih => rw [List.cons_append, outlineAll, outlineAll, ih, List.cons_append]

theorem outlineOption_eq {a b : Option Node} (h : Option.Rel (Node.LooksLike view) a b) :
    outlineOption view a = outlineOption view b := by
  cases h with
  | none => rfl
  | some hab => rw [outlineOption, outlineOption, hab]

theorem outlineRows_eq {as bs : List (List Node)} (h : List.Forall₂ (List.Forall₂ (Node.LooksLike view)) as bs) :
    outlineRows view as = outlineRows view bs := by
  induction h with
  | nil => rfl
  | cons hab _ ih => rw [outlineRows, outlineRows, outlineAll_eq hab, ih]

end

/-! ### Sameness -/

attribute [local simp] Node.outline Node.same outlineAll outlineOption outlineRows sameAll sameOption sameRows

mutual

/-- A tree is the same as itself. -/
theorem Node.same_refl : ∀ node : Node, node.same node = true
  | .patName .. | .patDiscard .. | .patInt .. | .patFloat .. | .patString .. | .var .. | .constructor .. | .int ..
  | .float .. | .string .. | .parameter .. | .importing .. | .unknown .. => by simp
  | .patTuple _ elements | .tuple _ elements | .block _ elements => by simp [sameAll_refl elements]
  | .patConstructor _ _ elements => by simp [sameAll_refl elements]
  | .patList _ elements tail | .list _ elements tail => by simp [sameAll_refl elements, sameOption_refl tail]
  | .patAlias _ inner _ | .minus _ inner | .not _ inner | .argument _ inner _ | .field _ inner _
  | .expression _ inner => by simp [inner.same_refl]
  | .call _ inner elements | .use _ elements inner => by simp [inner.same_refl, sameAll_refl elements]
  | .binary _ _ left right | .assignment _ left right _ _ => by simp [left.same_refl, right.same_refl]
  | .clause _ rows guard body => by simp [sameRows_refl rows, sameOption_refl guard, body.same_refl]
  | .choice _ first second | .lambda _ first second | .function _ _ _ first second _
  | .wholeModule _ first second => by simp [sameAll_refl first, sameAll_refl second]
  | .todo _ message | .panic _ message => by simp [sameOption_refl message]

theorem sameAll_refl : ∀ nodes : List Node, sameAll nodes nodes = true
  | [] => by simp
  | node :: nodes => by simp [node.same_refl, sameAll_refl nodes]

theorem sameOption_refl : ∀ node : Option Node, sameOption node node = true
  | none => by simp
  | some node => by simp [node.same_refl]

theorem sameRows_refl : ∀ rows : List (List Node), sameRows rows rows = true
  | [] => by simp
  | row :: rows => by simp [sameAll_refl row, sameRows_refl rows]

end

mutual

/-- An outline in which all texts are kept is the same as the other trees that its tree is the same as. -/
theorem Node.same_outline : ∀ a b : Node, (a.outline id).same b = a.same b
  | .patName .., b | .patDiscard .., b | .patInt .., b | .patFloat .., b | .patString .., b | .var .., b
  | .constructor .., b | .int .., b | .float .., b | .string .., b | .parameter .., b | .importing .., b
  | .unknown .., b => by
    unfold Node.outline Node.same
    simp
  | .patTuple _ elements, b | .tuple _ elements, b | .block _ elements, b => by
    unfold Node.outline Node.same
    simp [sameAll_outline elements]
  | .patConstructor _ _ elements, b => by
    unfold Node.outline Node.same
    simp [sameAll_outline elements]
  | .patList _ elements tail, b | .list _ elements tail, b => by
    unfold Node.outline Node.same
    simp [sameAll_outline elements, sameOption_outline tail]
  | .patAlias _ inner _, b | .minus _ inner, b | .not _ inner, b | .argument _ inner _, b | .field _ inner _, b
  | .expression _ inner, b => by
    unfold Node.outline Node.same
    simp [inner.same_outline]
  | .call _ inner elements, b | .use _ elements inner, b => by
    unfold Node.outline Node.same
    simp [inner.same_outline, sameAll_outline elements]
  | .binary _ _ left right, b | .assignment _ left right _ _, b => by
    unfold Node.outline Node.same
    simp [left.same_outline, right.same_outline]
  | .clause _ rows guard body, b => by
    unfold Node.outline Node.same
    simp [sameRows_outline rows, sameOption_outline guard, body.same_outline]
  | .choice _ first second, b | .lambda _ first second, b | .function _ _ _ first second _, b
  | .wholeModule _ first second, b => by
    unfold Node.outline Node.same
    simp [sameAll_outline first, sameAll_outline second]
  | .todo _ message, b | .panic _ message, b => by
    unfold Node.outline Node.same
    simp [sameOption_outline message]
termination_by structural a => a

theorem sameAll_outline : ∀ as bs : List Node, sameAll (outlineAll id as) bs = sameAll as bs
  | [], [] | [], _ :: _ | _ :: _, [] => by simp
  | a :: as, b :: bs => by simp [a.same_outline, sameAll_outline as]
termination_by structural as => as

theorem sameOption_outline : ∀ a b : Option Node, sameOption (outlineOption id a) b = sameOption a b
  | none, none | none, some _ | some _, none => by simp
  | some a, some b => by simp [a.same_outline]
termination_by structural a => a

theorem sameRows_outline : ∀ as bs : List (List Node), sameRows (outlineRows id as) bs = sameRows as bs
  | [], [] | [], _ :: _ | _ :: _, [] => by simp
  | a :: as, b :: bs => by simp [sameAll_outline a, sameRows_outline as]
termination_by structural as => as

end

/-- Trees with one outline in which all texts are kept are the same. -/
theorem Node.same_of_outline_eq {a b : Node} (h : a.outline id = b.outline id) : a.same b = true :=
  calc
    a.same b = (a.outline id).same b := (a.same_outline b).symm
    _ = (b.outline id).same b := by rw [h]
    _ = b.same b := b.same_outline b
    _ = true := b.same_refl

end ScopeLint
