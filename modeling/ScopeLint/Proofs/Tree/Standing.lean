import ScopeLint.Grammar.Expression

/-!
# Where nodes may stand

The sorts of nodes that the grammar tells apart, and how tightly the parts of an expression hold together.  Both look
at the kind of a node only, never below it.
-/

namespace ScopeLint.Node

/-- The node is a pattern. -/
def isPattern : Node → Bool
  | patName .. | patDiscard .. | patTuple .. | patList .. | patAlias .. | patInt .. | patFloat .. | patString ..
  | patConstructor .. => true
  | _ => false

/-- The tail of a list pattern that has two dots only. -/
def isBareTail : Node → Bool
  | patDiscard _ name => name == ""
  | _ => false

/-- How tightly the parts of an expression hold together: by the operator between them, by a sign, or tighter than all
signs.  No other node holds together at all. -/
def tightness : Node → Nat
  | binary _ operator _ _ => (Grammar.tightness? operator).getD 0
  | minus .. | not .. => 9
  | call .. | field .. | var .. | constructor .. | block .. | tuple .. | int .. | float .. | string .. | list ..
  | choice .. | lambda .. | todo .. | panic .. => 10
  | _ => 0

/-- The node is an expression that holds together at least as tightly as is told. -/
def isOperand (least : Nat) (node : Node) : Bool :=
  least ≤ node.tightness

theorem isOperand_iff {least : Nat} {node : Node} : node.isOperand least = true ↔ least ≤ node.tightness :=
  decide_eq_true_iff

/-- The node is an expression. -/
def isExpression (node : Node) : Bool :=
  node.isOperand 1

/-- The node is a statement. -/
def isStatement : Node → Bool
  | assignment .. | use .. | expression .. => true
  | _ => false

/-- The node is an argument of a call. -/
def isArgument : Node → Bool
  | argument .. => true
  | _ => false

/-- The node is a clause of a case expression. -/
def isClause : Node → Bool
  | clause .. => true
  | _ => false

/-- The node is a parameter of a function. -/
def isParameter : Node → Bool
  | parameter .. => true
  | _ => false

/-- The node is a function with a name. -/
def isFunction : Node → Bool
  | function .. => true
  | _ => false

/-- The node is an import. -/
def isImport : Node → Bool
  | importing .. => true
  | _ => false

end ScopeLint.Node
