/-!
# Syntax trees

One type holds all nodes of a syntax tree. The reader of token lists puts each kind where the language has it, but
a tree may also be made by hand with any node in any place, and the checker answers for those too; so children are
plain nodes. A node may stand somewhere in a text (`Anchor`); where it stands says nothing about what it means.
-/

namespace ScopeLint

/-- Whether a name is seen outside its scope. -/
inductive Visibility where
  | priv
  | pub
  deriving DecidableEq

/-- The word for a visibility. -/
def Visibility.word : Visibility → String
  | priv => "private"
  | pub => "public"

/-- A name that starts with an underscore is given to no binding. -/
def isDiscarded (name : String) : Bool :=
  name.toList.head? == some '_'

/-- The line and the column where a node stands, as far as they are known. -/
structure Anchor where
  line : Option Int
  column : Option Int
  deriving DecidableEq

/-- A node that stands nowhere. -/
def Anchor.nowhere : Anchor :=
  ⟨none, none⟩

/-- A node of a syntax tree. Literals keep the spelling of their value. -/
inductive Node where
  /-- A pattern that binds a name. -/
  | patName (anchor : Anchor) (name : String)
  /-- A pattern that matches anything and binds nothing. The list tail without a pattern has the empty name. -/
  | patDiscard (anchor : Anchor) (name : String)
  | patTuple (anchor : Anchor) (elements : List Node)
  /-- A list pattern, perhaps with a pattern for the elements behind the named ones. -/
  | patList (anchor : Anchor) (elements : List Node) (tail : Option Node)
  /-- A pattern whose whole match gets a name. -/
  | patAlias (anchor : Anchor) (inner : Node) (name : String)
  | patInt (anchor : Anchor) (value : String)
  | patFloat (anchor : Anchor) (value : String)
  | patString (anchor : Anchor) (value : String)
  | patConstructor (anchor : Anchor) (name : String) (arguments : List Node)
  | var (anchor : Anchor) (name : String)
  | constructor (anchor : Anchor) (name : String)
  /-- A negated number. -/
  | minus (anchor : Anchor) (operand : Node)
  /-- A negated truth value. -/
  | not (anchor : Anchor) (operand : Node)
  | block (anchor : Anchor) (statements : List Node)
  | tuple (anchor : Anchor) (elements : List Node)
  | int (anchor : Anchor) (value : String)
  | float (anchor : Anchor) (value : String)
  | string (anchor : Anchor) (value : String)
  | list (anchor : Anchor) (elements : List Node) (tail : Option Node)
  | argument (anchor : Anchor) (value : Node) (label : Option String)
  | call (anchor : Anchor) (function : Node) (arguments : List Node)
  | field (anchor : Anchor) (container : Node) (label : String)
  | binary (anchor : Anchor) (operator : String) (left right : Node)
  /-- One arm of a case expression: alternatives of one pattern per subject, a guard, and the value. -/
  | clause (anchor : Anchor) (alternatives : List (List Node)) (guard : Option Node) (body : Node)
  | choice (anchor : Anchor) (subjects clauses : List Node)
  /-- A function without a name. -/
  | lambda (anchor : Anchor) (parameters body : List Node)
  | todo (anchor : Anchor) (message : Option Node)
  | panic (anchor : Anchor) (message : Option Node)
  /-- A binding statement, whose type ascription is kept as text. -/
  | assignment (anchor : Anchor) (pattern value : Node) (asserted : Bool) (ascription : Option String)
  /-- A statement that passes the rest of its block to a function. -/
  | use (anchor : Anchor) (patterns : List Node) (function : Node)
  | expression (anchor : Anchor) (inner : Node)
  | parameter (anchor : Anchor) (name : String) (label ascription : Option String)
  | function (anchor : Anchor) (name : String) (visibility : Visibility) (parameters body : List Node)
      (ascription : Option String)
  | importing (anchor : Anchor) (path : String) (asName : Option String) (names : List String)
  | wholeModule (anchor : Anchor) (functions imports : List Node)
  /-- A node of a kind that the language does not have. -/
  | unknown (anchor : Anchor) (kind : String)

instance : Inhabited Node :=
  ⟨.unknown .nowhere ""⟩

namespace Node

/-- Where a node stands. -/
def anchor : Node → Anchor
  | patName a _ | patDiscard a _ | patTuple a _ | patList a _ _ | patAlias a _ _ | patInt a _ | patFloat a _
  | patString a _ | patConstructor a _ _ | var a _ | constructor a _ | minus a _ | not a _ | block a _ | tuple a _
  | int a _ | float a _ | string a _ | list a _ _ | argument a _ _ | call a _ _ | field a _ _ | binary a _ _ _
  | clause a _ _ _ | choice a _ _ | lambda a _ _ | todo a _ | panic a _ | assignment a _ _ _ _ | use a _ _
  | expression a _ | parameter a _ _ _ | function a _ _ _ _ _ | importing a _ _ _ | wholeModule a _ _
  | unknown a _ => a

/-- The name of the kind of a node. -/
def kind : Node → String
  | patName .. => "PatternVariable"
  | patDiscard .. => "PatternDiscard"
  | patTuple .. => "PatternTuple"
  | patList .. => "PatternList"
  | patAlias .. => "PatternAssignment"
  | patInt .. => "PatternInt"
  | patFloat .. => "PatternFloat"
  | patString .. => "PatternString"
  | patConstructor .. => "PatternConstructor"
  | var .. => "Variable"
  | constructor .. => "Constructor"
  | minus .. => "NegateInt"
  | not .. => "NegateBool"
  | block .. => "Block"
  | tuple .. => "Tuple"
  | int .. => "Int"
  | float .. => "Float"
  | string .. => "String"
  | list .. => "ListExpr"
  | argument .. => "Argument"
  | call .. => "Call"
  | field .. => "FieldAccess"
  | binary .. => "BinaryOperator"
  | clause .. => "Clause"
  | choice .. => "Case"
  | lambda .. => "Fn"
  | todo .. => "Todo"
  | panic .. => "Panic"
  | assignment .. => "Assignment"
  | use .. => "Use"
  | expression .. => "ExpressionStatement"
  | parameter .. => "Parameter"
  | function .. => "Function"
  | importing .. => "Import"
  | wholeModule .. => "Module"
  | unknown _ kind => kind

end Node

/-- A module: its functions and its imports, each in the order of the text. -/
structure Module where
  anchor : Anchor
  functions : List Node
  imports : List Node

/-- The node that holds a module. -/
def Module.toNode (m : Module) : Node :=
  .wholeModule m.anchor m.functions m.imports

end ScopeLint
