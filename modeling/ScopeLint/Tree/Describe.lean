import ScopeLint.Tree.Node

/-!
# Debug texts of trees

The text that shows a tree in log records. A node shows its kind and its parts; where it stands is left out, and so
are the parts that carry no names: ascriptions, the names that an import brings in, and the imports of a module.
-/

namespace ScopeLint

/-- Texts with a comma and a space between them. -/
def commaJoined (texts : List String) : String :=
  String.intercalate ", " texts

/-- Texts with commas between them, in square brackets. -/
def bracketed (texts : List String) : String :=
  "[" ++ commaJoined texts ++ "]"

/-- A text with something before it and something behind it, or nothing if there is no text. -/
def wrapped (before : String) (text : Option String) (behind : String) : String :=
  match text with
  | some text => if text.isEmpty then "" else before ++ text ++ behind
  | none => ""

mutual

/-- The debug text of a node. -/
def Node.describe : Node → String
  | .patName _ name => "PVar(" ++ name ++ ")"
  | .patDiscard _ name => "PDiscard(" ++ name ++ ")"
  | .patTuple _ elements => "PTuple(" ++ commaJoined (describeAll elements) ++ ")"
  | .patList _ elements tail => "PList(" ++ bracketed (describeAll elements) ++ describeTail tail ++ ")"
  | .patAlias _ inner name => "PAs(" ++ inner.describe ++ " as " ++ name ++ ")"
  | .patInt _ value => "PInt(" ++ value ++ ")"
  | .patFloat _ value => "PFloat(" ++ value ++ ")"
  | .patString _ value => "PString(\"" ++ value ++ "\")"
  | .patConstructor _ name arguments =>
    "PConstructor(" ++ name ++ "(" ++ commaJoined (describeAll arguments) ++ "))"
  | .var _ name => "Var(" ++ name ++ ")"
  | .constructor _ name => "Constructor(" ++ name ++ ")"
  | .minus _ operand => "Neg(" ++ operand.describe ++ ")"
  | .not _ operand => "Not(" ++ operand.describe ++ ")"
  | .block _ statements => "Block(" ++ bracketed (describeAll statements) ++ ")"
  | .tuple _ elements => "Tuple(" ++ commaJoined (describeAll elements) ++ ")"
  | .int _ value => "Int(" ++ value ++ ")"
  | .float _ value => "Float(" ++ value ++ ")"
  | .string _ value => "String(\"" ++ value ++ "\")"
  | .list _ elements tail => "List(" ++ bracketed (describeAll elements) ++ describeTail tail ++ ")"
  | .argument _ value label => wrapped "" label ": " ++ value.describe
  | .call _ function arguments =>
    "Call(" ++ function.describe ++ "(" ++ commaJoined (describeAll arguments) ++ "))"
  | .field _ container label => "Field(" ++ container.describe ++ "." ++ label ++ ")"
  | .binary _ operator left right => "Op(" ++ left.describe ++ " " ++ operator ++ " " ++ right.describe ++ ")"
  | .clause _ alternatives guard body =>
    "Clause(" ++ String.intercalate " | " (describeAlternatives alternatives) ++ describeGuard guard ++ " -> "
      ++ body.describe ++ ")"
  | .choice _ subjects clauses =>
    "Case(" ++ bracketed (describeAll subjects) ++ ", " ++ bracketed (describeAll clauses) ++ ")"
  | .lambda _ parameters body =>
    "Fn(" ++ bracketed (describeAll parameters) ++ ", " ++ bracketed (describeAll body) ++ ")"
  | .todo _ message => "Todo" ++ describeMessage message
  | .panic _ message => "Panic" ++ describeMessage message
  | .assignment _ pattern value asserted _ =>
    (if asserted then "let assert(" else "let(") ++ pattern.describe ++ " = " ++ value.describe ++ ")"
  | .use _ patterns function => "Use(" ++ commaJoined (describeAll patterns) ++ " <- " ++ function.describe ++ ")"
  | .expression _ inner => "Expr(" ++ inner.describe ++ ")"
  | .parameter _ name label _ => "Param(" ++ wrapped "" label " " ++ name ++ ")"
  | .function _ name visibility parameters body _ =>
    (if visibility = .pub then "pub " else "") ++ "Function(" ++ name ++ "("
      ++ commaJoined (describeAll parameters) ++ ") body=" ++ bracketed (describeAll body) ++ ")"
  | .importing _ path asName _ => "Import(" ++ path ++ wrapped " as " asName "" ++ ")"
  | .wholeModule _ functions _ => "Module(" ++ bracketed (describeAll functions) ++ ")"
  | .unknown _ kind => kind ++ "()"

/-- The debug texts of nodes. -/
def describeAll : List Node → List String
  | [] => []
  | node :: nodes => node.describe :: describeAll nodes

/-- The debug texts of the alternatives of a clause. -/
def describeAlternatives : List (List Node) → List String
  | [] => []
  | patterns :: alternatives => commaJoined (describeAll patterns) :: describeAlternatives alternatives

/-- The debug text of a list tail. -/
def describeTail : Option Node → String
  | none => ""
  | some tail => ", .." ++ tail.describe

/-- The debug text of a guard. -/
def describeGuard : Option Node → String
  | none => ""
  | some guard => " if " ++ guard.describe

/-- The debug text of the message of a node that stops the program. -/
def describeMessage : Option Node → String
  | none => ""
  | some message => "(" ++ message.describe ++ ")"

end

/-- The debug text of a module. -/
def Module.describe (m : Module) : String :=
  m.toNode.describe

end ScopeLint
