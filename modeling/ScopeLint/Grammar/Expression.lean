import ScopeLint.Grammar.Block

/-!
# Expressions

The rules for expressions. A rule that holds further expressions takes the reading of those as an argument, which
is told how tightly an operator has to bind to belong to what is read; `expression` ties the knot.

An operator stands between two operands, and of two operators the tighter one takes the operand between them, or
the left one if they are equally tight. A node stands where its first token stands; only an operator, a call and
the access to a field stand at the operator, at the parenthesis and at the dot.
-/

namespace ScopeLint.Grammar

open Reading

/-- How tightly an operator binds, if it stands between two operands. -/
def tightness? : String → Option Nat
  | "||" => some 1
  | "&&" => some 2
  | "==" | "!=" => some 3
  | "<" | ">" | "<=" | ">=" | "<." | ">." | "<=." | ">=." => some 4
  | "<>" => some 5
  | "|>" => some 6
  | "+" | "-" | "+." | "-." => some 7
  | "*" | "/" | "%" | "*." | "/." => some 8
  | _ => none

/-- The tightness that every operator has at least. -/
def loosest : Int :=
  1

/-- An argument of a call, perhaps with a label. -/
def argument (expression : Reading Node) : Reading Node := do
  let t ← current
  let label ← label?
  return .argument t.anchor (← expression) label

/-- What may stand behind an operand: the arguments of a call, or a dot with the label of a field. -/
inductive Suffix where
  | call (anchor : Anchor) (arguments : List Node)
  | field (anchor : Anchor) (label : String)

/-- The operand with something behind it. -/
def Suffix.applyTo (operand : Node) : Suffix → Node
  | call anchor arguments => .call anchor operand arguments
  | field anchor label => .field anchor operand label

/-- The label of a field: a name, or the place of an element in a tuple. -/
def fieldLabel : Reading String := do
  let label ← current
  match label.kind with
  | .name | .upName | .integer =>
    let _ ← advance
    return label.text
  | _ => fail .noFieldLabel

/-- One more call or field behind an operand. -/
def suffix (expression : Reading Node) : Reading (Round Suffix) := do
  let t ← current
  if ← accepts .leftParen then
    let arguments ← commaList (argument expression) .rightParen
    let _ ← expect .argumentsEnd
    return .more (.call t.anchor arguments)
  else if ← accepts .dot then return .more (.field t.anchor (← fieldLabel))
  else return .stop

/-- A tuple. -/
def tuple (expression : Reading Node) : Reading Node := do
  let t ← advance
  let _ ← expect .tupleStart
  let elements ← commaList expression .rightParen
  let _ ← expect .tupleEnd
  return .tuple t.anchor elements

/-- A list, perhaps with a tail. -/
def list (expression : Reading Node) : Reading Node := do
  let t ← advance
  let es ← entries expression (fun _ => expression)
  let _ ← expect .listEnd
  return .list t.anchor (Entry.elements es) (Entry.tail? es)

/-- A function without a name; the ascription of its result is not kept. -/
def lambda (expression : Reading Node) : Reading Node := do
  let t ← advance
  let _ ← expect .lambdaParametersStart
  let parameters ← commaList parameter .rightParen
  let _ ← expect .lambdaParametersEnd
  let _ ← ascriptionBehind .rightArrow [.leftBrace]
  return .lambda t.anchor parameters (← block expression)

/-- One pattern for each subject of a case expression. -/
def clausePatterns : Reading (List Node) :=
  separated pattern (accepts .comma) pattern

/-- A clause of a case expression. -/
def clause (expression : Reading Node) : Reading Node := do
  let t ← current
  let alternatives ← separated clausePatterns (accepts .bar) clausePatterns
  let guard ← behind (acceptsWord .keyword "if") expression
  let _ ← expect .clauseArrow
  return .clause t.anchor alternatives guard (← expression)

/-- A case expression, which has a clause at least. -/
def choice (expression : Reading Node) : Reading Node :=
  traced .choice .node do
    let t ← advance
    let subjects ← separated expression (accepts .comma) expression
    let _ ← expect .clausesStart
    let clauses ← upToBrace .clausesUnfinished (clause expression)
    let _ ← expect .clausesEnd
    if clauses.isEmpty then failBefore .noClause else return .choice t.anchor subjects clauses

/-- The message behind a word that stops the program, if there is one. -/
def message (expression : Reading Node) : Reading (Option Node) := do
  let _ ← advance
  behind (acceptsWord .keyword "as") expression

/-- An expression that starts with a keyword. -/
def keywordExpression (expression : Reading Node) : Reading Node := do
  let t ← current
  match t.value with
  | some "fn" => lambda expression
  | some "case" => choice expression
  | some "todo" => return .todo t.anchor (← message expression)
  | some "panic" => return .panic t.anchor (← message expression)
  | _ => fail .noExpression

/-- An operand without signs before it and suffixes behind it. -/
def primary (expression : Reading Node) : Reading Node :=
  traced .primary .node do
    let t ← current
    match t.kind with
    | .integer =>
      let _ ← advance
      return .int t.anchor t.text
    | .float =>
      let _ ← advance
      return .float t.anchor t.text
    | .string =>
      let _ ← advance
      return .string t.anchor t.text
    | .name =>
      let _ ← advance
      return .var t.anchor t.text
    | .upName =>
      let _ ← advance
      return .constructor t.anchor t.text
    | .hash => tuple expression
    | .leftBracket => list expression
    | .leftBrace => return .block t.anchor (← block expression)
    | .keyword => keywordExpression expression
    | .invalid => fail .invalidToken
    | .endOfInput => fail .expressionUnfinished
    | _ => fail .noExpression

/-- A sign before an operand, as what it makes of the operand. -/
def sign : Reading (Round (Node → Node)) := do
  let t ← current
  if ← acceptsWord .operator "-" then return .more (.minus t.anchor)
  else if ← accepts .bang then return .more (.not t.anchor)
  else return .stop

/-- An operand: signs, then a primary expression with its suffixes, which bind tighter than the signs. -/
def operand (expression : Reading Node) : Reading Node := do
  let signs ← collect sign
  let inner ← primary expression
  let suffixes ← collect (suffix expression)
  return signs.foldr (fun sign node => sign node) (suffixes.foldl Suffix.applyTo inner)

/-- An operator and its right operand, if the operator binds tightly enough. -/
def operation (inner : Int → Reading Node) (least : Int) : Reading (Round (Token × Node)) := do
  let t ← current
  match if t.kind = .operator then tightness? t.text else none with
  | some tightness =>
    if (tightness : Int) < least then return .stop
    else
      let _ ← advance
      return .more (t, ← inner (tightness + 1))
  | none => return .stop

/-- The expression of an operand and the operations behind it, from left to right. -/
def operationsApplied (first : Node) (operations : List (Token × Node)) : Node :=
  operations.foldl (fun left operation => .binary operation.1.anchor operation.1.text left operation.2) first

/-- An expression whose operators outside all operands bind at least as tightly as is told. -/
def expressionWith (inner : Int → Reading Node) (least : Int) : Reading Node := do
  let first ← operand (inner loosest)
  return operationsApplied first (← collect (operation inner least))

/-- An expression nested no deeper than a bound. -/
def expressionWithin : Nat → Int → Reading Node
  | 0, _ => failing .endless
  | depth + 1, least => expressionWith (expressionWithin depth) least

/-- An expression whose operators outside all operands bind at least as tightly as is told. Each level of nesting
passes over a token, so the tokens ahead bound the depth. -/
def expressionFrom (least : Int) : Reading Node := do
  expressionWithin (← cursor).reach least

/-- An expression. -/
def expression : Reading Node :=
  expressionFrom loosest

end ScopeLint.Grammar
