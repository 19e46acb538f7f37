import ScopeLint.Token.Basic

/-!
# Faults of token lists

Why a token list is no text of the language, and the words for it. A fault names the token at which it was found.
-/

namespace ScopeLint

/-- The places of the grammar where one kind of token, or one token, has to stand. -/
inductive Expectation where
  | importWord
  | modulePath
  | pathSegment
  | importListEnd
  | importAlias
  | functionWord
  | functionName
  | parametersStart
  | parametersEnd
  | parameterName
  | blockStart
  | blockEnd
  | bindingSign
  | useArrow
  | patternAlias
  | tuplePatternStart
  | tuplePatternEnd
  | constructorPatternEnd
  | listPatternEnd
  | argumentsEnd
  | tupleStart
  | tupleEnd
  | listEnd
  | lambdaParametersStart
  | lambdaParametersEnd
  | clausesStart
  | clauseArrow
  | clausesEnd
  deriving DecidableEq

namespace Expectation

/-- The kind of the token that has to stand there. -/
def kind : Expectation → TokenKind
  | importWord | functionWord => .keyword
  | modulePath | pathSegment | importAlias | functionName | parameterName | patternAlias => .name
  | parametersStart | tuplePatternStart | tupleStart | lambdaParametersStart => .leftParen
  | parametersEnd | tuplePatternEnd | constructorPatternEnd | argumentsEnd | tupleEnd | lambdaParametersEnd =>
    .rightParen
  | blockStart | clausesStart => .leftBrace
  | importListEnd | blockEnd | clausesEnd => .rightBrace
  | listPatternEnd | listEnd => .rightBracket
  | bindingSign => .equal
  | useArrow => .leftArrow
  | clauseArrow => .rightArrow

/-- The value that it has to have, if any value will not do. -/
def value : Expectation → Option String
  | importWord => some "import"
  | functionWord => some "fn"
  | _ => none

/-- The words for the place. -/
def wording : Expectation → String
  | importWord => "Expected 'import'"
  | modulePath => "Expected module name after 'import'"
  | pathSegment => "Expected module path segment after '/'"
  | importListEnd => "Expected '\x7d' after unqualified imports"
  | importAlias => "Expected alias name after 'as'"
  | functionWord => "Expected 'fn'"
  | functionName => "Expected function name after 'fn'"
  | parametersStart => "Expected '(' after function name"
  | parametersEnd => "Expected ')' after function parameters"
  | parameterName => "Expected parameter name"
  | blockStart => "Expected '\x7b' to open block"
  | blockEnd => "Expected '\x7d' to close block"
  | bindingSign => "Expected '=' in let binding"
  | useArrow => "Expected '<-' in use expression"
  | patternAlias => "Expected name after 'as' in pattern"
  | tuplePatternStart => "Expected '(' after '#' in tuple pattern"
  | tuplePatternEnd => "Expected ')' to close tuple pattern"
  | constructorPatternEnd => "Expected ')' to close constructor pattern"
  | listPatternEnd => "Expected ']' to close list pattern"
  | argumentsEnd => "Expected ')' after call arguments"
  | tupleStart => "Expected '(' after '#' in tuple"
  | tupleEnd => "Expected ')' to close tuple"
  | listEnd => "Expected ']' to close list"
  | lambdaParametersStart => "Expected '(' after 'fn'"
  | lambdaParametersEnd => "Expected ')' after anonymous function parameters"
  | clausesStart => "Expected '\x7b' after case subjects"
  | clauseArrow => "Expected '->' after case clause patterns"
  | clausesEnd => "Expected '\x7d' to close case expression"

/-- The whole message: the words for the place, then the token that was expected. -/
def message (e : Expectation) : String :=
  let wanted := match e.value with
    | some value => e.kind.label ++ " " ++ Text.quote value
    | none => e.kind.label
  e.wording ++ " (Expected " ++ wanted ++ ")"

end Expectation

/-- What is wrong with a token list at a token. -/
inductive FaultCause where
  | missing (expectation : Expectation)
  | invalidToken
  | noDefinition
  | noImportedName
  | noImportedAlias
  | ascriptionUnfinished
  | ascriptionUnbalanced
  | ascriptionEmpty
  | blockUnfinished
  | noNegatedLiteral
  | noPattern
  | noFieldLabel
  | expressionUnfinished
  | noExpression
  | clausesUnfinished
  | noClause
  deriving DecidableEq

/-- The words for a cause at a token. -/
def FaultCause.message (t : Token) : FaultCause → String
  | missing expectation => expectation.message
  | invalidToken => "Invalid token " ++ t.quotedValue
  | noDefinition => "Unexpected token type '" ++ t.kind.label ++ "' with value " ++ t.quotedValue ++ " at top level"
  | noImportedName => "Expected name in unqualified import list"
  | noImportedAlias => "Expected alias in unqualified import list"
  | ascriptionUnfinished => "Unexpected end of input inside type annotation"
  | ascriptionUnbalanced => "Unbalanced bracket in type annotation"
  | ascriptionEmpty => "Expected type annotation"
  | blockUnfinished => "Unexpected end of input, expected '\x7d' to close block"
  | noNegatedLiteral => "Expected number after '-' in pattern"
  | noPattern => "Unexpected token in pattern"
  | noFieldLabel => "Expected field name or tuple index after '.'"
  | expressionUnfinished => "Unexpected end of input while parsing expression"
  | noExpression => "Unexpected token when parsing expression"
  | clausesUnfinished => "Unexpected end of input inside case expression"
  | noClause => "Case expression must have at least one clause"

/-- A message about a token, if there is one that it is about. -/
def messageNear (message : String) : Option Token → String
  | some t => message ++ " near token " ++ t.describe ++ " (" ++ t.placeText ++ ")"
  | none => message

/-- A cause with the token at which it was found and the number of tokens before that one. -/
structure Fault where
  cause : FaultCause
  token : Token
  index : Nat
  deriving DecidableEq

/-- The words for a fault. -/
def Fault.message (f : Fault) : String :=
  messageNear (f.cause.message f.token) (some f.token)

/-- Why a reading has no answer. There is nothing to read in a list that is empty, nor in a token that has no value
where one is needed, and only a list whose last token is not the mark for the end of the input can be read without an
end. -/
inductive ReadFailure where
  | fault (fault : Fault)
  | noToken
  | endless
  deriving DecidableEq

end ScopeLint
