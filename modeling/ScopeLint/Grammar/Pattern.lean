import ScopeLint.Grammar.Reading

/-!
# Patterns

The rules for patterns. A rule that holds further patterns takes the reading of those as an argument; `pattern`
ties the knot. Each pattern stands where its first token stands.
-/

namespace ScopeLint.Grammar

open Reading

/-- A label: a name with a colon behind it. -/
def label? : Reading (Option String) := do
  if (← sees .name) && (← seesNext .colon) then
    let name ← advance
    let _ ← advance
    return some name.text
  else return none

/-- An argument of a constructor pattern, perhaps with a label, which binds nothing. -/
def patternArgument (inner : Reading Node) : Reading Node := do
  let _ ← label?
  inner

/-- The arguments of a constructor pattern; without parentheses there are none. -/
def patternArguments (inner : Reading Node) : Reading (List Node) := do
  if ← accepts .leftParen then
    let arguments ← commaList (patternArgument inner) .rightParen
    let _ ← expect .constructorPatternEnd
    return arguments
  else return []

/-- A pattern that starts with a name: a constructor of another module, or a name, which is not bound if it starts
with an underscore. -/
def namePattern (inner : Reading Node) : Reading Node := do
  let t ← advance
  if (← sees .dot) && (← seesNext .upName) then
    let _ ← advance
    let constructor ← advance
    return .patConstructor t.anchor (t.text ++ "." ++ constructor.text) (← patternArguments inner)
  else
    let name ← valueOf t
    if isDiscarded name then return .patDiscard t.anchor name else return .patName t.anchor name

/-- The negated literal behind a minus sign. -/
def negatedPattern : Reading Node := do
  let t ← advance
  let number ← current
  match number.kind with
  | .integer =>
    let _ ← advance
    return .patInt t.anchor ("-" ++ (← valueOf number))
  | .float =>
    let _ ← advance
    return .patFloat t.anchor ("-" ++ (← valueOf number))
  | _ => fail .noNegatedLiteral

/-- The elements of a tuple pattern. -/
def tuplePattern (inner : Reading Node) : Reading Node := do
  let t ← advance
  let _ ← expect .tuplePatternStart
  let elements ← commaList inner .rightParen
  let _ ← expect .tuplePatternEnd
  return .patTuple t.anchor elements

/-- An entry of a list: one more element, or the tail that ends the list. -/
inductive Entry where
  | element (node : Node)
  | tail (node : Node)

/-- The elements among the entries of a list. -/
def Entry.elements (entries : List Entry) : List Node :=
  entries.filterMap fun
    | element node => some node
    | tail _ => none

/-- The tail among the entries of a list, if it has one. -/
def Entry.tail? (entries : List Entry) : Option Node :=
  entries.findSome? fun
    | element _ => none
    | tail node => some node

/-- The entries of a list up to its closing bracket, which is not read. Two dots start the tail, behind which there
may be a comma but no further entry. -/
def entries (element : Reading Node) (tail : Token → Reading Node) : Reading (List Entry) :=
  collect do
    if ← sees .rightBracket then return .stop
    else
      let t ← current
      if ← accepts .dotDot then
        let node ← tail t
        let _ ← accepts .comma
        return .last (.tail node)
      else
        let node ← element
        if ← accepts .comma then return .more (.element node) else return .last (.element node)

/-- The tail of a list pattern behind its two dots; without a pattern it matches anything. -/
def tailPattern (inner : Reading Node) (dots : Token) : Reading Node := do
  if (← sees .rightBracket) || (← sees .comma) then return .patDiscard dots.anchor "" else inner

/-- A list pattern. -/
def listPattern (inner : Reading Node) : Reading Node := do
  let t ← advance
  let es ← entries inner (tailPattern inner)
  let _ ← expect .listPatternEnd
  return .patList t.anchor (Entry.elements es) (Entry.tail? es)

/-- A pattern without the names given to its whole match. -/
def primaryPattern (inner : Reading Node) : Reading Node := do
  let t ← current
  match t.kind with
  | .name => namePattern inner
  | .upName =>
    let _ ← advance
    return .patConstructor t.anchor t.text (← patternArguments inner)
  | .integer =>
    let _ ← advance
    return .patInt t.anchor t.text
  | .float =>
    let _ ← advance
    return .patFloat t.anchor t.text
  | .string =>
    let _ ← advance
    return .patString t.anchor t.text
  | .operator => if t.value = some "-" then negatedPattern else fail .noPattern
  | .hash => tuplePattern inner
  | .leftBracket => listPattern inner
  | .invalid => fail .invalidToken
  | _ => fail .noPattern

/-- A pattern with the names given to its whole match, the innermost first. -/
def patternWith (inner : Reading Node) : Reading Node := do
  let t ← current
  let primary ← primaryPattern inner
  let names ← collect do
    if ← acceptsWord .keyword "as" then return .more (← expect .patternAlias).text else return .stop
  return names.foldl (.patAlias t.anchor) primary

/-- A pattern nested no deeper than a bound. -/
def patternWithin : Nat → Reading Node
  | 0 => failing .endless
  | depth + 1 => patternWith (patternWithin depth)

/-- A pattern. Each level of nesting passes over a token, so the tokens ahead bound the depth. -/
def pattern : Reading Node := do
  patternWithin (← cursor).reach

end ScopeLint.Grammar
