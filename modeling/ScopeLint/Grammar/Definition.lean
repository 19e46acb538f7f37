import ScopeLint.Grammar.Expression

/-!
# Modules

The rules for imports, functions and whole modules.
-/

namespace ScopeLint.Grammar

open Reading

/-- A name of either case, or a fault. -/
def nameOr (cause : FaultCause) : Reading Token := do
  let t ← current
  match t.kind with
  | .name | .upName => advance
  | _ => fail cause

/-- A name that an import brings in: the alias if there is one. -/
def importedName : Reading String := do
  let _ ← acceptsWord .name "type"
  let name ← nameOr .noImportedName
  if ← acceptsWord .keyword "as" then return (← nameOr .noImportedAlias).text else return name.text

/-- The names that an import brings in, in braces behind a dot. -/
def importedNames : Reading (List String) := do
  if (← sees .dot) && (← seesNext .leftBrace) then
    let _ ← advance
    let _ ← advance
    let names ← commaList importedName .rightBrace
    let _ ← expect .importListEnd
    return names
  else return []

/-- An import. -/
def importing : Reading Node :=
  traced .importing .node do
    let t ← expect .importWord
    let path ← separated (expect .modulePath) (acceptsWord .operator "/") (expect .pathSegment)
    let names ← importedNames
    let asName ← behind (acceptsWord .keyword "as") (expect .importAlias)
    let segments ← path.mapM valueOf
    return .importing t.anchor (String.intercalate "/" segments) (asName.map Token.text) names

/-- A function. -/
def function : Reading Node :=
  traced .function .node do
    let t ← current
    let visible ← acceptsWord .keyword "pub"
    let _ ← expect .functionWord
    let name ← expect .functionName
    let _ ← expect .parametersStart
    let parameters ← commaList parameter .rightParen
    let _ ← expect .parametersEnd
    let ascription ← ascriptionBehind .rightArrow [.leftBrace]
    let body ← block expression
    return .function t.anchor name.text (if visible then .pub else .priv) parameters body ascription

/-- A part of a module. -/
inductive Definition where
  | importing (node : Node)
  | function (node : Node)

/-- The imports among the parts of a module. -/
def Definition.imports (definitions : List Definition) : List Node :=
  definitions.filterMap fun
    | importing node => some node
    | function _ => none

/-- The functions among the parts of a module. -/
def Definition.functions (definitions : List Definition) : List Node :=
  definitions.filterMap fun
    | importing _ => none
    | function node => some node

/-- One more part of a module. -/
def definition : Reading (Round Definition) := do
  let t ← current
  if t.kind = .endOfInput then return .stop
  else if t.is .keyword (some "import") then return .more (.importing (← importing))
  else if t.is .keyword (some "pub") || t.is .keyword (some "fn") then return .more (.function (← function))
  else fail .noDefinition

/-- A whole module. -/
def wholeModule : Reading Module :=
  traced .wholeModule (fun m => .node m.toNode) do
    let t ← current
    let definitions ← collect definition
    let functions := Definition.functions definitions
    let imports := Definition.imports definitions
    note (.counted functions.length imports.length)
    return ⟨t.anchor, functions, imports⟩

end ScopeLint.Grammar

namespace ScopeLint

/-- Reads from the first token of a list. -/
def Reading.onTokens {α : Type} (r : Reading α) (tokens : List Token) :
    Logged ReadEvent (Except ReadFailure (α × Cursor)) :=
  match Cursor.ofTokens? tokens with
  | some c => ⟨.opened c.current :: (r c).events, (r c).value⟩
  | none => .silent (.error .noToken)

/-- The module that a token list spells. -/
def Module.ofTokens (tokens : List Token) : Except ReadFailure Module :=
  (Grammar.wholeModule.onTokens tokens).value.map Prod.fst

end ScopeLint
