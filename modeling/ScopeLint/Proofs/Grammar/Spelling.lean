import Mathlib.Computability.Language
import Mathlib.Order.CompletePartialOrder
import ScopeLint.Proofs.Grammar.Word

/-!
# Spellings

The grammar, read from the trees.  Each node has a language, the set of its spellings: what its tokens may say when the
node is written down in order, its parts where they belong.  A node has several spellings only where the grammar
leaves a choice that the tree does not keep: a comma behind the last item of a list, a label in a constructor pattern,
the word `type` and the own name of an imported name, empty braces or parentheses, and the text of ascriptions.

* `Node.spelling`: the spellings of a node.  A part that cannot stand in its place has none, so a node with a spelling
  is put together as the grammar has it, with the operators of an operand tighter than the operator outside.
* `Module.Spelled`: a module is spelled by spellings of its imports and functions, those of each sort in their order.
-/

namespace ScopeLint

namespace Spelling

/-- One word of a kind. -/
def anyOf (kind : TokenKind) : Language Word :=
  {ws | ∃ text, ws = [⟨kind, text⟩]}

/-- One word. -/
def only (kind : TokenKind) (text : String) : Language Word :=
  {[⟨kind, text⟩]}

/-- The language, if a condition holds. -/
def provided (condition : Bool) (l : Language Word) : Language Word :=
  if condition then l else 0

/-- A member of the language, or nothing. -/
def optional (l : Language Word) : Language Word :=
  1 + l

/-- A member of each language with separators between them, of one language at least. -/
def separated (separator : Language Word) : List (Language Word) → Language Word
  | [] => 0
  | l :: ls => l * (ls.map (separator * ·)).prod

/-- A member of each language with commas between them, and perhaps a comma behind the last one. -/
def commaList : List (Language Word) → Language Word
  | [] => 1
  | l :: ls => separated (anyOf .comma) (l :: ls) * optional (anyOf .comma)

/-- The elements of a list with commas between them, and its tail behind two dots; a comma may stand at the end. -/
def entries (elements : List (Language Word)) : Option (Language Word) → Language Word
  | none => commaList elements
  | some tail =>
    (elements.map (· * anyOf .comma)).prod * anyOf .dotDot * tail * optional (anyOf .comma)

/-- From some depth of brackets on, the words come back to the outermost level, leave it only through brackets opened
in them, and have no stopping word there. -/
def BracketsClose (stops : List TokenKind) : Nat → List Word → Prop
  | depth, [] => depth = 0
  | depth, w :: ws =>
    w.kind ≠ .endOfInput ∧ (depth = 0 → w.kind ∉ stops) ∧
      if w.kind.opens then BracketsClose stops (depth + 1) ws
      else if w.kind.closes then 0 < depth ∧ BracketsClose stops (depth - 1) ws
      else BracketsClose stops depth ws

/-- The words of an ascription. -/
def ascription (stops : List TokenKind) : Language Word :=
  {ws | ws ≠ [] ∧ BracketsClose stops 0 ws}

/-- A label with its colon, if the tree has one. -/
def labelled : Option String → Language Word
  | none => 1
  | some label => only .name label * anyOf .colon

/-- An ascription behind its mark, if the tree has one. -/
def ascribed (mark : TokenKind) (stops : List TokenKind) : Option String → Language Word
  | none => 1
  | some _ => anyOf mark * ascription stops

/-- A minus sign and a number, whose value is their joint spelling. -/
def negated (kind : TokenKind) (value : String) : Language Word :=
  {ws | ∃ digits, value = "-" ++ digits ∧ ws ∈ only .operator "-" * only kind digits}

/-- The name of a constructor with the module that it comes from. -/
def qualified (name : String) : Language Word :=
  {ws | ∃ home own, name = home ++ "." ++ own ∧ ws ∈ only .name home * anyOf .dot * only .upName own}

/-- A name of either case. -/
def eitherName (name : String) : Language Word :=
  only .name name + only .upName name

/-- A name that is brought in: the word `type` and a name that it replaces may stand before it. -/
def importedName (name : String) : Language Word :=
  optional (only .name "type") * optional ((anyOf .name + anyOf .upName) * only .keyword "as") * eitherName name

/-- The path of a module. -/
def path (path : String) : Language Word :=
  {ws | ∃ segments, path = String.intercalate "/" segments ∧
    ws ∈ separated (only .operator "/") (segments.map (only .name))}

/-- The names that an import brings in. -/
def importedNames (names : List String) : Language Word :=
  provided names.isEmpty 1 +
    anyOf .dot * anyOf .leftBrace * commaList (names.map importedName) * anyOf .rightBrace

/-- The words that there may be behind a keyword. -/
def behindWord (keyword : String) : Option (Language Word) → Language Word
  | none => 1
  | some l => only .keyword keyword * l

end Spelling

open Spelling

mutual

/-- The spellings of a node. -/
def Node.spelling : Node → Language Word
  | .patName _ name => provided (!isDiscarded name) (only .name name)
  | .patDiscard _ name => provided (isDiscarded name) (only .name name)
  | .patTuple _ elements =>
    anyOf .hash * anyOf .leftParen * commaList (spellings Node.isPattern elements) * anyOf .rightParen
  | .patList _ elements tail =>
    anyOf .leftBracket * entries (spellings Node.isPattern elements) (tailSpelling tail) * anyOf .rightBracket
  | .patAlias _ inner name =>
    provided inner.isPattern inner.spelling * only .keyword "as" * only .name name
  | .patInt _ value => only .integer value + negated .integer value
  | .patFloat _ value => only .float value + negated .float value
  | .patString _ value => only .string value
  | .patConstructor _ name arguments =>
    (only .upName name + qualified name) *
      (provided arguments.isEmpty 1 +
        anyOf .leftParen *
          commaList ((spellings Node.isPattern arguments).map (optional (anyOf .name * anyOf .colon) * ·)) *
          anyOf .rightParen)
  | .var _ name => only .name name
  | .constructor _ name => only .upName name
  | .minus _ operand => only .operator "-" * provided (operand.isOperand 9) operand.spelling
  | .not _ operand => anyOf .bang * provided (operand.isOperand 9) operand.spelling
  | .block _ statements =>
    anyOf .leftBrace * (spellings Node.isStatement statements).prod * anyOf .rightBrace
  | .tuple _ elements =>
    anyOf .hash * anyOf .leftParen * commaList (spellings Node.isExpression elements) * anyOf .rightParen
  | .int _ value => only .integer value
  | .float _ value => only .float value
  | .string _ value => only .string value
  | .list _ elements tail =>
    anyOf .leftBracket * entries (spellings Node.isExpression elements) (spellingOption Node.isExpression tail) *
      anyOf .rightBracket
  | .argument _ value label => labelled label * provided value.isExpression value.spelling
  | .call _ function arguments =>
    provided (function.isOperand 10) function.spelling * anyOf .leftParen *
      commaList (spellings Node.isArgument arguments) * anyOf .rightParen
  | .field _ container label =>
    provided (container.isOperand 10) container.spelling * anyOf .dot * (eitherName label + only .integer label)
  | .binary _ operator left right =>
    match Grammar.tightness? operator with
    | none => 0
    | some tightness =>
      provided (left.isOperand tightness) left.spelling * only .operator operator *
        provided (right.isOperand (tightness + 1)) right.spelling
  | .clause _ alternatives guard body =>
    separated (anyOf .bar) (rowSpellings alternatives) *
      behindWord "if" (spellingOption Node.isExpression guard) * anyOf .rightArrow *
      provided body.isExpression body.spelling
  | .choice _ subjects clauses =>
    only .keyword "case" * separated (anyOf .comma) (spellings Node.isExpression subjects) * anyOf .leftBrace *
      provided (!clauses.isEmpty) (spellings Node.isClause clauses).prod * anyOf .rightBrace
  | .lambda _ parameters body =>
    only .keyword "fn" * anyOf .leftParen * commaList (spellings Node.isParameter parameters) * anyOf .rightParen *
      optional (anyOf .rightArrow * ascription [.leftBrace]) *
      (anyOf .leftBrace * (spellings Node.isStatement body).prod * anyOf .rightBrace)
  | .todo _ message => only .keyword "todo" * behindWord "as" (spellingOption Node.isExpression message)
  | .panic _ message => only .keyword "panic" * behindWord "as" (spellingOption Node.isExpression message)
  | .assignment _ pattern value asserted text =>
    only .keyword "let" * (if asserted then only .keyword "assert" else 1) *
      provided pattern.isPattern pattern.spelling * ascribed .colon [.equal] text * anyOf .equal *
      provided value.isExpression value.spelling
  | .use _ patterns function =>
    only .keyword "use" *
      commaList ((spellings Node.isPattern patterns).map
        (· * optional (anyOf .colon * ascription [.comma, .leftArrow]))) *
      anyOf .leftArrow * provided function.isExpression function.spelling
  | .expression _ inner => provided inner.isExpression inner.spelling
  | .parameter _ name label text =>
    (match label with
      | none => 1
      | some label => only .name label) *
      only .name name * ascribed .colon [.comma, .rightParen] text
  | .function _ name visibility parameters body text =>
    (match visibility with
      | .pub => only .keyword "pub"
      | .priv => 1) *
      only .keyword "fn" * only .name name * anyOf .leftParen * commaList (spellings Node.isParameter parameters) *
      anyOf .rightParen * ascribed .rightArrow [.leftBrace] text *
      (anyOf .leftBrace * (spellings Node.isStatement body).prod * anyOf .rightBrace)
  | .importing _ modulePath asName names =>
    only .keyword "import" * path modulePath * importedNames names * behindWord "as" (asName.map (only .name))
  | .wholeModule .. | .unknown .. => 0

/-- The spellings of nodes that may stand in a place. -/
def spellings (fits : Node → Bool) : List Node → List (Language Word)
  | [] => []
  | node :: nodes => provided (fits node) node.spelling :: spellings fits nodes

/-- The spellings of the node that there may be. -/
def spellingOption (fits : Node → Bool) : Option Node → Option (Language Word)
  | none => none
  | some node => some (provided (fits node) node.spelling)

/-- The spellings of the tail of a list pattern. -/
def tailSpelling : Option Node → Option (Language Word)
  | none => none
  | some node => some (provided node.isBareTail 1 + provided node.isPattern node.spelling)

/-- The spellings of alternatives, each with a pattern for every subject. -/
def rowSpellings : List (List Node) → List (Language Word)
  | [] => []
  | row :: rows => separated (anyOf .comma) (spellings Node.isPattern row) :: rowSpellings rows

end

/-- The spellings of a node where nodes of a sort may stand. -/
def Node.spellingAs (fits : Node → Bool) (node : Node) : Language Word :=
  provided (fits node) node.spelling

theorem Node.spellingAs_of_fits {fits : Node → Bool} {node : Node} (h : fits node = true) :
    node.spellingAs fits = node.spelling := by
  rw [spellingAs, h, provided, if_pos rfl]

theorem spellings_eq_map (fits : Node → Bool) (nodes : List Node) :
    spellings fits nodes = nodes.map (Node.spellingAs fits) := by
  induction nodes with
  | nil => rw [spellings, List.map_nil]
  | cons node nodes ih => rw [spellings, List.map_cons, ih, Node.spellingAs]

theorem spellingOption_eq_map (fits : Node → Bool) (node : Option Node) :
    spellingOption fits node = node.map (Node.spellingAs fits) := by
  cases node <;> simp only [spellingOption, Option.map_none, Option.map_some, Node.spellingAs]

theorem tailSpelling_eq_map (node : Option Node) :
    tailSpelling node = node.map fun p => provided p.isBareTail 1 + p.spellingAs Node.isPattern := by
  cases node <;> simp only [tailSpelling, Option.map_none, Option.map_some, Node.spellingAs]

theorem rowSpellings_eq_map (rows : List (List Node)) :
    rowSpellings rows = rows.map fun row => separated (anyOf .comma) (row.map (Node.spellingAs Node.isPattern)) := by
  induction rows with
  | nil => rw [rowSpellings, List.map_nil]
  | cons row rows ih => rw [rowSpellings, List.map_cons, ih, spellings_eq_map]

/-- The words spell functions and imports, those of each sort in their order. -/
inductive DefinitionsSpelled : List Node → List Node → List Word → Prop where
  | nothing : DefinitionsSpelled [] [] []
  | function {node : Node} {functions imports : List Node} {ws vs : List Word} (stands : node.isFunction = true)
      (head : ws ∈ node.spelling) (rest : DefinitionsSpelled functions imports vs) :
      DefinitionsSpelled (node :: functions) imports (ws ++ vs)
  | importing {node : Node} {functions imports : List Node} {ws vs : List Word} (stands : node.isImport = true)
      (head : ws ∈ node.spelling) (rest : DefinitionsSpelled functions imports vs) :
      DefinitionsSpelled functions (node :: imports) (ws ++ vs)

/-- The words spell a module. -/
def Module.Spelled (m : Module) (ws : List Word) : Prop :=
  DefinitionsSpelled m.functions m.imports ws

end ScopeLint
