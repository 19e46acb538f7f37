import ScopeLint.Proofs.Grammar.Word
import ScopeLint.Tree.Sameness

/-!
# Printing trees

One text for each tree.  Its words stand between single spaces, and where the grammar leaves a choice the text has the
shorter spelling, apart from the word `type` before every imported name: no comma behind the last item of a list, no
labels in constructor patterns, no empty parentheses or braces, no ascriptions.  The imports of a module come before its
functions.

* `Node.words`, `Module.words`: the words of a tree.
* `Module.printed`: the text of a module.
* `Node.withoutAscriptions`: what the text of a tree keeps of it.
-/

namespace ScopeLint

/-! ### Words -/

/-- Word lists with a separator between them. -/
def joined (separator : Word) : List (List Word) → List Word
  | [] => []
  | [ws] => ws
  | ws :: vs :: rest => ws ++ separator :: joined separator (vs :: rest)

theorem joined_cons (separator : Word) {ws : List Word} {ls : List (List Word)} (hls : ls ≠ []) :
    joined separator (ws :: ls) = ws ++ separator :: joined separator ls := by
  cases ls with
  | nil => exact absurd rfl hls
  | cons vs ls => rw [joined]

theorem joined_eq_flatMap (separator : Word) (ws : List Word) (ls : List (List Word)) :
    joined separator (ws :: ls) = ws ++ ls.flatMap fun vs => separator :: vs := by
  induction ls generalizing ws with
  | nil => simp [joined]
  | cons vs ls ih => rw [joined, ih, List.flatMap_cons, List.cons_append]

/-- The words of a number in a pattern, which may be negated. -/
def numberWords (kind : TokenKind) (value : String) : List Word :=
  match value.toList with
  | '-' :: digits => [⟨.operator, "-"⟩, ⟨kind, String.ofList digits⟩]
  | _ => [⟨kind, value⟩]

/-- The words of the name of a constructor, which may have the name of a module before it. -/
def constructorWords (name : String) : List Word :=
  match name.toList.dropWhile (· ≠ '.') with
  | [] => [⟨.upName, name⟩]
  | _ :: own =>
    [⟨.name, String.ofList (name.toList.takeWhile (· ≠ '.'))⟩, .mark .dot, ⟨.upName, String.ofList own⟩]

/-- The word that is the label of a field: a name of either case, or the place of an element. -/
def fieldWord (label : String) : Word :=
  if label.toList.head?.any Text.isDigit then ⟨.integer, label⟩ else ⟨Lexeme.wordKind label.toList, label⟩

/-- The words of the arguments of a constructor pattern; there are no empty parentheses. -/
def argumentWords (arguments : List (List Word)) : List Word :=
  if arguments.isEmpty then [] else .mark .leftParen :: (joined (.mark .comma) arguments ++ [.mark .rightParen])

/-- The words of the path of a module. -/
def pathWords (path : String) : List Word :=
  joined ⟨.operator, "/"⟩ ((path.toList.splitOn '/').map fun segment => [⟨.name, String.ofList segment⟩])

/-- The words of a name that an import brings in. -/
def importedNameWords (name : String) : List Word :=
  [⟨.name, "type"⟩, ⟨Lexeme.wordKind name.toList, name⟩]

/-- The words of the names that an import brings in; there are no empty braces. -/
def importedWords (names : List String) : List Word :=
  if names.isEmpty then []
  else .mark .dot :: .mark .leftBrace :: (joined (.mark .comma) (names.map importedNameWords) ++ [.mark .rightBrace])

/-- The words behind a keyword, if there are any. -/
def wordsBehind (keyword : String) : Option (List Word) → List Word
  | none => []
  | some ws => ⟨.keyword, keyword⟩ :: ws

/-- The words of a list behind its opening bracket: the elements, then two dots and the tail. -/
def entryWords (elements : List (List Word)) : Option (List Word) → List Word
  | none => joined (.mark .comma) elements
  | some tail => joined (.mark .comma) (elements ++ [.mark .dotDot :: tail])

/-! ### Trees -/

mutual

/-- The words of a node. -/
def Node.words : Node → List Word
  | .patName _ name | .patDiscard _ name | .var _ name => [⟨.name, name⟩]
  | .patTuple _ elements | .tuple _ elements =>
    .mark .hash :: .mark .leftParen :: (joined (.mark .comma) (wordsAll elements) ++ [.mark .rightParen])
  | .patList _ elements tail =>
    .mark .leftBracket :: (entryWords (wordsAll elements) (tailWords tail) ++ [.mark .rightBracket])
  | .patAlias _ inner name => inner.words ++ [⟨.keyword, "as"⟩, ⟨.name, name⟩]
  | .patInt _ value => numberWords .integer value
  | .patFloat _ value => numberWords .float value
  | .patString _ value | .string _ value => [⟨.string, value⟩]
  | .patConstructor _ name arguments => constructorWords name ++ argumentWords (wordsAll arguments)
  | .constructor _ name => [⟨.upName, name⟩]
  | .minus _ operand => ⟨.operator, "-"⟩ :: operand.words
  | .not _ operand => .mark .bang :: operand.words
  | .block _ statements => .mark .leftBrace :: ((wordsAll statements).flatten ++ [.mark .rightBrace])
  | .int _ value => [⟨.integer, value⟩]
  | .float _ value => [⟨.float, value⟩]
  | .list _ elements tail =>
    .mark .leftBracket :: (entryWords (wordsAll elements) (wordsOption tail) ++ [.mark .rightBracket])
  | .argument _ value label =>
    match label with
    | none => value.words
    | some label => ⟨.name, label⟩ :: .mark .colon :: value.words
  | .call _ function arguments =>
    function.words ++ .mark .leftParen :: (joined (.mark .comma) (wordsAll arguments) ++ [.mark .rightParen])
  | .field _ container label => container.words ++ [.mark .dot, fieldWord label]
  | .binary _ operator left right => left.words ++ ⟨.operator, operator⟩ :: right.words
  | .clause _ alternatives guard body =>
    joined (.mark .bar) (wordsRows alternatives) ++ wordsBehind "if" (wordsOption guard) ++
      .mark .rightArrow :: body.words
  | .choice _ subjects clauses =>
    ⟨.keyword, "case"⟩ :: (joined (.mark .comma) (wordsAll subjects) ++
      .mark .leftBrace :: ((wordsAll clauses).flatten ++ [.mark .rightBrace]))
  | .lambda _ parameters body =>
    ⟨.keyword, "fn"⟩ :: .mark .leftParen :: (joined (.mark .comma) (wordsAll parameters) ++
      .mark .rightParen :: .mark .leftBrace :: ((wordsAll body).flatten ++ [.mark .rightBrace]))
  | .todo _ message => ⟨.keyword, "todo"⟩ :: wordsBehind "as" (wordsOption message)
  | .panic _ message => ⟨.keyword, "panic"⟩ :: wordsBehind "as" (wordsOption message)
  | .assignment _ pattern value asserted _ =>
    ⟨.keyword, "let"⟩ :: ((if asserted then [⟨.keyword, "assert"⟩] else []) ++ pattern.words ++
      .mark .equal :: value.words)
  | .use _ patterns function =>
    ⟨.keyword, "use"⟩ :: (joined (.mark .comma) (wordsAll patterns) ++ .mark .leftArrow :: function.words)
  | .expression _ inner => inner.words
  | .parameter _ name label _ =>
    match label with
    | none => [⟨.name, name⟩]
    | some label => [⟨.name, label⟩, ⟨.name, name⟩]
  | .function _ name visibility parameters body _ =>
    (match visibility with
      | .pub => [⟨.keyword, "pub"⟩]
      | .priv => []) ++
      ⟨.keyword, "fn"⟩ :: ⟨.name, name⟩ :: .mark .leftParen :: (joined (.mark .comma) (wordsAll parameters) ++
        .mark .rightParen :: .mark .leftBrace :: ((wordsAll body).flatten ++ [.mark .rightBrace]))
  | .importing _ path asName names =>
    ⟨.keyword, "import"⟩ ::
      (pathWords path ++ importedWords names ++ wordsBehind "as" (asName.map fun name => [⟨.name, name⟩]))
  | .wholeModule _ functions imports => (wordsAll imports).flatten ++ (wordsAll functions).flatten
  | .unknown .. => []

/-- The words of each node of a list. -/
def wordsAll : List Node → List (List Word)
  | [] => []
  | node :: nodes => node.words :: wordsAll nodes

/-- The words of the node that there may be. -/
def wordsOption : Option Node → Option (List Word)
  | none => none
  | some node => some node.words

/-- The words of the tail of a list pattern, which may be its two dots only. -/
def tailWords : Option Node → Option (List Word)
  | none => none
  | some node => some (if node.isBareTail then [] else node.words)

/-- The words of alternatives, each with a pattern for every subject. -/
def wordsRows : List (List Node) → List (List Word)
  | [] => []
  | row :: rows => joined (.mark .comma) (wordsAll row) :: wordsRows rows

end

attribute [simp] Node.words

/-- The words of a module. -/
def Module.words (m : Module) : List Word :=
  m.toNode.words

/-- The text of a module. -/
def Module.printed (m : Module) : List Char :=
  [' '].intercalate (m.words.map Word.spelled)

/-! ### What a text keeps of a tree -/

mutual

/-- The tree without the texts of ascriptions. -/
def Node.withoutAscriptions : Node → Node
  | .patTuple a elements => .patTuple a (withoutAscriptionsAll elements)
  | .patList a elements tail => .patList a (withoutAscriptionsAll elements) (withoutAscriptionsOption tail)
  | .patAlias a inner name => .patAlias a inner.withoutAscriptions name
  | .patConstructor a name arguments => .patConstructor a name (withoutAscriptionsAll arguments)
  | .minus a operand => .minus a operand.withoutAscriptions
  | .not a operand => .not a operand.withoutAscriptions
  | .block a statements => .block a (withoutAscriptionsAll statements)
  | .tuple a elements => .tuple a (withoutAscriptionsAll elements)
  | .list a elements tail => .list a (withoutAscriptionsAll elements) (withoutAscriptionsOption tail)
  | .argument a value label => .argument a value.withoutAscriptions label
  | .call a function arguments => .call a function.withoutAscriptions (withoutAscriptionsAll arguments)
  | .field a container label => .field a container.withoutAscriptions label
  | .binary a operator left right => .binary a operator left.withoutAscriptions right.withoutAscriptions
  | .clause a alternatives guard body =>
    .clause a (withoutAscriptionsRows alternatives) (withoutAscriptionsOption guard) body.withoutAscriptions
  | .choice a subjects clauses => .choice a (withoutAscriptionsAll subjects) (withoutAscriptionsAll clauses)
  | .lambda a parameters body => .lambda a (withoutAscriptionsAll parameters) (withoutAscriptionsAll body)
  | .todo a message => .todo a (withoutAscriptionsOption message)
  | .panic a message => .panic a (withoutAscriptionsOption message)
  | .assignment a pattern value asserted _ =>
    .assignment a pattern.withoutAscriptions value.withoutAscriptions asserted none
  | .use a patterns function => .use a (withoutAscriptionsAll patterns) function.withoutAscriptions
  | .expression a inner => .expression a inner.withoutAscriptions
  | .parameter a name label _ => .parameter a name label none
  | .function a name visibility parameters body _ =>
    .function a name visibility (withoutAscriptionsAll parameters) (withoutAscriptionsAll body) none
  | .wholeModule a functions imports =>
    .wholeModule a (withoutAscriptionsAll functions) (withoutAscriptionsAll imports)
  | node => node

/-- The nodes of a list, without the texts of ascriptions. -/
def withoutAscriptionsAll : List Node → List Node
  | [] => []
  | node :: nodes => node.withoutAscriptions :: withoutAscriptionsAll nodes

/-- The node that there may be, without the texts of ascriptions. -/
def withoutAscriptionsOption : Option Node → Option Node
  | none => none
  | some node => some node.withoutAscriptions

/-- The nodes of alternatives, without the texts of ascriptions. -/
def withoutAscriptionsRows : List (List Node) → List (List Node)
  | [] => []
  | row :: rows => withoutAscriptionsAll row :: withoutAscriptionsRows rows

end

attribute [simp] Node.withoutAscriptions Node.same

/-- The module without the texts of ascriptions. -/
def Module.withoutAscriptions (m : Module) : Module :=
  ⟨m.anchor, withoutAscriptionsAll m.functions, withoutAscriptionsAll m.imports⟩

end ScopeLint
