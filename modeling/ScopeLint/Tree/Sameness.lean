import ScopeLint.Tree.Node

/-!
# Sameness of trees

Two trees are the same when they have the same kinds and parts, wherever their nodes stand. `Node.unplaced` forgets
where the nodes of a tree stand; `Node.same` compares two trees without looking at where their nodes stand.
-/

namespace ScopeLint

mutual

/-- The tree with every node standing nowhere. -/
def Node.unplaced : Node → Node
  | .patName _ name => .patName .nowhere name
  | .patDiscard _ name => .patDiscard .nowhere name
  | .patTuple _ elements => .patTuple .nowhere (unplacedAll elements)
  | .patList _ elements tail => .patList .nowhere (unplacedAll elements) (unplacedOption tail)
  | .patAlias _ inner name => .patAlias .nowhere inner.unplaced name
  | .patInt _ value => .patInt .nowhere value
  | .patFloat _ value => .patFloat .nowhere value
  | .patString _ value => .patString .nowhere value
  | .patConstructor _ name arguments => .patConstructor .nowhere name (unplacedAll arguments)
  | .var _ name => .var .nowhere name
  | .constructor _ name => .constructor .nowhere name
  | .minus _ operand => .minus .nowhere operand.unplaced
  | .not _ operand => .not .nowhere operand.unplaced
  | .block _ statements => .block .nowhere (unplacedAll statements)
  | .tuple _ elements => .tuple .nowhere (unplacedAll elements)
  | .int _ value => .int .nowhere value
  | .float _ value => .float .nowhere value
  | .string _ value => .string .nowhere value
  | .list _ elements tail => .list .nowhere (unplacedAll elements) (unplacedOption tail)
  | .argument _ value label => .argument .nowhere value.unplaced label
  | .call _ function arguments => .call .nowhere function.unplaced (unplacedAll arguments)
  | .field _ container label => .field .nowhere container.unplaced label
  | .binary _ operator left right => .binary .nowhere operator left.unplaced right.unplaced
  | .clause _ alternatives guard body =>
    .clause .nowhere (unplacedRows alternatives) (unplacedOption guard) body.unplaced
  | .choice _ subjects clauses => .choice .nowhere (unplacedAll subjects) (unplacedAll clauses)
  | .lambda _ parameters body => .lambda .nowhere (unplacedAll parameters) (unplacedAll body)
  | .todo _ message => .todo .nowhere (unplacedOption message)
  | .panic _ message => .panic .nowhere (unplacedOption message)
  | .assignment _ pattern value asserted ascription =>
    .assignment .nowhere pattern.unplaced value.unplaced asserted ascription
  | .use _ patterns function => .use .nowhere (unplacedAll patterns) function.unplaced
  | .expression _ inner => .expression .nowhere inner.unplaced
  | .parameter _ name label ascription => .parameter .nowhere name label ascription
  | .function _ name visibility parameters body ascription =>
    .function .nowhere name visibility (unplacedAll parameters) (unplacedAll body) ascription
  | .importing _ path asName names => .importing .nowhere path asName names
  | .wholeModule _ functions imports => .wholeModule .nowhere (unplacedAll functions) (unplacedAll imports)
  | .unknown _ kind => .unknown .nowhere kind

/-- The nodes of a list, unplaced. -/
def unplacedAll : List Node → List Node
  | [] => []
  | node :: nodes => node.unplaced :: unplacedAll nodes

/-- The node that there may be, unplaced. -/
def unplacedOption : Option Node → Option Node
  | none => none
  | some node => some node.unplaced

/-- The nodes of the alternatives of a clause, unplaced. -/
def unplacedRows : List (List Node) → List (List Node)
  | [] => []
  | nodes :: rows => unplacedAll nodes :: unplacedRows rows

end

mutual

/-- Two trees have the same kinds and parts, wherever their nodes stand. -/
def Node.same (a b : Node) : Bool :=
  match a with
  | .patName _ name =>
    match b with
    | .patName _ name' => name == name'
    | _ => false
  | .patDiscard _ name =>
    match b with
    | .patDiscard _ name' => name == name'
    | _ => false
  | .patTuple _ elements =>
    match b with
    | .patTuple _ elements' => sameAll elements elements'
    | _ => false
  | .patList _ elements tail =>
    match b with
    | .patList _ elements' tail' => sameAll elements elements' && sameOption tail tail'
    | _ => false
  | .patAlias _ inner name =>
    match b with
    | .patAlias _ inner' name' => inner.same inner' && name == name'
    | _ => false
  | .patInt _ value =>
    match b with
    | .patInt _ value' => value == value'
    | _ => false
  | .patFloat _ value =>
    match b with
    | .patFloat _ value' => value == value'
    | _ => false
  | .patString _ value =>
    match b with
    | .patString _ value' => value == value'
    | _ => false
  | .patConstructor _ name arguments =>
    match b with
    | .patConstructor _ name' arguments' => name == name' && sameAll arguments arguments'
    | _ => false
  | .var _ name =>
    match b with
    | .var _ name' => name == name'
    | _ => false
  | .constructor _ name =>
    match b with
    | .constructor _ name' => name == name'
    | _ => false
  | .minus _ operand =>
    match b with
    | .minus _ operand' => operand.same operand'
    | _ => false
  | .not _ operand =>
    match b with
    | .not _ operand' => operand.same operand'
    | _ => false
  | .block _ statements =>
    match b with
    | .block _ statements' => sameAll statements statements'
    | _ => false
  | .tuple _ elements =>
    match b with
    | .tuple _ elements' => sameAll elements elements'
    | _ => false
  | .int _ value =>
    match b with
    | .int _ value' => value == value'
    | _ => false
  | .float _ value =>
    match b with
    | .float _ value' => value == value'
    | _ => false
  | .string _ value =>
    match b with
    | .string _ value' => value == value'
    | _ => false
  | .list _ elements tail =>
    match b with
    | .list _ elements' tail' => sameAll elements elements' && sameOption tail tail'
    | _ => false
  | .argument _ value label =>
    match b with
    | .argument _ value' label' => value.same value' && label == label'
    | _ => false
  | .call _ function arguments =>
    match b with
    | .call _ function' arguments' => function.same function' && sameAll arguments arguments'
    | _ => false
  | .field _ container label =>
    match b with
    | .field _ container' label' => container.same container' && label == label'
    | _ => false
  | .binary _ operator left right =>
    match b with
    | .binary _ operator' left' right' => operator == operator' && left.same left' && right.same right'
    | _ => false
  | .clause _ alternatives guard body =>
    match b with
    | .clause _ alternatives' guard' body' =>
      sameRows alternatives alternatives' && sameOption guard guard' && body.same body'
    | _ => false
  | .choice _ subjects clauses =>
    match b with
    | .choice _ subjects' clauses' => sameAll subjects subjects' && sameAll clauses clauses'
    | _ => false
  | .lambda _ parameters body =>
    match b with
    | .lambda _ parameters' body' => sameAll parameters parameters' && sameAll body body'
    | _ => false
  | .todo _ message =>
    match b with
    | .todo _ message' => sameOption message message'
    | _ => false
  | .panic _ message =>
    match b with
    | .panic _ message' => sameOption message message'
    | _ => false
  | .assignment _ pattern value asserted ascription =>
    match b with
    | .assignment _ pattern' value' asserted' ascription' =>
      pattern.same pattern' && value.same value' && asserted == asserted' && ascription == ascription'
    | _ => false
  | .use _ patterns function =>
    match b with
    | .use _ patterns' function' => sameAll patterns patterns' && function.same function'
    | _ => false
  | .expression _ inner =>
    match b with
    | .expression _ inner' => inner.same inner'
    | _ => false
  | .parameter _ name label ascription =>
    match b with
    | .parameter _ name' label' ascription' => name == name' && label == label' && ascription == ascription'
    | _ => false
  | .function _ name visibility parameters body ascription =>
    match b with
    | .function _ name' visibility' parameters' body' ascription' =>
      name == name' && visibility == visibility' && sameAll parameters parameters'
        && sameAll body body' && ascription == ascription'
    | _ => false
  | .importing _ path asName names =>
    match b with
    | .importing _ path' asName' names' => path == path' && asName == asName' && names == names'
    | _ => false
  | .wholeModule _ functions imports =>
    match b with
    | .wholeModule _ functions' imports' => sameAll functions functions' && sameAll imports imports'
    | _ => false
  | .unknown _ kind =>
    match b with
    | .unknown _ kind' => kind == kind'
    | _ => false

/-- Two lists have the same nodes in the same order. -/
def sameAll : List Node → List Node → Bool
  | [], [] => true
  | node :: nodes, node' :: nodes' => node.same node' && sameAll nodes nodes'
  | _, _ => false

/-- Both nodes are missing, or they are the same. -/
def sameOption : Option Node → Option Node → Bool
  | none, none => true
  | some node, some node' => node.same node'
  | _, _ => false

/-- Two lists of alternatives have the same nodes in the same order. -/
def sameRows : List (List Node) → List (List Node) → Bool
  | [], [] => true
  | nodes :: rows, nodes' :: rows' => sameAll nodes nodes' && sameRows rows rows'
  | _, _ => false

end

end ScopeLint
