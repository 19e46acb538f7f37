import ScopeLint.Log
import ScopeLint.Token.Basic
import ScopeLint.Tree.Describe

/-!
# What reading tells

The events that arise while a token list is read: which rules are entered and left, and what a rule has read. The
text of what was read is cut when it is long.
-/

namespace ScopeLint

/-- The rules whose use is told. -/
inductive Rule where
  | wholeModule
  | importing
  | function
  | block
  | assignment
  | use
  | primary
  | choice
  deriving DecidableEq

/-- The name of a rule in records. -/
def Rule.name : Rule → String
  | wholeModule => "parse"
  | importing => "parse_import"
  | function => "parse_function"
  | block => "parse_block_body"
  | assignment => "_parse_assignment"
  | use => "_parse_use"
  | primary => "_parse_primary"
  | choice => "_parse_case"

/-- What a rule reads. -/
inductive Product where
  | node (node : Node)
  | nodes (nodes : List Node)

/-- The debug text of what was read. -/
def Product.describe : Product → String
  | node n => n.describe
  | nodes ns => bracketed (describeAll ns)

/-- Something that reading tells. -/
inductive ReadEvent where
  | opened (first : Token)
  | entered (rule : Rule)
  | left (rule : Rule) (product : Product)
  | counted (functions imports : Nat)

/-- The text, or its beginning and three dots if it is longer than a hundred characters. -/
def shortened (text : String) : String :=
  if text.length > 100 then String.ofList (text.toList.take 97) ++ "..." else text

/-- How much an event of reading matters. -/
def ReadEvent.level : ReadEvent → Level
  | counted _ _ => .info
  | _ => .debug

/-- The words for an event of reading. -/
def ReadEvent.message : ReadEvent → String
  | opened first => "[Parser State @ Pos 0] Parser initialized. Token=" ++ first.describe
  | entered rule => "--> Entering " ++ rule.name
  | left rule product => "<-- Exiting " ++ rule.name ++ ". Result: " ++ shortened product.describe
  | counted functions imports =>
    "Parsed module with " ++ toString functions ++ " function(s) and " ++ toString imports ++ " import(s)"

/-- The record of an event of reading. -/
def ReadEvent.record (e : ReadEvent) : Record :=
  ⟨.parser, e.level, e.message⟩

end ScopeLint
