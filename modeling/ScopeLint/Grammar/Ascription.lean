import ScopeLint.Grammar.Reading

/-!
# Type ascriptions

The grammar of types is not checked: an ascription goes up to the first token of a stopping kind that stands
outside all brackets opened in it, and only the nesting of brackets is watched, whatever their shapes. The text of
an ascription is rebuilt from the tokens that lie in its range of the source.
-/

namespace ScopeLint

/-- What comes of an ascription that the last token of a list, which stays current for ever, does not stop at once:
a closing bracket comes down to the outermost level, where it stops the ascription or is one too many. -/
def ascriptionStuck (stops : List TokenKind) (before : List Token) (t : Token) : Except ReadFailure Cursor :=
  if t.kind.closes then
    if t.kind ∈ stops then .ok ⟨before, t, []⟩ else .error (.fault ⟨.ascriptionUnbalanced, t, before.length⟩)
  else .error .endless

/-- What a token does to an ascription at some depth of brackets: it stops it, or leads to a depth for the token
behind it. -/
def ascriptionStep (stops : List TokenKind) (depth : Nat) (t : Token) : Except FaultCause (Option Nat) :=
  if t.kind = .endOfInput then .error .ascriptionUnfinished
  else if depth = 0 ∧ t.kind ∈ stops then .ok none
  else if t.kind.opens then .ok (some (depth + 1))
  else if t.kind.closes then
    if depth = 0 then .error .ascriptionUnbalanced else .ok (some (depth - 1))
  else .ok (some depth)

/-- The cursor on the token that stops the ascription in which a token stands, at some depth of brackets. -/
def ascriptionStop (stops : List TokenKind) :
    Nat → List Token → Token → List Token → Except ReadFailure Cursor
  | depth, before, t, [] =>
    match ascriptionStep stops depth t with
    | .error cause => .error (.fault ⟨cause, t, before.length⟩)
    | .ok none => .ok ⟨before, t, []⟩
    | .ok (some _) => ascriptionStuck stops before t
  | depth, before, t, next :: after =>
    match ascriptionStep stops depth t with
    | .error cause => .error (.fault ⟨cause, t, before.length⟩)
    | .ok none => .ok ⟨before, t, next :: after⟩
    | .ok (some depth) => ascriptionStop stops depth (t :: before) next after

/-- The values of tokens, with a space wherever the ranges of two neighbours do not meet. -/
def spacedText : List Token → String
  | [] => ""
  | [t] => t.text
  | t :: u :: rest => t.text ++ (if t.stop = u.start then "" else " ") ++ spacedText (u :: rest)

/-- The text of the tokens of a list that lie in a range of the source. -/
def textBetween (tokens : List Token) (start stop : Int) : String :=
  spacedText (tokens.filter fun t => decide (start ≤ t.start ∧ t.stop ≤ stop ∧ t.kind ≠ .endOfInput))

/-- Reads an ascription up to a token of a stopping kind; its answer is the text of the ascription. -/
def Grammar.ascription (stops : List TokenKind) : Reading String := fun c =>
  .silent <| (ascriptionStop stops 0 c.before c.current c.after).bind fun d =>
    if d.index = c.index then .error (.fault ⟨.ascriptionEmpty, d.current, d.index⟩)
    else .ok (textBetween c.tokens c.current.start d.previous.stop, d)

end ScopeLint
