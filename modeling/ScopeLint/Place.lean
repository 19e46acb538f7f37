/-!
# Places in a text

A place counts the characters before it, the lines begun up to it and the characters of its own line before it.
Lines and columns start at one. A line feed ends a line; every other character takes one column.
-/

namespace ScopeLint

/-- A place between two characters of a text. -/
structure Place where
  offset : Nat
  line : Nat
  column : Nat
  deriving DecidableEq

namespace Place

/-- The place before the first character. -/
def start : Place :=
  ⟨0, 1, 1⟩

/-- The place behind one more character. -/
def step (p : Place) (c : Char) : Place :=
  if c = '\n' then ⟨p.offset + 1, p.line + 1, 1⟩ else ⟨p.offset + 1, p.line, p.column + 1⟩

/-- The place behind some more characters. -/
def after (p : Place) (cs : List Char) : Place :=
  cs.foldl step p

/-- Line and column with a colon between them. -/
def text (p : Place) : String :=
  toString p.line ++ ":" ++ toString p.column

@[simp] theorem after_nil (p : Place) : p.after [] = p := rfl

@[simp] theorem after_cons (p : Place) (c : Char) (cs : List Char) : p.after (c :: cs) = (p.step c).after cs := rfl

theorem after_append (p : Place) (cs ds : List Char) : p.after (cs ++ ds) = (p.after cs).after ds :=
  List.foldl_append

@[simp] theorem offset_step (p : Place) (c : Char) : (p.step c).offset = p.offset + 1 := by
  unfold step
  split <;> rfl

theorem offset_after (p : Place) (cs : List Char) : (p.after cs).offset = p.offset + cs.length := by
  induction cs generalizing p with
  | nil => rfl
  | cons c cs ih => simp [ih, Nat.add_assoc, Nat.add_comm 1]

theorem line_step (p : Place) (c : Char) : (p.step c).line = p.line + if c = '\n' then 1 else 0 := by
  unfold step
  split <;> rfl

theorem line_after (p : Place) (cs : List Char) : (p.after cs).line = p.line + cs.count '\n' := by
  induction cs generalizing p with
  | nil => rfl
  | cons c cs ih =>
    rw [after_cons, ih, line_step, List.count_cons]
    simp only [beq_iff_eq]
    omega

end Place

end ScopeLint
