import ScopeLint.Tree.Node

/-!
# Bindings and scopes

A scope lists the names bound in it, each once, in the order in which they were first bound there. A binding knows
who may see its name and counts the references to it. Binding a name appends it unless it is bound already
(`Scope.names_declare`), and a reference changes no name (`Scope.names_refer?`).
-/

namespace ScopeLint

/-- A name bound in a scope. -/
structure Binding where
  name : String
  visibility : Visibility
  uses : Nat
  deriving DecidableEq

/-- The debug text of a binding. -/
def Binding.describe (b : Binding) : String :=
  "Binding(" ++ b.visibility.word ++ ", used=" ++ toString b.uses ++ ")"

/-- The bindings of a scope, the first one first. -/
abbrev Scope := List Binding

namespace Scope

/-- The names bound in the scope, in order. -/
def names (s : Scope) : List String :=
  s.map Binding.name

/-- The scope binds a name. -/
def binds (s : Scope) (name : String) : Bool :=
  s.any (fun b => b.name == name)

/-- Binds a name. A name that was bound here before starts anew and keeps its position. -/
def declare (name : String) (visibility : Visibility) : Scope → Scope
  | [] => [⟨name, visibility, 0⟩]
  | b :: bs => if b.name = name then ⟨name, visibility, 0⟩ :: bs else b :: declare name visibility bs

/-- Counts a reference to a name, if the scope binds it; the binding with its new count comes first. -/
def refer? (name : String) : Scope → Option (Binding × Scope)
  | [] => none
  | b :: bs =>
    if b.name = name then
      let b := { b with uses := b.uses + 1 }
      some (b, b :: bs)
    else (refer? name bs).map fun (found, bs) => (found, b :: bs)

/-- The names that nothing outside the scope sees and nothing has referred to. -/
def unusedNames (s : Scope) : List String :=
  (s.filter fun b => b.visibility == .priv && b.uses == 0).map Binding.name

theorem binds_iff (s : Scope) (name : String) : s.binds name = true ↔ name ∈ s.names := by
  simp [binds, names]

theorem names_declare (name : String) (visibility : Visibility) (s : Scope) :
    (s.declare name visibility).names = if name ∈ s.names then s.names else s.names ++ [name] := by
  induction s with
  | nil => simp [declare, names]
  | cons b bs ih =>
    by_cases h : b.name = name
    · simp [declare, names, h]
    · have hne : name ≠ b.name := fun e => h e.symm
      simp only [names] at ih
      simp only [declare, names, h, ↓reduceIte, List.map_cons, List.mem_cons, hne, false_or, ih]
      split <;> simp_all

theorem refer?_eq_none_iff (name : String) (s : Scope) : s.refer? name = none ↔ name ∉ s.names := by
  induction s with
  | nil => simp [refer?, names]
  | cons b bs ih =>
    by_cases h : b.name = name
    · simp [refer?, names, h]
    · have hne : name ≠ b.name := fun e => h e.symm
      simpa [refer?, names, h, hne] using ih

theorem names_refer? {name : String} {s : Scope} {found : Binding × Scope} (h : s.refer? name = some found) :
    found.2.names = s.names := by
  induction s generalizing found with
  | nil => simp [refer?] at h
  | cons b bs ih =>
    by_cases hb : b.name = name
    · simp only [refer?, hb, ↓reduceIte, Option.some.injEq] at h
      simp [names, ← h, hb]
    · simp only [refer?, hb, ↓reduceIte, Option.map_eq_some_iff] at h
      obtain ⟨rest, hrest, rfl⟩ := h
      simpa [names] using ih hrest

end Scope

end ScopeLint
