import ScopeLint.Proofs.Check.Descent
import ScopeLint.Proofs.Check.Unwinding
import ScopeLint.Proofs.Scope.Insertion

/-!
# One more statement that refers to a name

A place among the statements of a function body or of a block, at any depth of a module, is a path from the module to
these statements (`Spot`).  Every place that the check comes to is one (`Module.exists_spot`).

What a check finds at the steps behind one more reference does not depend on it, but for the names that are unused in
the scope that the reference means.  This scope is left once at most, so a reference to a name that is bound takes away
one warning or none (`findings_insert_some`), and a reference to a name that is bound nowhere adds its own error
(`findings_insert_none`).
-/

namespace ScopeLint

namespace StepHistory

/-! ### Findings -/

section

variable {name : String} (later past : List ScopeStep)

private theorem head?_openScopes_insert :
    (openScopes (later ++ .refer name :: past)).head? =
      (openScopes (later ++ past)).head?.map (scopeLater past.length) := by
  rw [openScopes_insert, List.head?_map]

/-- Unless the scope is left that the reference means, the check finds the same at a step. -/
private theorem findingsAt_insert_of_ne (step : ScopeStep)
    (h : step = .leave → ∀ k, (openScopes (later ++ past)).head? = some k → resolve past name ≠ some k) :
    findingsAt (later ++ .refer name :: past) step = findingsAt (later ++ past) step := by
  cases step with
  | refer other => simp only [findingsAt, resolve_insert, Option.map_eq_none_iff]
  | leave =>
    simp only [findingsAt, reports, pending_insert, head?_openScopes_insert]
    cases hhead : (openScopes (later ++ past)).head? with
    | none => rfl
    | some k => simp [unusedNames_insert_of_ne later past (h rfl k hhead)]
  | _ => rfl

/-- When a scope is left, the check finds the same, but perhaps for the name of the reference. -/
private theorem findingsAt_leave_insert :
    findingsAt (later ++ .refer name :: past) .leave = findingsAt (later ++ past) .leave ∨
      pending (later ++ past) ≠ [] ∧ ∃ before behind,
        findingsAt (later ++ past) .leave = before ++ .unused name :: behind ∧
          findingsAt (later ++ .refer name :: past) .leave = before ++ behind := by
  simp only [findingsAt, reports, pending_insert, head?_openScopes_insert]
  by_cases hchecked : (pending (later ++ past)).head? = some true
  · rw [if_pos hchecked, if_pos hchecked]
    cases (openScopes (later ++ past)).head? with
    | none => exact .inl rfl
    | some k =>
      simp only [Option.map_some, Option.toList_some, List.flatMap_singleton]
      rcases unusedNames_insert later past k with hsame | ⟨before, behind, hwithout, hwith⟩
      · rw [hsame]
        exact .inl rfl
      · right
        have hentered : pending (later ++ past) ≠ [] := by
          intro hnone
          rw [hnone] at hchecked
          cases hchecked
        refine ⟨hentered, before.map .unused, behind.map .unused, ?_, ?_⟩
        · rw [hwithout, List.map_append, List.map_cons]
        · rw [hwith, List.map_append]
  · rw [if_neg hchecked, if_neg hchecked]
    exact .inl rfl

/-- A reference to a name that is bound nowhere adds its error to what is found. -/
theorem findings_insert_none (h : resolve past name = none) :
    ∃ behind, findings (later ++ past) = findings past ++ behind ∧
      findings (later ++ .refer name :: past) = findings past ++ .undefined name :: behind := by
  induction later with
  | nil =>
    refine ⟨[], ?_, ?_⟩
    · rw [List.nil_append, List.append_nil]
    · rw [List.nil_append, findings, findingsAt, if_pos h]
  | cons step later ih =>
    obtain ⟨behind, hwithout, hwith⟩ := ih
    have hstep : findingsAt (later ++ .refer name :: past) step = findingsAt (later ++ past) step :=
      findingsAt_insert_of_ne later past step fun _ k _ => by rw [h]; exact (Option.some_ne_none k).symm
    refine ⟨behind ++ findingsAt (later ++ past) step, ?_, ?_⟩
    · rw [List.cons_append, findings, hwithout, List.append_assoc]
    · rw [List.cons_append, findings, hwith, hstep, List.append_assoc, List.cons_append]

/-- A scope that is left is not opened again. -/
private theorem notMem_openScopes_cons {w : List ScopeStep} {k : Nat} (hk : k < w.length) (hclosed : k ∉ openScopes w)
    (step : ScopeStep) : k ∉ openScopes (step :: w) := by
  have hnew : k ∉ w.length :: openScopes w := by
    rw [List.mem_cons, not_or]
    exact ⟨Nat.ne_of_lt hk, hclosed⟩
  cases step with
  | push => exact hnew
  | enter checked => exact hnew
  | pop => exact fun hmem => hclosed (List.mem_of_mem_tail hmem)
  | leave =>
    intro hmem
    rw [openScopes] at hmem
    split at hmem
    · exact hclosed hmem
    · exact hclosed (List.mem_of_mem_tail hmem)
  | _ => exact hclosed

/-- A reference to a name that is bound takes one warning about this name away from what is found, or changes nothing.
The warning is told when the scope is left that the reference means, and the scope is open until then. -/
theorem findings_insert_some {scope : Nat} (h : resolve past name = some scope) :
    findings (later ++ .refer name :: past) = findings (later ++ past) ∨
      scope ∉ openScopes (later ++ past) ∧
        ∃ before behind, findings (later ++ past) = before ++ .unused name :: behind ∧
          findings (later ++ .refer name :: past) = before ++ behind := by
  induction later with
  | nil =>
    have hbound : resolve past name ≠ none := by
      rw [h]
      exact Option.some_ne_none scope
    left
    rw [List.nil_append, List.nil_append, findings, findingsAt, if_neg hbound, List.append_nil]
  | cons step later ih =>
    simp only [List.cons_append, findings]
    have hlength : scope < (later ++ past).length := by
      have hlt := lt_length_of_resolve h
      rw [List.length_append]
      omega
    by_cases hleaves : step = .leave ∧ (openScopes (later ++ past)).head? = some scope
    · obtain ⟨rfl, hhead⟩ := hleaves
      obtain ⟨scopes, hopen⟩ := List.head?_eq_some_iff.mp hhead
      have hsame : findings (later ++ .refer name :: past) = findings (later ++ past) := by
        rcases ih with hsame | ⟨hclosed, -⟩
        · exact hsame
        · exact absurd (List.mem_of_head? hhead) hclosed
      rw [hsame]
      rcases findingsAt_leave_insert later past with hleave | ⟨hentered, before, behind, hwithout, hwith⟩
      · exact .inl (by rw [hleave])
      · right
        have hclosed : scope ∉ openScopes (.leave :: (later ++ past)) := by
          have hnodup := nodup_openScopes (later ++ past)
          rw [hopen, List.nodup_cons] at hnodup
          rw [openScopes, if_neg hentered, hopen]
          exact hnodup.1
        refine ⟨hclosed, findings (later ++ past) ++ before, behind, ?_, ?_⟩
        · rw [hwithout, List.append_assoc]
        · rw [hwith, List.append_assoc]
    · have hstep : findingsAt (later ++ .refer name :: past) step = findingsAt (later ++ past) step :=
        findingsAt_insert_of_ne later past step fun hleave k hk hmeans =>
          hleaves ⟨hleave, hk.trans (hmeans.symm.trans h)⟩
      rw [hstep]
      rcases ih with hsame | ⟨hclosed, before, behind, hwithout, hwith⟩
      · exact .inl (by rw [hsame])
      · right
        have hclosed' := notMem_openScopes_cons hlength hclosed step
        refine ⟨hclosed', before, behind ++ findingsAt (later ++ past) step, ?_, ?_⟩
        · rw [hwithout, List.append_assoc, List.cons_append]
        · rw [hwith, List.append_assoc]

end

end StepHistory

/-! ### Places among statements -/

open StepHistory Visit

/-- What statements are the statements of. -/
inductive Room where
  | function (anchor : Anchor) (name : String) (visibility : Visibility) (parameters : List Node)
      (ascription : Option String)
  | block (anchor : Anchor)

namespace Room

/-- The node with some statements. -/
def enclose (statements : List Node) : Room → Node
  | function anchor name visibility parameters ascription =>
    .function anchor name visibility parameters statements ascription
  | block anchor => .block anchor statements

/-- What happens on the way to the statements. -/
def opening : Room → List Visit
  | function _ name visibility parameters _ =>
    .did (.declare name visibility) :: .did (.enter true) :: (parameterVisits parameters ++ [.did (.enter true)])
  | block _ => [.did (.enter true)]

/-- What happens on the way from the statements. -/
def closing : Room → List Visit
  | function .. => [.did .leave, .did .leave]
  | block _ => [.did .leave]

theorem visits_enclose (room : Room) (statements : List Node) :
    (room.enclose statements).visits = room.opening ++ visitsAll statements ++ room.closing := by
  cases room <;> simp [enclose, Node.visits, opening, closing]

end Room

/-- A node with one of the nodes left open that the check goes on to from it. -/
inductive Frame where
  | statement (room : Room) (first last : List Node)
  | assignment (anchor : Anchor) (value : Node) (asserted : Bool) (ascription : Option String)
  | use (anchor : Anchor) (first last : List Node) (function : Node)
  | expression (anchor : Anchor)
  | patTuple (anchor : Anchor) (first last : List Node)
  | patList (anchor : Anchor) (first last : List Node) (tail : Option Node)
  | patListTail (anchor : Anchor) (elements : List Node)
  | patAlias (anchor : Anchor) (name : String)
  | minus (anchor : Anchor)
  | not (anchor : Anchor)
  | tuple (anchor : Anchor) (first last : List Node)

theorem visitsAll_append (nodes others : List Node) :
    visitsAll (nodes ++ others) = visitsAll nodes ++ visitsAll others := by
  induction nodes with
  | nil => rfl
  | cons node nodes ih => rw [List.cons_append, visitsAll, visitsAll, ih, List.append_assoc]

namespace Frame

/-- The node with the node that was left open. -/
def fill : Frame → Node → Node
  | statement room first last, inner => room.enclose (first ++ inner :: last)
  | assignment anchor value asserted ascription, inner => .assignment anchor inner value asserted ascription
  | use anchor first last function, inner => .use anchor (first ++ inner :: last) function
  | expression anchor, inner => .expression anchor inner
  | patTuple anchor first last, inner => .patTuple anchor (first ++ inner :: last)
  | patList anchor first last tail, inner => .patList anchor (first ++ inner :: last) tail
  | patListTail anchor elements, inner => .patList anchor elements (some inner)
  | patAlias anchor name, inner => .patAlias anchor inner name
  | minus anchor, inner => .minus anchor inner
  | not anchor, inner => .not anchor inner
  | tuple anchor first last, inner => .tuple anchor (first ++ inner :: last)

/-- What happens on the way to the node that was left open. -/
def opening : Frame → List Visit
  | statement room first _ => room.opening ++ visitsAll first
  | use _ first _ _ | patTuple _ first _ | patList _ first _ _ | tuple _ first _ => visitsAll first
  | patListTail _ elements => visitsAll elements
  | assignment .. | expression .. | patAlias .. | minus .. | not .. => []

/-- What happens on the way from the node that was left open. -/
def closing : Frame → List Visit
  | statement room _ last => visitsAll last ++ room.closing
  | use _ _ last _ | patTuple _ _ last | tuple _ _ last => visitsAll last
  | patList _ _ last tail => visitsAll last ++ visitsOption tail
  | patAlias _ name => [.did (.declare name .priv)]
  | patListTail .. | assignment .. | expression .. | minus .. | not .. => []

theorem visits_fill (frame : Frame) (inner : Node) :
    (frame.fill inner).visits = frame.opening ++ inner.visits ++ frame.closing := by
  cases frame with
  | statement room first last => simp [fill, Room.visits_enclose, opening, closing, visitsAll_append, visitsAll]
  | _ => simp [fill, Node.visits, opening, closing, visitsAll_append, visitsAll, visitsOption]

/-- Every node that the check goes on to can be left open. -/
theorem exists_fill {node inner : Node} (h : inner ∈ node.next ∨ inner ∈ node.body) :
    ∃ frame : Frame, frame.fill inner = node := by
  cases node with
  | function anchor name visibility parameters body ascription =>
    obtain ⟨first, last, rfl⟩ := List.append_of_mem (h.resolve_left List.not_mem_nil)
    exact ⟨.statement (.function anchor name visibility parameters ascription) first last, rfl⟩
  | block anchor statements =>
    obtain ⟨first, last, rfl⟩ := List.append_of_mem (h.resolve_right List.not_mem_nil)
    exact ⟨.statement (.block anchor) first last, rfl⟩
  | assignment anchor pattern value asserted ascription =>
    obtain rfl := List.mem_singleton.mp (h.resolve_right List.not_mem_nil)
    exact ⟨.assignment anchor value asserted ascription, rfl⟩
  | use anchor patterns function =>
    obtain ⟨first, last, rfl⟩ := List.append_of_mem (h.resolve_right List.not_mem_nil)
    exact ⟨.use anchor first last function, rfl⟩
  | expression anchor operand =>
    obtain rfl := List.mem_singleton.mp (h.resolve_right List.not_mem_nil)
    exact ⟨.expression anchor, rfl⟩
  | patTuple anchor elements =>
    obtain ⟨first, last, rfl⟩ := List.append_of_mem (h.resolve_right List.not_mem_nil)
    exact ⟨.patTuple anchor first last, rfl⟩
  | patList anchor elements tail =>
    rcases List.mem_append.mp (h.resolve_right List.not_mem_nil) with hmem | hmem
    · obtain ⟨first, last, rfl⟩ := List.append_of_mem hmem
      exact ⟨.patList anchor first last tail, rfl⟩
    · obtain rfl := Option.mem_toList.mp hmem
      exact ⟨.patListTail anchor elements, rfl⟩
  | patAlias anchor operand name =>
    obtain rfl := List.mem_singleton.mp (h.resolve_right List.not_mem_nil)
    exact ⟨.patAlias anchor name, rfl⟩
  | minus anchor operand =>
    obtain rfl := List.mem_singleton.mp (h.resolve_right List.not_mem_nil)
    exact ⟨.minus anchor, rfl⟩
  | not anchor operand =>
    obtain rfl := List.mem_singleton.mp (h.resolve_right List.not_mem_nil)
    exact ⟨.not anchor, rfl⟩
  | tuple anchor elements =>
    obtain ⟨first, last, rfl⟩ := List.append_of_mem (h.resolve_right List.not_mem_nil)
    exact ⟨.tuple anchor first last, rfl⟩
  | _ => exact absurd h (by simp [Node.next, Node.body])

/-- Every node that the check comes to lies in frames, one in the other. -/
theorem exists_foldr_fill {node inner : Node}
    (h : Relation.ReflTransGen (fun a b => b ∈ a.next ∨ b ∈ a.body) node inner) :
    ∃ frames : List Frame, frames.foldr fill inner = node := by
  induction h using Relation.ReflTransGen.head_induction_on with
  | refl => exact ⟨[], rfl⟩
  | head hnext _ ih =>
    obtain ⟨frames, rfl⟩ := ih
    obtain ⟨frame, rfl⟩ := exists_fill hnext
    exact ⟨frame :: frames, rfl⟩

end Frame

/-- A place among the statements of a function body or of a block somewhere in a module. -/
structure Spot where
  anchor : Anchor
  imports : List Node
  /-- The functions before the one that the place is in. -/
  first : List Node
  /-- The functions behind the one that the place is in. -/
  last : List Node
  /-- The way from the function to the statements, the outermost node first. -/
  frames : List Frame
  room : Room
  /-- The statements before the place. -/
  front : List Node
  /-- The statements behind the place. -/
  back : List Node

namespace Spot

/-- The module with some statements at the place. -/
def filled (spot : Spot) (statements : List Node) : Module :=
  ⟨spot.anchor,
    spot.first ++ spot.frames.foldr Frame.fill (spot.room.enclose (spot.front ++ statements ++ spot.back)) :: spot.last,
    spot.imports⟩

/-- What happens on the way to the place. -/
def opening (spot : Spot) : List Visit :=
  .did (.enter false) ::
    (visitsAll spot.first ++ spot.frames.flatMap Frame.opening ++ spot.room.opening ++ visitsAll spot.front)

/-- What happens on the way from the place. -/
def closing (spot : Spot) : List Visit :=
  visitsAll spot.back ++ spot.room.closing ++ spot.frames.reverse.flatMap Frame.closing ++ visitsAll spot.last ++
    [.did .leave]

/-- The state of the check when it comes to the place. -/
def state (spot : Spot) : ScopeState :=
  checked (walked [] spot.opening)

private theorem visits_foldr_fill (frames : List Frame) (node : Node) :
    (frames.foldr Frame.fill node).visits =
      frames.flatMap Frame.opening ++ node.visits ++ frames.reverse.flatMap Frame.closing := by
  induction frames with
  | nil => simp
  | cons frame frames ih => simp [Frame.visits_fill, ih]

/-- A module does what happens on the way to the place, then what its statements there do, and then the rest. -/
theorem visits_filled (spot : Spot) (statements : List Node) :
    (spot.filled statements).visits = spot.opening ++ (visitsAll statements ++ spot.closing) := by
  simp [filled, Module.visits, visitsAll_append, visitsAll, visits_foldr_fill, Room.visits_enclose, opening, closing]

end Spot

/-- Every place among statements that the check of a module comes to is a spot. -/
theorem Module.exists_spot {m : Module} {function : Node} {room : Room} {front back : List Node}
    (hfunction : function ∈ m.functions)
    (hleads : Relation.ReflTransGen (fun a b => b ∈ a.next ∨ b ∈ a.body) function (room.enclose (front ++ back))) :
    ∃ spot : Spot, spot.filled [] = m ∧ spot.room = room ∧ spot.front = front ∧ spot.back = back := by
  obtain ⟨frames, rfl⟩ := Frame.exists_foldr_fill hleads
  obtain ⟨first, last, hfunctions⟩ := List.append_of_mem hfunction
  refine ⟨⟨m.anchor, m.imports, first, last, frames, room, front, back⟩, ?_, rfl, rfl, rfl⟩
  rw [Spot.filled, List.append_nil, ← hfunctions]

namespace Spot

/-- One more statement at a place that refers to a name.  If the check without it fails, then the check with it fails
in the same way.  Else, if no scope that is open at the place binds the name, then the check finds what it finds
without the statement and, somewhere among that, one error, that the name is not defined; and if one binds it, then the
check finds what it finds without the statement, but perhaps for one warning, that the name is never used. -/
theorem check_filled_reference (spot : Spot) (name : String) (anchor anchor' : Anchor) :
    match (spot.filled []).check.value with
    | .error failure => (spot.filled [.expression anchor (.var anchor' name)]).check.value = .error failure
    | .ok found => ∃ found', (spot.filled [.expression anchor (.var anchor' name)]).check.value = .ok found' ∧
        if spot.state.binds name then
          found' = found ∨ ∃ before behind, found = before ++ .unused name :: behind ∧ found' = before ++ behind
        else ∃ before behind, found = before ++ behind ∧ found' = before ++ .undefined name :: behind := by
  have hvisits := spot.visits_filled []
  have hvisits' := spot.visits_filled [.expression anchor (.var anchor' name)]
  simp only [visitsAll, Node.visits, List.nil_append, List.append_nil, List.singleton_append] at hvisits hvisits'
  have hfirst : firstRuleless? (spot.opening ++ .did (.refer name) :: spot.closing) =
      firstRuleless? (spot.opening ++ spot.closing) := by
    rw [firstRuleless?_append, firstRuleless?_append, firstRuleless?]
  rw [Module.check_value_eq, Module.check_value_eq, Module.history, Module.history, hvisits, hvisits', hfirst]
  cases hruleless : firstRuleless? (spot.opening ++ spot.closing) with
  | some node => rfl
  | none =>
    have hopening : firstRuleless? spot.opening = none := by
      rw [firstRuleless?_append, Option.or_eq_none_iff] at hruleless
      exact hruleless.1
    have hbinds : spot.state.binds name = (resolve (walked [] spot.opening) name).isSome := binds_scopes _
    have hpast : walked [] (spot.opening ++ spot.closing) = walked [] spot.closing ++ walked [] spot.opening := by
      rw [walked_append_of_none hopening, walked_eq_append]
    have hpast' : walked [] (spot.opening ++ .did (.refer name) :: spot.closing) =
        walked [] spot.closing ++ .refer name :: walked [] spot.opening := by
      rw [walked_append_of_none hopening, walked, walked_eq_append]
    simp only [hpast, hpast', hbinds]
    refine ⟨_, rfl, ?_⟩
    cases hmeans : resolve (walked [] spot.opening) name with
    | none =>
      obtain ⟨behind, hwithout, hwith⟩ := findings_insert_none (walked [] spot.closing) _ hmeans
      exact ⟨_, behind, hwithout, hwith⟩
    | some scope =>
      rcases findings_insert_some (walked [] spot.closing) _ hmeans with hsame | ⟨-, before, behind, hwithout, hwith⟩
      · exact .inl hsame
      · exact .inr ⟨before, behind, hwithout, hwith⟩

/-- In the body of a function with a parameter, behind a block that binds a name. -/
private def behindBlock : Spot :=
  ⟨.nowhere, [], [], [], [], .function .nowhere "f" .priv [.parameter .nowhere "p" none none] none,
    [.expression .nowhere (.block .nowhere
      [.assignment .nowhere (.patName .nowhere "a") (.int .nowhere "1") false none])],
    []⟩

example :
    (behindBlock.filled []).check.value = .ok [.unused "a", .unused "p"] ∧
    (behindBlock.filled [.expression .nowhere (.var .nowhere "p")]).check.value = .ok [.unused "a"] ∧
    (behindBlock.filled [.expression .nowhere (.var .nowhere "a")]).check.value =
      .ok [.unused "a", .undefined "a", .unused "p"] :=
  ⟨rfl, rfl, rfl⟩

end Spot

end ScopeLint
