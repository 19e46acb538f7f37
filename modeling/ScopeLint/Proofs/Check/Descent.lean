import Mathlib.Logic.Relation
import ScopeLint.Proofs.Check.Resolution
import ScopeLint.Proofs.Grammar.ModuleReading

/-!
# Where the check goes

The check goes from a node to some of the nodes right below it, and from those on.

* `Node.mem_events_iff`: what a node does with names is done by the nodes that it leads to: name patterns and alias
  patterns declare, and variables refer.
* `Node.IsPlaced.leadsTo`: in a text, the check meets statements, patterns and expressions only, since the grammar puts
  every node of another kind below one that the check does not look into.
-/

namespace ScopeLint

open Spelling

namespace Node

/-- The nodes that the check goes on to from a node, in order. -/
def next : Node → List Node
  | assignment _ pattern _ _ _ => [pattern]
  | use _ patterns _ => patterns
  | expression _ inner => [inner]
  | patTuple _ elements => elements
  | patList _ elements tail => elements ++ tail.toList
  | patAlias _ inner _ => [inner]
  | minus _ operand => [operand]
  | not _ operand => [operand]
  | block _ statements => statements
  | tuple _ elements => elements
  | _ => []

/-- The parameters of a function. -/
def parameters : Node → List Node
  | function _ _ _ parameters _ _ => parameters
  | _ => []

/-- The body of a function. -/
def body : Node → List Node
  | function _ _ _ _ body _ => body
  | _ => []

/-- The check goes from a node to another one, perhaps through others. -/
def LeadsTo : Node → Node → Prop :=
  Relation.ReflTransGen fun a b => b ∈ a.next

theorem sizeOf_lt_of_mem_next {a b : Node} (h : b ∈ a.next) : sizeOf b < sizeOf a := by
  cases a <;> simp only [next, List.mem_singleton, List.mem_append, Option.mem_toList, List.not_mem_nil] at h
  case assignment | expression | patAlias | minus | not =>
    subst h
    simp only [assignment.sizeOf_spec, expression.sizeOf_spec, patAlias.sizeOf_spec, minus.sizeOf_spec,
      not.sizeOf_spec]
    omega
  case use | patTuple | block | tuple =>
    have hmem := List.sizeOf_lt_of_mem h
    simp only [use.sizeOf_spec, patTuple.sizeOf_spec, block.sizeOf_spec, tuple.sizeOf_spec]
    omega
  case patList =>
    simp only [patList.sizeOf_spec]
    rcases h with h | h
    · have hmem := List.sizeOf_lt_of_mem h
      omega
    · obtain rfl := h
      simp only [Option.some.sizeOf_spec]
      omega

/-- What holds of a node if it holds of the nodes that the check goes on to holds of every node. -/
theorem induction_on_next {P : Node → Prop} (h : ∀ a, (∀ b ∈ a.next, P b) → P a) (a : Node) : P a :=
  h a fun b _ => induction_on_next h b
termination_by sizeOf a
decreasing_by exact sizeOf_lt_of_mem_next ‹_›

/-! ### Names -/

/-- What a node does with a name by itself. -/
def nameEvent? : Node → Option NameEvent
  | patName _ name => some (.declare name)
  | patAlias _ _ name => some (.declare name)
  | var _ name => some (.ref name)
  | _ => none

end Node

theorem eventsAll_eq_flatMap (nodes : List Node) : eventsAll nodes = nodes.flatMap Node.events := by
  induction nodes with
  | nil => rw [eventsAll, List.flatMap_nil]
  | cons node nodes ih => rw [eventsAll, ih, List.flatMap_cons]

theorem areRegular_iff {nodes : List Node} : areRegular nodes = true ↔ ∀ node ∈ nodes, node.isRegular = true := by
  induction nodes with
  | nil => simp [areRegular]
  | cons node nodes ih => rw [areRegular, Bool.and_eq_true, ih, List.forall_mem_cons]

namespace Node

/-- What is done with a name at a node is done by the node itself or behind it. -/
private theorem mem_events_step {e : NameEvent} (hopening : e ≠ .opening) (hclosing : e ≠ .closing) (node : Node) :
    e ∈ node.events ↔ node.nameEvent? = some e ∨ ∃ b ∈ node.next, e ∈ b.events := by
  cases node
  case patName | var =>
    simp only [events, next, nameEvent?, List.mem_singleton, List.not_mem_nil, false_and, exists_false, or_false,
      Option.some.injEq, eq_comm]
  case patAlias anchor inner name =>
    simp only [events, next, nameEvent?, List.mem_append, List.mem_singleton, exists_eq_left, Option.some.injEq]
    rw [or_comm, eq_comm]
  case assignment | expression | minus | not =>
    simp only [events, next, nameEvent?, List.mem_singleton, exists_eq_left, reduceCtorEq, false_or]
  case use | patTuple | tuple =>
    simp only [events, next, nameEvent?, eventsAll_eq_flatMap, List.mem_flatMap, reduceCtorEq, false_or]
  case block =>
    simp only [events, next, nameEvent?, eventsAll_eq_flatMap, List.mem_cons, List.mem_append, List.mem_flatMap,
      List.not_mem_nil, hopening, hclosing, or_false, false_or, reduceCtorEq]
  case patList anchor elements tail =>
    cases tail <;> simp [events, next, nameEvent?, eventsAll_eq_flatMap, eventsOption, or_and_right, exists_or]
  -- A node of another kind does nothing with names, and the check goes nowhere from it.
  all_goals simp only [events, next, nameEvent?, List.not_mem_nil, false_and, exists_false, reduceCtorEq, or_false]

/-- What a node does with a name is done by a node that it leads to. -/
theorem mem_events_iff {e : NameEvent} (hopening : e ≠ .opening) (hclosing : e ≠ .closing) {node : Node} :
    e ∈ node.events ↔ ∃ b, node.LeadsTo b ∧ b.nameEvent? = some e := by
  constructor
  · induction node using induction_on_next with
    | h node ih =>
      intro he
      rcases (mem_events_step hopening hclosing node).mp he with hown | ⟨b, hb, he⟩
      · exact ⟨node, .refl, hown⟩
      · obtain ⟨d, hleads, hd⟩ := ih b hb he
        exact ⟨d, .head hb hleads, hd⟩
  · rintro ⟨b, hleads, hb⟩
    induction hleads using Relation.ReflTransGen.head_induction_on with
    | refl => exact (mem_events_step hopening hclosing b).mpr (.inl hb)
    | head hnext _ ih => exact (mem_events_step hopening hclosing _).mpr (.inr ⟨_, hnext, ih⟩)

end Node

/-! ### Members of lists -/

theorem Spelling.mem_of_mem_prod {ls : List (Language Word)} {ws : List Word} (h : ws ∈ ls.prod)
    {l : Language Word} (hl : l ∈ ls) : ∃ vs, vs ∈ l := by
  induction ls generalizing ws with
  | nil => cases hl
  | cons m ls ih =>
    rw [List.prod_cons] at h
    obtain ⟨us, hus, vs, hvs, rfl⟩ := Language.mem_mul.mp h
    rcases List.mem_cons.mp hl with rfl | hl
    · exact ⟨us, hus⟩
    · exact ih hvs hl

theorem Spelling.mem_of_mem_commaList {ls : List (Language Word)} {ws : List Word} (h : ws ∈ commaList ls)
    {l : Language Word} (hl : l ∈ ls) : ∃ vs, vs ∈ l := by
  cases ls with
  | nil => cases hl
  | cons m ls =>
    obtain ⟨us, hus, -, -, -⟩ := Language.mem_mul.mp h
    exact mem_of_mem_separated hus hl

theorem Spelling.mem_of_mem_entries {ls : List (Language Word)} {tail : Option (Language Word)} {ws : List Word}
    (h : ws ∈ entries ls tail) {l : Language Word} (hl : l ∈ ls ∨ tail = some l) : ∃ vs, vs ∈ l := by
  cases tail with
  | none => exact mem_of_mem_commaList h (hl.resolve_right (by simp))
  | some tail =>
    obtain ⟨-, ⟨us, ⟨vs, hvs, -, -, -⟩, tailWords, htail, -⟩, -, -, -⟩ := h
    rcases hl with hl | hl
    · obtain ⟨us, hus⟩ := mem_of_mem_prod hvs (List.mem_map_of_mem hl)
      obtain ⟨vs, hvs, -, -, -⟩ := Language.mem_mul.mp hus
      exact ⟨vs, hvs⟩
    · cases hl
      exact ⟨tailWords, htail⟩

/-! ### Nodes of a text -/

namespace Node

/-- The node is of one of the sorts that the check meets below a function. -/
def isMet (node : Node) : Bool :=
  node.isStatement || node.isPattern || node.isExpression

theorem isMet_of_isStatement {node : Node} (h : node.isStatement = true) : node.isMet = true := by
  rw [isMet, h, Bool.true_or, Bool.true_or]

theorem isMet_of_isPattern {node : Node} (h : node.isPattern = true) : node.isMet = true := by
  rw [isMet, h, Bool.or_true, Bool.true_or]

theorem isMet_of_isExpression {node : Node} (h : node.isExpression = true) : node.isMet = true := by
  rw [isMet, h, Bool.or_true]

theorem isMet_of_isOperand {node : Node} {least : Nat} (hleast : 1 ≤ least) (h : node.isOperand least = true) :
    node.isMet = true :=
  isMet_of_isExpression (isOperand_iff.mpr (hleast.trans (isOperand_iff.mp h)))

/-- A node of a text that the check may meet: a statement, pattern or expression with a spelling, or the tail of a list
pattern that has two dots only, which has none. -/
def IsPlaced (node : Node) : Prop :=
  node.isMet = true ∧ (node.isBareTail = true ∨ ∃ ws, ws ∈ node.spelling)

theorem IsPlaced.of_mem_spellingAs {fits : Node → Bool} (hfits : ∀ node, fits node = true → node.isMet = true)
    {node : Node} {ws : List Word} (h : ws ∈ node.spellingAs fits) : node.IsPlaced := by
  obtain ⟨hnode, hws⟩ := mem_provided.mp h
  exact ⟨hfits node hnode, .inr ⟨ws, hws⟩⟩

/-- All nodes of a list are placed if each has a spelling where nodes of its sort may stand. -/
theorem isPlaced_of_spellings {fits : Node → Bool} (hfits : ∀ node, fits node = true → node.isMet = true)
    {nodes : List Node} (h : ∀ l ∈ spellings fits nodes, ∃ ws, ws ∈ l) : ∀ node ∈ nodes, node.IsPlaced := by
  intro node hnode
  rw [spellings_eq_map] at h
  obtain ⟨ws, hws⟩ := h _ (List.mem_map_of_mem hnode)
  exact .of_mem_spellingAs hfits hws

/-- The check goes on from a node of a text to nodes of the text that it may meet. -/
private theorem next_of_spelled {node : Node} {ws : List Word} (h : ws ∈ node.spelling) :
    ∀ b ∈ node.next, b.IsPlaced := by
  cases node with
  | assignment anchor pattern value asserted ascription =>
    rw [spelling] at h
    obtain ⟨-, ⟨-, ⟨-, ⟨-, -, vs, hvs, -⟩, -, -, -⟩, -, -, -⟩, -, -, -⟩ := h
    exact List.forall_mem_singleton.mpr (.of_mem_spellingAs (fun _ => isMet_of_isPattern) hvs)
  | use anchor patterns function =>
    rw [spelling] at h
    obtain ⟨-, ⟨-, ⟨-, -, us, hus, -⟩, -, -, -⟩, -, -, -⟩ := h
    refine isPlaced_of_spellings (fun _ => isMet_of_isPattern) fun l hl => ?_
    obtain ⟨vs, hvs⟩ := mem_of_mem_commaList hus (List.mem_map_of_mem hl)
    obtain ⟨vs, hvs, -, -, -⟩ := Language.mem_mul.mp hvs
    exact ⟨vs, hvs⟩
  | expression anchor inner =>
    rw [spelling] at h
    exact List.forall_mem_singleton.mpr (.of_mem_spellingAs (fun _ => isMet_of_isExpression) h)
  | patTuple anchor elements =>
    rw [spelling] at h
    obtain ⟨-, ⟨-, -, us, hus, -⟩, -, -, -⟩ := h
    exact isPlaced_of_spellings (fun _ => isMet_of_isPattern) fun l hl => mem_of_mem_commaList hus hl
  | patList anchor elements tail =>
    rw [spelling] at h
    obtain ⟨-, ⟨-, -, us, hus, -⟩, -, -, -⟩ := h
    refine List.forall_mem_append.mpr ⟨isPlaced_of_spellings (fun _ => isMet_of_isPattern) fun l hl =>
      mem_of_mem_entries hus (.inl hl), fun node hnode => ?_⟩
    obtain rfl := Option.mem_toList.mp hnode
    obtain ⟨vs, hvs⟩ := mem_of_mem_entries hus (.inr rfl)
    rcases hvs with hvs | hvs
    · -- Two dots alone stand for a pattern that binds nothing.
      obtain ⟨hbare, -⟩ := mem_provided.mp hvs
      refine ⟨?_, .inl hbare⟩
      cases node <;> first | rfl | cases hbare
    · exact .of_mem_spellingAs (fun _ => isMet_of_isPattern) hvs
  | patAlias anchor inner name =>
    rw [spelling] at h
    obtain ⟨-, ⟨vs, hvs, -, -, -⟩, -, -, -⟩ := h
    exact List.forall_mem_singleton.mpr (.of_mem_spellingAs (fun _ => isMet_of_isPattern) hvs)
  | minus anchor operand =>
    rw [spelling] at h
    obtain ⟨-, -, vs, hvs, -⟩ := h
    exact List.forall_mem_singleton.mpr (.of_mem_spellingAs (fun _ => isMet_of_isOperand (by decide)) hvs)
  | not anchor operand =>
    rw [spelling] at h
    obtain ⟨-, -, vs, hvs, -⟩ := h
    exact List.forall_mem_singleton.mpr (.of_mem_spellingAs (fun _ => isMet_of_isOperand (by decide)) hvs)
  | block anchor statements =>
    rw [spelling] at h
    obtain ⟨-, ⟨-, -, us, hus, -⟩, -, -, -⟩ := h
    exact isPlaced_of_spellings (fun _ => isMet_of_isStatement) fun l hl => mem_of_mem_prod hus hl
  | tuple anchor elements =>
    rw [spelling] at h
    obtain ⟨-, ⟨-, -, us, hus, -⟩, -, -, -⟩ := h
    exact isPlaced_of_spellings (fun _ => isMet_of_isExpression) fun l hl => mem_of_mem_commaList hus hl
  | _ => exact fun b hb => absurd hb List.not_mem_nil

theorem IsPlaced.next {a b : Node} (h : a.IsPlaced) (hb : b ∈ a.next) : b.IsPlaced := by
  rcases h.2 with hbare | ⟨ws, hws⟩
  · cases a <;> first | cases hbare | exact absurd hb List.not_mem_nil
  · exact next_of_spelled hws b hb

/-- From a node of a text, the check meets only nodes of the text that it may meet. -/
theorem IsPlaced.leadsTo {a b : Node} (h : a.IsPlaced) (hleads : a.LeadsTo b) : b.IsPlaced := by
  induction hleads with
  | refl => exact h
  | tail _ hnext ih => exact ih.next hnext

theorem isRegular_of_next {node : Node} (hmet : node.isMet = true) (h : ∀ b ∈ node.next, b.isRegular = true) :
    node.isRegular = true := by
  cases node with
  | patList anchor elements tail =>
    obtain ⟨helements, htail⟩ := List.forall_mem_append.mp h
    rw [isRegular, areRegular_iff.mpr helements, Bool.true_and]
    cases tail with
    | none => rfl
    | some node => exact htail node List.mem_cons_self
  | assignment | expression | patAlias | minus | not =>
    rw [isRegular]
    exact h _ (List.mem_singleton_self _)
  | use | patTuple | block | tuple => exact areRegular_iff.mpr h
  | argument | clause | parameter | function | importing | wholeModule | unknown => cases hmet
  | _ => rfl

theorem IsPlaced.isRegular {node : Node} (h : node.IsPlaced) : node.isRegular = true := by
  induction node using induction_on_next with
  | h node ih => exact isRegular_of_next h.1 fun b hb => ih b hb (h.next hb)

end Node

end ScopeLint
