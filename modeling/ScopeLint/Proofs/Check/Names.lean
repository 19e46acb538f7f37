import ScopeLint.Proofs.Check.Acceptance
import ScopeLint.Proofs.Grammar.Invalid
import ScopeLint.Proofs.Token.Relexing

/-!
# The names that are found are names of the text

Whatever the check of a text finds is about a name, and that name is a token of the text.

* `Node.spelling_le_containing`: a name that a node declares or refers to is a word of each of its spellings, however
  deep below the node it is.
* `History.name_of_mem_findings`: what is found is about a name that was declared or referred to.
* `Module.name_of_found`: so the names found are made of the characters of names.
-/

namespace ScopeLint

open Spelling History

/-! ### Words of a spelling -/

/-- The word lists that a word belongs to. -/
def Spelling.containing (w : Word) : Language Word :=
  {ws | w ∈ ws}

namespace Spelling

variable {w : Word} {l m : Language Word} {ls : List (Language Word)}

theorem mul_le_of_left (h : l ≤ containing w) (m : Language Word) : l * m ≤ containing w := by
  intro ws hws
  obtain ⟨us, hus, vs, -, rfl⟩ := Language.mem_mul.mp hws
  exact List.mem_append_left vs (h hus)

theorem mul_le_of_right (l : Language Word) (h : m ≤ containing w) : l * m ≤ containing w := by
  intro ws hws
  obtain ⟨us, -, vs, hvs, rfl⟩ := Language.mem_mul.mp hws
  exact List.mem_append_right us (h hvs)

/-- A word of what stands between two other parts of a spelling is a word of the spelling. -/
theorem bracketed_le_containing (l m : Language Word) {inner : Language Word} (h : inner ≤ containing w) :
    l * inner * m ≤ containing w :=
  mul_le_of_left (mul_le_of_right l h) m

theorem only_le_containing (kind : TokenKind) (text : String) : only kind text ≤ containing ⟨kind, text⟩ := by
  rintro ws rfl
  exact List.mem_singleton_self _

theorem provided_le_containing (condition : Bool) (h : l ≤ containing w) : provided condition l ≤ containing w :=
  fun _ hws => h (mem_provided.mp hws).2

theorem prod_le_containing (hl : l ∈ ls) (h : l ≤ containing w) : ls.prod ≤ containing w := by
  obtain ⟨before, behind, rfl⟩ := List.append_of_mem hl
  rw [List.prod_append, List.prod_cons, ← mul_assoc]
  exact bracketed_le_containing _ _ h

theorem separated_le_containing (separator : Language Word) (hl : l ∈ ls) (h : l ≤ containing w) :
    separated separator ls ≤ containing w := by
  cases ls with
  | nil => cases hl
  | cons m ls =>
    rcases List.mem_cons.mp hl with rfl | hl
    · exact mul_le_of_left h _
    · exact mul_le_of_right _ (prod_le_containing (List.mem_map_of_mem hl) (mul_le_of_right separator h))

theorem commaList_le_containing (hl : l ∈ ls) (h : l ≤ containing w) : commaList ls ≤ containing w := by
  cases ls with
  | nil => cases hl
  | cons m ls => exact mul_le_of_left (separated_le_containing _ hl h) _

theorem entries_le_containing {tail : Option (Language Word)} (hl : l ∈ ls ∨ tail = some l) (h : l ≤ containing w) :
    entries ls tail ≤ containing w := by
  cases tail with
  | none => exact commaList_le_containing (hl.resolve_right nofun) h
  | some tail =>
    rw [entries]
    refine mul_le_of_left ?_ _
    rcases hl with hl | hl
    · refine mul_le_of_left (mul_le_of_left ?_ _) _
      exact prod_le_containing (List.mem_map_of_mem hl) (mul_le_of_left h _)
    · cases hl
      exact mul_le_of_right _ h

theorem spellingAs_mem_spellings (fits : Node → Bool) {node : Node} {nodes : List Node} (h : node ∈ nodes) :
    node.spellingAs fits ∈ spellings fits nodes := by
  rw [spellings_eq_map]
  exact List.mem_map_of_mem h

end Spelling

namespace Node

variable {w : Word}

theorem spellingAs_le_containing (fits : Node → Bool) {node : Node} (h : node.spelling ≤ containing w) :
    node.spellingAs fits ≤ containing w :=
  provided_le_containing _ h

theorem prod_spellings_le (fits : Node → Bool) {node : Node} {nodes : List Node} (hnode : node ∈ nodes)
    (h : node.spelling ≤ containing w) : (spellings fits nodes).prod ≤ containing w :=
  prod_le_containing (spellingAs_mem_spellings fits hnode) (spellingAs_le_containing fits h)

theorem commaList_spellings_le (fits : Node → Bool) {node : Node} {nodes : List Node} (hnode : node ∈ nodes)
    (h : node.spelling ≤ containing w) : commaList (spellings fits nodes) ≤ containing w :=
  commaList_le_containing (spellingAs_mem_spellings fits hnode) (spellingAs_le_containing fits h)

/-- A word of each spelling of a node that the check goes on to is a word of each spelling of the node before it, unless
the check goes on to two dots only. -/
private theorem spelling_le_of_next {a b : Node} (hb : b ∈ a.next) (hbare : b.isBareTail = false)
    (h : b.spelling ≤ containing w) : a.spelling ≤ containing w := by
  cases a with
  | assignment anchor pattern value asserted ascription =>
    obtain rfl := List.mem_singleton.mp hb
    rw [spelling]
    exact mul_le_of_left (mul_le_of_left (mul_le_of_left (mul_le_of_right _ (provided_le_containing _ h)) _) _) _
  | use anchor patterns function =>
    rw [spelling]
    refine mul_le_of_left (bracketed_le_containing _ _ ?_) _
    exact commaList_le_containing (List.mem_map_of_mem (spellingAs_mem_spellings _ hb))
      (mul_le_of_left (spellingAs_le_containing _ h) _)
  | expression anchor inner =>
    obtain rfl := List.mem_singleton.mp hb
    rw [spelling]
    exact provided_le_containing _ h
  | patTuple anchor elements =>
    rw [spelling]
    exact bracketed_le_containing _ _ (commaList_spellings_le _ hb h)
  | patList anchor elements tail =>
    rw [spelling, tailSpelling_eq_map]
    refine bracketed_le_containing _ _ ?_
    rcases List.mem_append.mp hb with hb | hb
    · exact entries_le_containing (.inl (spellingAs_mem_spellings _ hb)) (spellingAs_le_containing _ h)
    · obtain rfl := Option.mem_toList.mp hb
      refine entries_le_containing (.inr rfl) fun ws hws => ?_
      rcases hws with hws | hws
      · -- Two dots only: no name stands there, and none can be asked for.
        exact absurd (mem_provided.mp hws).1 (Bool.eq_false_iff.mp hbare)
      · exact spellingAs_le_containing _ h hws
  | patAlias anchor inner name =>
    obtain rfl := List.mem_singleton.mp hb
    rw [spelling]
    exact mul_le_of_left (mul_le_of_left (provided_le_containing _ h) _) _
  | minus anchor operand | not anchor operand =>
    obtain rfl := List.mem_singleton.mp hb
    rw [spelling]
    exact mul_le_of_right _ (provided_le_containing _ h)
  | block anchor statements =>
    rw [spelling]
    exact bracketed_le_containing _ _ (prod_spellings_le _ hb h)
  | tuple anchor elements =>
    rw [spelling]
    exact bracketed_le_containing _ _ (commaList_spellings_le _ hb h)
  | _ => cases hb

theorem spelling_le_of_leadsTo {a b : Node} (hleads : a.LeadsTo b) (hbare : b.isBareTail = false)
    (h : b.spelling ≤ containing w) : a.isBareTail = false ∧ a.spelling ≤ containing w := by
  induction hleads using Relation.ReflTransGen.head_induction_on with
  | refl => exact ⟨hbare, h⟩
  | @head a b hnext _ ih =>
    refine ⟨?_, spelling_le_of_next hnext ih.1 ih.2⟩
    cases a <;> first | rfl | cases hnext

end Node

/-- The name that an event is about. -/
def NameEvent.name? : NameEvent → Option String
  | declare name => some name
  | ref name => some name
  | _ => none

namespace Node

/-- A name that a node does something with by itself is a word of its spellings. -/
private theorem spelling_le_of_nameEvent {node : Node} {e : NameEvent} (he : node.nameEvent? = some e) {name : String}
    (hname : e.name? = some name) : node.isBareTail = false ∧ node.spelling ≤ containing ⟨.name, name⟩ := by
  cases node with
  | patName anchor own =>
    cases he
    cases hname
    rw [spelling]
    exact ⟨rfl, provided_le_containing _ (only_le_containing _ _)⟩
  | patAlias anchor inner own =>
    cases he
    cases hname
    rw [spelling]
    exact ⟨rfl, mul_le_of_right _ (only_le_containing _ _)⟩
  | var anchor own =>
    cases he
    cases hname
    rw [spelling]
    exact ⟨rfl, only_le_containing _ _⟩
  | _ => cases he

/-- A name that is declared or referred to at a node is a word of its spellings. -/
theorem spelling_le_containing {node : Node} {e : NameEvent} (he : e ∈ node.events) {name : String}
    (hname : e.name? = some name) : node.spelling ≤ containing ⟨.name, name⟩ := by
  have hopening : e ≠ .opening := by
    rintro rfl
    cases hname
  have hclosing : e ≠ .closing := by
    rintro rfl
    cases hname
  obtain ⟨b, hleads, hb⟩ := (mem_events_iff hopening hclosing).mp he
  obtain ⟨hbare, hle⟩ := spelling_le_of_nameEvent hb hname
  exact (spelling_le_of_leadsTo hleads hbare hle).2

end Node

/-- A name that parameters declare is a word of the spellings of one of them. -/
theorem exists_parameter_le_containing {parameters : List Node} {e : NameEvent} (he : e ∈ parameterEvents parameters)
    {name : String} (hname : e.name? = some name) : ∃ p ∈ parameters, p.spelling ≤ containing ⟨.name, name⟩ := by
  fun_induction parameterEvents parameters with
  | case1 => cases he
  | case2 _ _ _ _ _ _ ih | case4 _ _ _ ih =>
    obtain ⟨p, hp, hle⟩ := ih he
    exact ⟨p, List.mem_cons_of_mem _ hp, hle⟩
  | case3 anchor own label ascription rest _ ih =>
    rcases List.mem_cons.mp he with rfl | he
    · obtain rfl : own = name := Option.some.inj hname
      refine ⟨_, List.mem_cons_self, ?_⟩
      unfold Node.spelling
      exact bracketed_le_containing _ _ (only_le_containing _ _)
    · obtain ⟨p, hp, hle⟩ := ih he
      exact ⟨p, List.mem_cons_of_mem _ hp, hle⟩

/-- A name of a function, of its parameters or of its body is a word of its spellings. -/
theorem functionEvents_le_containing {f : Node} {e : NameEvent} (he : e ∈ functionEvents f) {name : String}
    (hname : e.name? = some name) : f.spelling ≤ containing ⟨.name, name⟩ := by
  cases f with
  | function anchor own visibility parameters body ascription =>
    unfold Node.spelling
    simp only [functionEvents, List.mem_cons, List.mem_append, List.not_mem_nil, or_false] at he
    -- Only the function, a parameter and the body have a name; the openings and closings between them have none.
    rcases he with rfl | rfl | he | rfl | he | rfl | rfl
    · obtain rfl : own = name := Option.some.inj hname
      refine mul_le_of_left (mul_le_of_left (mul_le_of_left (mul_le_of_left (mul_le_of_left ?_ _) _) _) _) _
      exact mul_le_of_right _ (only_le_containing .name own)
    · cases hname
    · obtain ⟨p, hmem, hparameter⟩ := exists_parameter_le_containing he hname
      have hlist := Node.commaList_spellings_le Node.isParameter hmem hparameter
      exact mul_le_of_left (mul_le_of_left (mul_le_of_left (mul_le_of_right _ hlist) _) _) _
    · cases hname
    · rw [eventsAll_eq_flatMap] at he
      obtain ⟨statement, hmem, he⟩ := List.mem_flatMap.mp he
      refine mul_le_of_right _ (bracketed_le_containing _ _ ?_)
      exact Node.prod_spellings_le _ hmem (Node.spelling_le_containing he hname)
    · cases hname
    · cases hname
  | _ => cases he

/-! ### Texts -/

theorem DefinitionsSpelled.mem_of_le_containing {functions imports : List Node} {ws : List Word}
    (h : DefinitionsSpelled functions imports ws) {f : Node} (hf : f ∈ functions) {w : Word}
    (hle : f.spelling ≤ containing w) : w ∈ ws := by
  induction h with
  | nothing => cases hf
  | function _ head _ ih =>
    rcases List.mem_cons.mp hf with rfl | hf
    · exact List.mem_append_left _ (hle head)
    · exact List.mem_append_right _ (ih hf)
  | importing _ _ _ ih => exact List.mem_append_right _ (ih hf)

/-- A name that a module declares or refers to is a word of the module. -/
theorem Module.Spelled.mem_of_event {m : Module} {ws : List Word} (h : m.Spelled ws) {e : NameEvent}
    (he : e ∈ m.events) {name : String} (hname : e.name? = some name) : ⟨.name, name⟩ ∈ ws := by
  obtain ⟨f, hf, he⟩ := List.mem_flatMap.mp he
  exact DefinitionsSpelled.mem_of_le_containing h hf (functionEvents_le_containing he hname)

namespace History

theorem mem_of_declaredIn {w : List NameEvent} {scope : Nat} {name : String} (h : declaredIn w scope name = true) :
    .declare name ∈ w := by
  induction w using List.reverseRecOn with
  | nil => cases h
  | append_singleton w e ih =>
    rw [declaredIn_snoc, Bool.or_eq_true] at h
    rcases h with h | h
    · exact List.mem_append_left _ (ih h)
    · simp only [declares, Bool.and_eq_true, beq_iff_eq] at h
      exact List.mem_append_right _ (h.1 ▸ List.mem_singleton_self _)

/-- What is found is about a name that something was done with. -/
theorem name_of_mem_findings {w : List NameEvent} {d : Diagnostic} (h : d ∈ findings w) :
    ∃ e ∈ w, ∃ name, e.name? = some name ∧ (d = .undefined name ∨ d = .unused name) := by
  induction w using List.reverseRecOn with
  | nil => cases h
  | append_singleton w e ih =>
    rw [findings_snoc, List.mem_append] at h
    rcases h with h | h
    · obtain ⟨e', he', hname⟩ := ih h
      exact ⟨e', List.mem_append_left _ he', hname⟩
    · cases e with
      | declare name => cases h
      | opening => cases h
      | ref name =>
        refine ⟨.ref name, List.mem_append_right _ (List.mem_singleton_self _), name, rfl, .inl ?_⟩
        simp only [findingsAt] at h
        split at h
        · exact List.mem_singleton.mp h
        · cases h
      | closing =>
        obtain ⟨name, hname, rfl⟩ := List.mem_map.mp h
        obtain ⟨scope, -, hname⟩ := List.mem_flatMap.mp hname
        have hdeclared := mem_declaredNames.mp (List.mem_of_mem_filter hname)
        exact ⟨.declare name, List.mem_append_left _ (mem_of_declaredIn hdeclared), name, rfl, .inr rfl⟩

end History

/-- The check of a text that is read finds something in any case, and whatever it finds is about a name of the text,
which is made of the characters of names. -/
theorem Module.name_of_found {text : List Char} {m : Module} (hm : Module.ofTokens (tokenize text) = .ok m) :
    ∃ found, m.check.value = .ok found ∧ ∀ d ∈ found, ∃ name, (d = .undefined name ∨ d = .unused name) ∧
      (∀ c ∈ name.toList, isNamePart c = true) ∧ ∃ t ∈ tokenize text, t.word = ⟨.name, name⟩ := by
  have hregular := Module.isRegular_of_ofTokens (finished_tokenize text) hm
  refine ⟨findings m.events, by rw [Module.check_value, Checker.run_fresh hregular], fun d hd => ?_⟩
  obtain ⟨e, he, name, hname, hsort⟩ := name_of_mem_findings hd
  obtain ⟨t, ht, hword⟩ := List.mem_map.mp ((Module.spelled_tokenize hm).mem_of_event he hname)
  have htoken := List.mem_of_mem_dropLast ht
  have hkind : t.kind = .name := congrArg Word.kind hword
  have hlexed : t.word.Lexed := lexed_of_mem_tokenize htoken (by simp [hkind]) (by simp [hkind])
  rw [hword] at hlexed
  exact ⟨name, hsort, (hlexed.of_name (.inl rfl)).2.1, t, htoken, hword⟩

end ScopeLint
