import ScopeLint.Proofs.Grammar.ModuleTracking

/-!
# The parts of a module

A module is put together from its parts, the imports and functions of its text in order (`Module.exists_parts`).  Of the
last word of some parts enough is known to tell what may stand behind them, and a list that starts like another one
goes on to be read behind the parts of that one as a list of its own would be (`resumes_definitions`).
-/

namespace ScopeLint

open Spelling

/-! ### Parts and modules -/

/-- The module with some parts. -/
def Module.ofParts (anchor : Anchor) (parts : List Grammar.Definition) : Module :=
  ⟨anchor, Grammar.Definition.functions parts, Grammar.Definition.imports parts⟩

theorem Module.ofParts_append (anchor anchor' : Anchor) (parts parts' : List Grammar.Definition) :
    Module.ofParts anchor (parts ++ parts') =
      ⟨anchor, (ofParts anchor parts).functions ++ (ofParts anchor' parts').functions,
        (ofParts anchor parts).imports ++ (ofParts anchor' parts').imports⟩ := by
  simp only [ofParts, Grammar.Definition.functions, Grammar.Definition.imports, List.filterMap_append]

namespace Grammar

open Reading

/-- The parts of the module that a token list spells, in the order of the list. -/
def partsOfTokens (tokens : List Token) : Except ReadFailure (List Definition) :=
  ((collect definition).onTokens tokens).value.map Prod.fst

theorem partsOfTokens_cons (t : Token) (ts : List Token) :
    partsOfTokens (t :: ts) = ((collect definition).run ⟨[], t, ts⟩).map Prod.fst :=
  rfl

theorem run_wholeModule (c : Cursor) :
    wholeModule.run c =
      ((collect definition).run c).map fun answer => (Module.ofParts c.current.anchor answer.1, answer.2) := by
  rw [wholeModule, run_traced]
  show (collect definition >>= _).run c = _
  rw [run_bind]
  cases (collect definition).run c with
  | error failure => rfl
  | ok answer => obtain ⟨parts, d⟩ := answer; rfl

end Grammar

/-- A module is put together from its parts. -/
theorem Module.exists_parts {ts : List Token} {m : Module} (h : Module.ofTokens ts = .ok m) :
    ∃ parts, Grammar.partsOfTokens ts = .ok parts ∧ m = .ofParts m.anchor parts := by
  cases ts with
  | nil => cases h
  | cons t ts =>
    rw [Module.ofTokens_cons, Grammar.run_wholeModule] at h
    rw [Grammar.partsOfTokens_cons]
    cases hrun : (Reading.collect Grammar.definition).run ⟨[], t, ts⟩ with
    | error failure => simp [hrun, Except.map] at h
    | ok answer =>
      obtain rfl : Module.ofParts t.anchor answer.1 = m := by simpa [hrun, Except.map] using h
      exact ⟨answer.1, rfl, rfl⟩

/-- Parts make a module. -/
theorem Module.ofTokens_of_parts {ts : List Token} {parts : List Grammar.Definition}
    (h : Grammar.partsOfTokens ts = .ok parts) : ∃ anchor, Module.ofTokens ts = .ok (.ofParts anchor parts) := by
  cases ts with
  | nil => cases h
  | cons t ts =>
    rw [Grammar.partsOfTokens_cons] at h
    rw [Module.ofTokens_cons, Grammar.run_wholeModule]
    cases hrun : (Reading.collect Grammar.definition).run ⟨[], t, ts⟩ with
    | error failure => simp [hrun, Except.map] at h
    | ok answer =>
      obtain rfl : answer.1 = parts := by simpa [hrun, Except.map] using h
      exact ⟨t.anchor, rfl⟩

theorem Grammar.exists_run_of_partsOfTokens {ts : List Token} {parts : List Definition}
    (h : partsOfTokens ts = .ok parts) :
    ∃ c : Cursor, c.tokens = ts ∧ c.index = 0 ∧ ∃ d, (Reading.collect definition).run c = .ok (parts, d) := by
  cases ts with
  | nil => cases h
  | cons t ts =>
    refine ⟨⟨[], t, ts⟩, rfl, rfl, ?_⟩
    rw [partsOfTokens_cons] at h
    cases hrun : (Reading.collect definition).run ⟨[], t, ts⟩ with
    | error failure => simp [hrun, Except.map] at h
    | ok answer =>
      obtain ⟨parts', d⟩ := answer
      obtain rfl : parts' = parts := by simpa [hrun, Except.map] using h
      exact ⟨d, rfl⟩

/-- The parts of a finished list are read from its first token, or there is a fault at a token of it. -/
theorem Grammar.partsOfTokens_cases {ts : List Token} (hts : Finished ts) :
    ∃ c : Cursor, c.tokens = ts ∧ c.index = 0 ∧
      ((∃ parts d, (Reading.collect definition).run c = .ok (parts, d) ∧ partsOfTokens ts = .ok parts) ∨
        ∃ f, (Reading.collect definition).run c = .error (.fault f) ∧ f.index < ts.length ∧
          partsOfTokens ts = .error (.fault f)) := by
  obtain ⟨t, ts, rfl⟩ := hts.exists_cons
  refine ⟨⟨[], t, ts⟩, rfl, rfl, ?_⟩
  have h := definitions_reads (Cursor.ended_of_finished (c := ⟨[], t, ts⟩) hts)
  unfold Reading.Ensures at h
  rw [partsOfTokens_cons]
  cases hrun : (Reading.collect definition).run ⟨[], t, ts⟩ with
  | ok answer => exact .inl ⟨answer.1, answer.2, rfl, rfl⟩
  | error failure =>
    rw [hrun] at h
    obtain ⟨f, rfl⟩ := h
    have hforward : (Reading.collect definition).ForwardFrom ⟨[], t, ts⟩ :=
      (inferInstance : Reading.Forward _).forward hts.closed_list
    exact .inr ⟨f, rfl, (List.getElem?_eq_some_iff.mp (hforward.faults hrun).2).1, rfl⟩

/-! ### The last word -/

/-- The word lists that are empty or end with a word of some sort. -/
def Spelling.endingIn (good : Word → Prop) : Language Word :=
  {ws | ∀ w ∈ ws.getLast?, good w}

namespace Spelling

variable {good : Word → Prop} {l m : Language Word}

theorem one_le_endingIn : 1 ≤ endingIn good := by
  rintro ws rfl w hw
  cases hw

theorem mul_le_endingIn (hl : l ≤ endingIn good) (hm : m ≤ endingIn good) : l * m ≤ endingIn good := by
  intro ws hws w hw
  obtain ⟨us, hus, vs, hvs, rfl⟩ := Language.mem_mul.mp hws
  rw [List.getLast?_append] at hw
  cases hlast : vs.getLast? with
  | none =>
    rw [hlast, Option.none_or] at hw
    exact hl hus w hw
  | some v =>
    rw [hlast, Option.some_or] at hw
    cases hw
    exact hm hvs w hlast

/-- What stands before the last words has no bearing. -/
theorem behind_le_endingIn (l : Language Word) (hm : m ≤ endingIn good) (hne : [] ∉ m) : l * m ≤ endingIn good := by
  intro ws hws w hw
  obtain ⟨us, -, vs, hvs, rfl⟩ := Language.mem_mul.mp hws
  rw [List.getLast?_append_of_ne_nil _ fun hnil => hne (hnil ▸ hvs)] at hw
  exact hm hvs w hw

theorem anyOf_le_endingIn {kind : TokenKind} (h : ∀ text, good ⟨kind, text⟩) : anyOf kind ≤ endingIn good := by
  rintro ws ⟨text, rfl⟩ w hw
  cases hw
  exact h text

theorem only_le_endingIn {kind : TokenKind} {text : String} (h : good ⟨kind, text⟩) :
    only kind text ≤ endingIn good := by
  rintro ws rfl w hw
  cases hw
  exact h

theorem prod_le_endingIn {ls : List (Language Word)} (h : ∀ l ∈ ls, l ≤ endingIn good) : ls.prod ≤ endingIn good := by
  induction ls with
  | nil => exact one_le_endingIn
  | cons l ls ih =>
    rw [List.prod_cons]
    exact mul_le_endingIn (h l List.mem_cons_self) (ih fun m hm => h m (List.mem_cons_of_mem l hm))

theorem provided_le_endingIn (condition : Bool) (h : l ≤ endingIn good) : provided condition l ≤ endingIn good :=
  fun _ hws => h (mem_provided.mp hws).2

theorem separated_le_endingIn {ls : List (Language Word)} (hm : m ≤ endingIn good)
    (h : ∀ l ∈ ls, l ≤ endingIn good) : separated m ls ≤ endingIn good := by
  cases ls with
  | nil => exact fun _ hws => absurd hws (Language.notMem_zero _)
  | cons l ls =>
    refine mul_le_endingIn (h l List.mem_cons_self) (prod_le_endingIn fun k hk => ?_)
    obtain ⟨l', hl', rfl⟩ := List.mem_map.mp hk
    exact mul_le_endingIn hm (h l' (List.mem_cons_of_mem l hl'))

end Spelling

/-- A function ends with a brace. -/
theorem Node.function_le_endingIn (node : Node) :
    node.spellingAs Node.isFunction ≤ endingIn fun w => w.kind = .rightBrace := by
  intro ws hws
  obtain ⟨hfunction, hws⟩ := mem_provided.mp hws
  cases node with
  | function anchor name visibility parameters body text =>
    simp only [Node.spelling, ← mul_assoc] at hws
    exact behind_le_endingIn _ (anyOf_le_endingIn fun _ => rfl) (nil_notMem_anyOf _) hws
  | _ => cases hfunction

/-- An import ends with a name or a brace. -/
theorem Node.import_le_endingIn (node : Node) :
    node.spellingAs Node.isImport ≤ endingIn fun w => w.kind ≠ .invalid := by
  intro ws hws
  obtain ⟨himport, hws⟩ := mem_provided.mp hws
  cases node with
  | importing anchor modulePath asName names =>
    rw [Node.spelling] at hws
    refine mul_le_endingIn (mul_le_endingIn (mul_le_endingIn ?_ ?_) ?_) ?_ hws
    · exact only_le_endingIn TokenKind.noConfusion
    · rintro ws ⟨segments, -, hws⟩
      refine separated_le_endingIn (only_le_endingIn TokenKind.noConfusion) (fun l hl => ?_) hws
      obtain ⟨segment, -, rfl⟩ := List.mem_map.mp hl
      exact only_le_endingIn TokenKind.noConfusion
    · refine add_le (provided_le_endingIn _ one_le_endingIn) ?_
      exact behind_le_endingIn _ (anyOf_le_endingIn fun _ => TokenKind.noConfusion) (nil_notMem_anyOf _)
    · cases asName with
      | none => exact one_le_endingIn
      | some name =>
        exact mul_le_endingIn (only_le_endingIn TokenKind.noConfusion) (only_le_endingIn TokenKind.noConfusion)
  | _ => cases himport

namespace Grammar

open Reading

theorem parts_le_endingIn (parts : List Definition) :
    (parts.map Definition.spelling).prod ≤ endingIn fun w => w.kind ≠ .invalid := by
  refine prod_le_endingIn fun l hl => ?_
  obtain ⟨part, -, rfl⟩ := List.mem_map.mp hl
  cases part with
  | importing node => exact node.import_le_endingIn
  | function node =>
    intro ws hws w hw hinvalid
    rw [node.function_le_endingIn hws w hw] at hinvalid
    cases hinvalid

/-- Parts of which the last one is a function end with a brace, if there are any. -/
theorem parts_le_endingIn_of_function {parts : List Definition}
    (h : ∀ last ∈ parts.getLast?, ∃ node, last = .function node) :
    (parts.map Definition.spelling).prod ≤ endingIn fun w => w.kind = .rightBrace := by
  rcases List.eq_nil_or_concat parts with rfl | ⟨parts, last, rfl⟩
  · exact one_le_endingIn
  · obtain ⟨node, rfl⟩ := h last (by simp)
    rw [List.concat_eq_append, List.map_append, List.prod_append, List.map_singleton, List.prod_singleton]
    exact behind_le_endingIn _ node.function_le_endingIn (node.nil_notMem_spellingAs _)

/-- The parts of a module are spelled by all tokens before the mark for the end of the input. -/
theorem spelled_of_run_definitions {c d : Cursor} {before : List Token} {last : Token} (hstart : c.index = 0)
    (htokens : c.tokens = before ++ [last]) (hbefore : ∀ t ∈ before, t.kind ≠ .endOfInput)
    (hlast : last.kind = .endOfInput) {parts : List Definition} (hrun : (collect definition).run c = .ok (parts, d)) :
    d.index = before.length ∧ before.map Token.word ∈ (parts.map Definition.spelling).prod := by
  obtain ⟨start, t, ts⟩ := c
  obtain rfl : start = [] := List.eq_nil_of_length_eq_zero hstart
  have hts : t :: ts = before ++ [last] := htokens
  have hclosed : ∀ e ∈ (t :: ts).getLast?, e.kind = .endOfInput := by
    rw [hts, List.getLast?_concat]
    rintro e ⟨⟩
    exact hlast
  have hc : Cursor.Ended ReadFailure.Ends ⟨[], t, ts⟩ := ⟨hclosed, .inl ReadFailure.noConfusion⟩
  obtain ⟨⟨-, us, hahead, hpassed, hinside, hspelled⟩, hkind⟩ := (definitions_reads hc).of_run hrun
  -- Neither what was passed over nor what is before the mark has a mark in it, so both end at the first one.
  have hus : us = before := by
    have htake := congrArg (List.takeWhile fun t => t.kind ≠ .endOfInput)
      (show us ++ d.ahead = before ++ [last] from hahead.symm.trans hts)
    rw [List.takeWhile_append_of_pos (by simpa using hinside),
      List.takeWhile_append_of_pos (by simpa using hbefore)] at htake
    simpa [Cursor.ahead, hkind, hlast] using htake
  subst hus
  exact ⟨by simp [Cursor.index, hpassed], hspelled⟩

/-! ### Reading on behind some parts -/

private theorem run_definition (c : Cursor) :
    definition.run c = (if c.current.kind = .endOfInput then pure .stop
      else if c.current.is .keyword (some "import") then importing >>= fun node => pure (.more (.importing node))
      else if c.current.is .keyword (some "pub") || c.current.is .keyword (some "fn") then
        function >>= fun node => pure (.more (.function node))
      else fail .noDefinition : Reading (Round Definition)).run c :=
  rfl

theorem run_definition_of_endOfInput {c : Cursor} (hk : c.current.kind = .endOfInput) :
    definition.run c = .ok (.stop, c) := by
  rw [run_definition, if_pos hk]
  rfl

/-- A part is read only where one starts. -/
theorem more_of_run_definition {c d : Cursor} {answer : Round Definition} (hk : c.current.kind ≠ .endOfInput)
    (hrun : definition.run c = .ok (answer, d)) : c.current.EndsPart ∧ ∃ a, answer = .more a := by
  have hword : ∀ word ∈ Token.partWords, c.current.is .keyword (some word) = true → c.current.EndsPart := by
    intro word hword his
    obtain ⟨hkind, hvalue⟩ := Token.is_some_iff.mp his
    exact .inr ⟨hkind, word, hword, hvalue⟩
  rw [run_definition, if_neg hk] at hrun
  split at hrun
  · next himport =>
    obtain ⟨node, _, -, hrest⟩ := run_bind_eq_ok.mp hrun
    cases hrest
    exact ⟨hword _ (by decide) himport, _, rfl⟩
  · split at hrun
    · next hfunction =>
      obtain ⟨node, _, -, hrest⟩ := run_bind_eq_ok.mp hrun
      cases hrest
      refine ⟨?_, _, rfl⟩
      rcases Bool.or_eq_true_iff.mp hfunction with hpub | hfn
      · exact hword _ (by decide) hpub
      · exact hword _ (by decide) hfn
    · cases hrun

theorem kind_ne_endOfInput_of_more {c d : Cursor} {a : Definition} (hrun : definition.run c = .ok (.more a, d)) :
    c.current.kind ≠ .endOfInput := by
  intro hend
  rw [run_definition_of_endOfInput hend] at hrun
  cases hrun

theorem endsPart_of_run_definition {c d : Cursor} {answer : Round Definition}
    (hrun : definition.run c = .ok (answer, d)) : c.current.EndsPart := by
  by_cases hk : c.current.kind = .endOfInput
  · exact .inl hk
  · exact (more_of_run_definition hk hrun).1

variable {p : Twins} {c c' d : Cursor}

/-- A part is read in the same way if it ends inside the bound. -/
theorem tracks_part (hat : p.At c c') {a : Definition} (hrun : definition.run c = .ok (.more a, d))
    (hd : d.index < p.bound) :
    definition.run c' = .error .endless ∨ ∃ answer d', definition.run c' = .ok (answer, d') ∧ p.Beside d d' ∧
      Round.Rel (Definition.LooksLike p.view) (.more a) answer := by
  have halike := hat.alike (kind_ne_endOfInput_of_more hrun)
  rcases (tracks_definition hat halike).answers hrun hd with hendless | ⟨answer, d', hrun', hat', hsame⟩
  · exact .inl hendless
  · exact .inr ⟨answer, d', hrun', hat'.toBeside, hsame⟩

/-- A function is read in the same way even if it ends at the bound. -/
theorem closes_part (hat : p.At c c') {node : Node}
    (hrun : definition.run c = .ok (.more (.function node), d)) (hd : d.index ≤ p.bound) :
    definition.run c' = .error .endless ∨ ∃ answer d', definition.run c' = .ok (answer, d') ∧ p.Beside d d' ∧
      Round.Rel (Definition.LooksLike p.view) (.more (.function node)) answer := by
  have halike := hat.alike (kind_ne_endOfInput_of_more hrun)
  rw [run_definition] at hrun ⊢
  rw [halike.kind, halike.is_eq, halike.is_eq, halike.is_eq] at hrun
  split at hrun
  · cases hrun
  next hk =>
  rw [if_neg hk]
  split at hrun
  · obtain ⟨_, _, -, hrest⟩ := run_bind_eq_ok.mp hrun
    cases hrest
  next himport =>
  rw [if_neg himport]
  split at hrun
  · next hfunction =>
    rw [if_pos hfunction]
    exact (closes_map (closes_function hat halike) fun h => .more (.function h)).answers hrun hd
  · cases hrun

private theorem run_definitions_of_endOfInput (hk : c.current.kind = .endOfInput) {n : Nat} {parts : List Definition}
    (hrun : (collectFor definition n).run c = .ok (parts, d)) : parts = [] ∧ d = c := by
  cases n with
  | zero => cases hrun
  | succ n =>
    obtain ⟨answer, _, hround, hrest⟩ := run_bind_eq_ok.mp hrun
    rw [run_definition_of_endOfInput hk] at hround
    cases hround
    cases hrest
    exact ⟨rfl, rfl⟩

/-- Where the parts of the left list are read in the same way from the right one, reading goes on behind them in the
right list.  Whether a part is read in the same way may depend on it if it is the last one. -/
theorem resumes_definitions (good : Definition → Prop)
    (hinside : ∀ i t, p.left[i]? = some t → t.kind ≠ .endOfInput → i < p.bound)
    (hstep : ∀ {c c' a d}, p.At c c' → definition.run c = .ok (.more a, d) → (d.current.kind = .endOfInput → good a) →
      definition.run c' = .error .endless ∨ ∃ answer d', definition.run c' = .ok (answer, d') ∧ p.Beside d d' ∧
        Round.Rel (Definition.LooksLike p.view) (.more a) answer)
    (n n' : Nat) {c c' e : Cursor} {parts : List Definition} (hbeside : p.Beside c c')
    (hrun : (collectFor definition n).run c = .ok (parts, e)) (hgood : ∀ last ∈ parts.getLast?, good last) :
    (collectFor definition n').run c' = .error .endless ∨ ∃ k parts' e', p.Beside e e' ∧
      List.Forall₂ (Definition.LooksLike p.view) parts parts' ∧
      (collectFor definition n').run c' =
        ((collectFor definition k).run e').map fun answer => (parts' ++ answer.1, answer.2) := by
  refine resumes_collectFor (fun {c answer d} hround => ?_) (fun {c c' a d m as} hbeside hround has hsuffix => ?_) n n'
    hbeside hrun (List.suffix_refl parts)
  · by_cases hk : c.current.kind = .endOfInput
    · rw [run_definition_of_endOfInput hk] at hround
      cases hround
      exact .inl ⟨rfl, rfl⟩
    · exact .inr (more_of_run_definition hk hround).2
  · have hk := kind_ne_endOfInput_of_more hround
    refine hstep ⟨hbeside, hinside _ _ (hbeside.left ▸ c.getElem?_index) hk⟩ hround fun hend => ?_
    obtain ⟨rfl, -⟩ := run_definitions_of_endOfInput hend has
    obtain ⟨before, rfl⟩ := hsuffix
    exact hgood a (by simp)

end Grammar

end ScopeLint
