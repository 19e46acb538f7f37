import ScopeLint.Proofs.Check.Acceptance
import ScopeLint.Proofs.Grammar.ModuleTracking

/-!
# Layout means nothing

Where the tokens of a list stand, and which ranges of a text they cover, has a bearing on where the nodes of a module
stand and on the texts of its ascriptions, but on nothing else: neither on its outline nor on what a check finds, and
not on the fault of a list that is no module (`Module.ofTokens_alike`).
-/

namespace ScopeLint

/-! ### What an outline does with names -/

mutual

/-- A tree does with names what its outline does. -/
theorem Node.events_outline (view : String → String) : ∀ node : Node, (node.outline view).events = node.events
  | .assignment _ inner _ _ _ | .expression _ inner | .patAlias _ inner _ | .minus _ inner | .not _ inner => by
    simp only [Node.outline, Node.events, inner.events_outline]
  | .use _ nodes _ | .patTuple _ nodes | .block _ nodes | .tuple _ nodes => by
    simp only [Node.outline, Node.events, eventsAll_outline view nodes]
  | .patList _ elements tail => by
    simp only [Node.outline, Node.events, eventsAll_outline view elements, eventsOption_outline view tail]
  | .patName .. | .var .. | .patDiscard .. | .patInt .. | .patFloat .. | .patString .. | .patConstructor ..
  | .constructor .. | .int .. | .float .. | .string .. | .list .. | .argument .. | .call .. | .field .. | .binary ..
  | .clause .. | .choice .. | .lambda .. | .todo .. | .panic .. | .parameter .. | .function .. | .importing ..
  | .wholeModule .. | .unknown .. => by
    simp only [Node.outline, Node.events]

theorem eventsAll_outline (view : String → String) :
    ∀ nodes : List Node, eventsAll (outlineAll view nodes) = eventsAll nodes
  | [] => rfl
  | node :: nodes => by simp only [outlineAll, eventsAll, node.events_outline, eventsAll_outline view nodes]

theorem eventsOption_outline (view : String → String) :
    ∀ node : Option Node, eventsOption (outlineOption view node) = eventsOption node
  | none => rfl
  | some node => by simp only [outlineOption, eventsOption, node.events_outline]

end

theorem parameterEvents_outline (view : String → String) (nodes : List Node) :
    parameterEvents (outlineAll view nodes) = parameterEvents nodes := by
  induction nodes with
  | nil => rfl
  | cons node nodes ih => cases node <;> simp only [outlineAll, Node.outline, parameterEvents, ih]

theorem functionEvents_outline (view : String → String) (node : Node) :
    functionEvents (node.outline view) = functionEvents node := by
  cases node <;> simp only [Node.outline, functionEvents, parameterEvents_outline, eventsAll_outline]

theorem Module.events_outline (view : String → String) (m : Module) : (m.outline view).events = m.events := by
  have hall : ∀ nodes : List Node, (outlineAll view nodes).flatMap functionEvents = nodes.flatMap functionEvents := by
    intro nodes
    induction nodes with
    | nil => rfl
    | cons node nodes ih => rw [outlineAll, List.flatMap_cons, List.flatMap_cons, functionEvents_outline, ih]
  exact hall m.functions

/-! ### Lists that say the same -/

/-- Two lists that say the same, to the end. -/
def Twins.ofAlike {ts us : List Token} (hts : Closed ts) (hus : Closed us) (h : List.Forall₂ Token.Alike ts us) :
    Twins where
  left := ts
  right := us
  shift := 0
  first := 0
  bound := ts.length
  view := fun _ => ""
  leftClosed := hts
  rightClosed := hus
  echo {i t} _ _ ht := by
    obtain ⟨u, hu, halike⟩ := getElem?_of_forall₂ h ht
    exact ⟨u, hu, .inl halike⟩
  next {i t} _ _ ht hk := by
    have hne : t.kind ≠ .endOfInput := by rcases hk with hk | hk <;> rw [hk] <;> decide
    obtain ⟨t', ht'⟩ := hts.getElem?_succ ht hne
    obtain ⟨u', hu', halike⟩ := getElem?_of_forall₂ h ht'
    exact ⟨t', u', ht', hu', fun kind _ => halike.is_eq kind none⟩
  text _ _ _ _ _ _ _ := rfl

theorem Twins.strict_ofAlike {ts us : List Token} (hts : Closed ts) (hus : Closed us)
    (h : List.Forall₂ Token.Alike ts us) : (Twins.ofAlike hts hus h).Strict := by
  intro i t u _ _ ht hu
  obtain ⟨u', hu', halike⟩ := getElem?_of_forall₂ h ht
  have hu : us[i]? = some u := hu
  rw [hu'] at hu
  cases hu
  exact halike

theorem FaultCause.message_eq {t u : Token} (h : t.Alike u) (cause : FaultCause) :
    cause.message t = cause.message u := by
  have hquoted : t.quotedValue = u.quotedValue := by rw [Token.quotedValue, Token.quotedValue, h.value]
  unfold FaultCause.message
  rw [h.kind, hquoted]

/-- Two token lists that say the same, wherever their tokens stand, are both read as modules or both have a fault.  The
modules have one outline if the texts of their ascriptions are blotted out, and a check finds the same in both; the
faults are at the same index and have the same words. -/
theorem Module.ofTokens_alike {ts us : List Token} (hts : Finished ts) (h : List.Forall₂ Token.Alike ts us) :
    (∃ m m' found, Module.ofTokens ts = .ok m ∧ Module.ofTokens us = .ok m' ∧
      (m.outline fun _ => "") = (m'.outline fun _ => "") ∧ m.check.value = .ok found ∧ m'.check.value = .ok found) ∨
    ∃ f f', Module.ofTokens ts = .error (.fault f) ∧ Module.ofTokens us = .error (.fault f') ∧ f'.index = f.index ∧
      ts[f.index]? = some f.token ∧ us[f.index]? = some f'.token ∧
      f'.cause.message f'.token = f.cause.message f.token := by
  have hus := hts.of_alike h
  have htracks := Module.tracks_ofTokens (Twins.strict_ofAlike hts.closed_list hus.closed_list h) rfl rfl hts hus
  rcases Module.ofTokens_cases hts with ⟨f, hf⟩ | ⟨m, -, hm, -⟩
  · right
    have hat := Module.getElem?_of_fault hts hf
    obtain ⟨f', hf', hcause, hindex⟩ := htracks.2 f hf (List.getElem?_eq_some_iff.mp hat).1
    have hat' := Module.getElem?_of_fault hus hf'
    rw [hindex] at hat'
    obtain ⟨u, hu, halike⟩ := getElem?_of_forall₂ h hat
    rw [hat'] at hu
    cases hu
    refine ⟨f, f', hf, hf', hindex, hat, hat', ?_⟩
    rw [hcause, FaultCause.message_eq halike]
  · left
    obtain ⟨m', hm', hsame⟩ := htracks.1 m hm le_rfl
    have hevents : m'.events = m.events :=
      calc
        m'.events = (m'.outline fun _ => "").events := (m'.events_outline _).symm
        _ = (m.outline fun _ => "").events := congrArg Module.events hsame.symm
        _ = m.events := m.events_outline _
    have hcheck : ∀ {ts m}, Finished ts → Module.ofTokens ts = .ok m →
        m.check.value = .ok (History.findings m.events) := by
      intro ts m hts hm
      rw [Module.check_value, Checker.run_fresh (Module.isRegular_of_ofTokens hts hm)]
    refine ⟨m, m', _, hm, hm', hsame, hcheck hts hm, ?_⟩
    rw [hcheck hus hm', hevents]

/-- Tokens that all stand at the same place and cover nothing of a text. -/
def piledUp (ts : List Token) : List Token :=
  ts.map fun t => ⟨t.kind, t.value, 1, 1, 0, 0⟩

/-- The tokens of a module are read as the same module when they are piled up. -/
theorem ofTokens_piledUp :
    Finished commaTokens ∧ List.Forall₂ Token.Alike commaTokens (piledUp commaTokens) ∧
      ∃ m' found, Module.ofTokens (piledUp commaTokens) = .ok m' ∧
        (commaModule.outline fun _ => "") = (m'.outline fun _ => "") ∧
        commaModule.check.value = .ok found ∧ m'.check.value = .ok found := by
  have hfinished : Finished commaTokens := ⟨⟨_, rfl, rfl⟩, by decide⟩
  have halike : List.Forall₂ Token.Alike commaTokens (piledUp commaTokens) :=
    List.forall₂_map_right_iff.mpr (List.forall₂_same.mpr fun _ _ => ⟨rfl, rfl⟩)
  have hcomma : Module.ofTokens commaTokens = .ok commaModule := by rfl
  refine ⟨hfinished, halike, ?_⟩
  rcases Module.ofTokens_alike hfinished halike with ⟨m, m', found, hm, hm', hsame⟩ | ⟨f, _, hf, -⟩
  · rw [hcomma] at hm
    cases hm
    exact ⟨m', found, hm', hsame⟩
  · rw [hcomma] at hf
    cases hf

end ScopeLint
