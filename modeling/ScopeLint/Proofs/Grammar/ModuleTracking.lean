import ScopeLint.Proofs.Grammar.ExpressionTracking
import ScopeLint.Proofs.Grammar.ModuleReading

/-!
# Modules side by side

The rules for imports, functions and modules read two lists in the same way as far as the lists say the same.  For two
whole lists that say the same from their start on, this is `Module.tracks_ofTokens`.
-/

namespace ScopeLint

namespace Grammar

open Reading

variable {p : Twins} {c c' : Cursor}

/-! ### Imports -/

theorem follows_nameOr (cause : FaultCause) : Follows p Token.Alike (nameOr cause) (nameOr cause) := by
  intro c c' hat
  refine tracks_current_of_alike hat (fun t hend => ⟨cause, by simp only [hend]⟩) fun halike => ?_
  rw [← halike.kind]
  generalize hkind : c.current.kind = kind
  cases kind
  case name | upName => exact tracks_advance_last hat (hkind ▸ by decide)
  all_goals exact tracks_fail hat _

theorem follows_importedName : Follows p Eq importedName importedName := by
  intro c c' hat
  refine .bind hat (tracks_acceptsWord hat rfl) fun _ hat => ?_
  refine .bind hat (follows_nameOr _ hat) fun hname hat => .bind hat (tracks_acceptsWord hat rfl) ?_
  rintro replaced _ d d' rfl hat
  refine .ite Iff.rfl (fun _ => ?_) fun _ => tracks_pure hat hname.text
  exact .bind hat (follows_nameOr _ hat) fun hown hat => tracks_pure hat hown.text

theorem follows_importedNames : Follows p Eq importedNames importedNames := by
  intro c c' hat
  refine tracks_sees_seesNext hat (.inr rfl) (by decide) (fun hdot hbrace => ?_) (tracks_pure hat rfl)
  refine tracks_advance hat (hdot ▸ by decide) fun _ hat => tracks_advance hat (hbrace ▸ by decide) fun _ hat => ?_
  refine .bind hat (follows_commaList follows_importedName rfl hat) fun hnames hat => ?_
  refine .bind hat (tracks_expect hat _) fun _ hat => tracks_pure hat ?_
  rwa [List.forall₂_eq_eq_eq] at hnames

theorem follows_importing : Follows p (Node.LooksLike p.view) importing importing := by
  intro c c' hat
  refine tracks_traced (.bind hat (tracks_expect hat _) fun _ hat => ?_)
  refine .bind hat (follows_separated (fun hat => tracks_expect hat _) (fun hat => tracks_acceptsWord hat rfl)
    (fun hat => tracks_expect hat _) hat) fun hpath hat => .bind hat (follows_importedNames hat) ?_
  rintro names _ d d' rfl hat
  refine .bind hat (tracks_behind hat (tracks_acceptsWord hat rfl) fun hat => tracks_expect hat _) fun hasName hat => ?_
  refine .bind hat (tracks_mapM_valueOf hpath hat) ?_
  rintro segments _ d d' rfl hat
  refine tracks_pure hat ?_
  cases hasName with
  | none => rfl
  | some hname => simp only [Node.LooksLike, Node.outline, Option.map_some, hname.text]

/-! ### Functions -/

theorem tracks_function (hat : p.At c c') (halike : c.current.Alike c'.current) :
    Tracks p (Node.LooksLike p.view) function function c c' := by
  refine tracks_traced (tracks_current (.bind hat (tracks_acceptsWord_of_alike hat halike (by decide)) ?_))
  rintro visible _ d d' rfl hat
  refine .bind hat (tracks_expect hat _) fun _ hat => .bind hat (tracks_expect hat _) fun hname hat => ?_
  refine .bind hat (tracks_expect hat _) fun _ hat => ?_
  refine .bind hat (follows_commaList follows_parameter rfl hat) fun hparameters hat => ?_
  refine .bind hat (tracks_expect hat _) fun _ hat => ?_
  refine .bind hat (follows_ascriptionBehind rfl _ hat) fun hascription hat => ?_
  refine .bind hat (follows_block follows_expression hat) fun hbody hat => tracks_pure hat ?_
  simp only [Node.LooksLike, Node.outline, hname.text, outlineAll_eq hparameters, outlineAll_eq hbody, hascription]

/-- A function ends with its body. -/
theorem closes_function (hat : p.At c c') (halike : c.current.Alike c'.current) :
    Closes p (Node.LooksLike p.view) function function c c' := by
  refine closes_traced (closes_current (closes_bind hat (tracks_acceptsWord_of_alike hat halike (by decide)) ?_))
  rintro visible _ d d' rfl hat
  refine closes_bind hat (tracks_expect hat _) fun _ hat => closes_bind hat (tracks_expect hat _) fun hname hat => ?_
  refine closes_bind hat (tracks_expect hat _) fun _ hat => ?_
  refine closes_bind hat (follows_commaList follows_parameter rfl hat) fun hparameters hat => ?_
  refine closes_bind hat (tracks_expect hat _) fun _ hat => ?_
  refine closes_bind hat (follows_ascriptionBehind rfl _ hat) fun hascription hat => ?_
  refine closes_map (closes_block follows_expression hat) fun hbody => ?_
  simp only [Node.LooksLike, Node.outline, hname.text, outlineAll_eq hparameters, outlineAll_eq hbody, hascription]

/-! ### Modules -/

/-- Two parts of a module, of one sort, that look alike. -/
inductive Definition.LooksLike (view : String → String) : Definition → Definition → Prop where
  | importing {a b : Node} (h : a.LooksLike view b) : LooksLike view (.importing a) (.importing b)
  | function {a b : Node} (h : a.LooksLike view b) : LooksLike view (.function a) (.function b)

theorem Definition.imports_rel {view : String → String} {as bs : List Definition}
    (h : List.Forall₂ (Definition.LooksLike view) as bs) :
    List.Forall₂ (Node.LooksLike view) (Definition.imports as) (Definition.imports bs) := by
  induction h with
  | nil => exact .nil
  | cons hab _ ih =>
    cases hab with
    | importing h => exact .cons h ih
    | function h => exact ih

theorem Definition.functions_rel {view : String → String} {as bs : List Definition}
    (h : List.Forall₂ (Definition.LooksLike view) as bs) :
    List.Forall₂ (Node.LooksLike view) (Definition.functions as) (Definition.functions bs) := by
  induction h with
  | nil => exact .nil
  | cons hab _ ih =>
    cases hab with
    | importing h => exact ih
    | function h => exact .cons h ih

theorem tracks_definition (hat : p.At c c') (halike : c.current.Alike c'.current) :
    Tracks p (Round.Rel (Definition.LooksLike p.view)) definition definition c c' := by
  refine tracks_current ?_
  rw [← halike.kind, ← halike.is_eq, ← halike.is_eq, ← halike.is_eq]
  refine .ite Iff.rfl (fun _ => tracks_pure hat .stop) fun _ => .ite Iff.rfl (fun _ => ?_) fun _ => ?_
  · exact .bind hat (follows_importing hat) fun hnode hat => tracks_pure hat (.more (.importing hnode))
  · refine .ite Iff.rfl (fun _ => ?_) fun _ => tracks_fail hat _
    exact .bind hat (tracks_function hat halike) fun hnode hat => tracks_pure hat (.more (.function hnode))

theorem follows_definitions (hp : p.Strict) :
    Follows p (List.Forall₂ (Definition.LooksLike p.view)) (collect definition) (collect definition) :=
  follows_collect fun hat => tracks_definition hat (hat.alike_of_strict hp)

theorem follows_wholeModule (hp : p.Strict) :
    Follows p (fun m m' => m.outline p.view = m'.outline p.view) wholeModule wholeModule := by
  intro c c' hat
  refine tracks_traced (tracks_current (.bind hat (follows_definitions hp hat) fun hdefinitions hat => ?_))
  refine tracks_note (tracks_pure hat ?_)
  simp only [Module.outline, outlineAll_eq (Definition.functions_rel hdefinitions),
    outlineAll_eq (Definition.imports_rel hdefinitions)]

theorem run_wholeModule_ne_endless (hc : Finished c.tokens) : wholeModule.run c ≠ .error .endless := by
  intro hrun
  have h := wholeModule_reads (Cursor.ended_of_finished hc)
  rw [Ensures, hrun] at h
  obtain ⟨fault, hfault⟩ := h
  cases hfault

end Grammar

/-! ### Whole lists -/

theorem Finished.closed_list {ts : List Token} (h : Finished ts) : Closed ts := by
  obtain ⟨last, hlast, hk⟩ := h.closed
  intro last' hlast'
  rw [Option.mem_unique hlast' hlast]
  exact hk

/-- Behind every token of a closed list but the mark for the end of the input there is another one. -/
theorem Closed.getElem?_succ {ts : List Token} (hts : Closed ts) {i : Nat} {t : Token} (ht : ts[i]? = some t)
    (hk : t.kind ≠ .endOfInput) : ∃ u, ts[i + 1]? = some u := by
  have hi : i < ts.length := (List.getElem?_eq_some_iff.mp ht).1
  by_cases hlast : i + 1 = ts.length
  · have hend : ts.getLast? = some t := by rw [List.getLast?_eq_getElem?, ← hlast, Nat.add_sub_cancel, ht]
    exact absurd (hts t hend) hk
  · exact ⟨ts[i + 1], List.getElem?_eq_getElem (by omega)⟩

theorem Finished.exists_cons {ts : List Token} (h : Finished ts) : ∃ t rest, ts = t :: rest := by
  obtain ⟨last, hlast, -⟩ := h.closed
  cases ts with
  | nil => cases hlast
  | cons t rest => exact ⟨t, rest, rfl⟩

theorem getElem?_of_forall₂ {α β : Type} {R : α → β → Prop} {as : List α} {bs : List β} (h : List.Forall₂ R as bs)
    {i : Nat} {a : α} (ha : as[i]? = some a) : ∃ b, bs[i]? = some b ∧ R a b := by
  obtain ⟨hi, rfl⟩ := List.getElem?_eq_some_iff.mp ha
  have hi' : i < bs.length := h.length_eq ▸ hi
  exact ⟨bs[i], List.getElem?_eq_getElem hi', h.get hi hi'⟩

/-- What says the same as a finished list is finished. -/
theorem Finished.of_alike {ts us : List Token} (hts : Finished ts) (h : List.Forall₂ Token.Alike ts us) :
    Finished us := by
  constructor
  · obtain ⟨last, hlast, hk⟩ := hts.closed
    rw [List.getLast?_eq_getElem?] at hlast
    obtain ⟨last', hlast', halike⟩ := getElem?_of_forall₂ h hlast
    refine ⟨last', ?_, halike.kind ▸ hk⟩
    rw [List.getLast?_eq_getElem?, ← h.length_eq]
    exact hlast'
  · intro u hu hne
    obtain ⟨i, hi, rfl⟩ := List.getElem_of_mem hu
    have hi' : i < ts.length := h.length_eq ▸ hi
    have halike : ts[i].Alike us[i] := h.get hi' hi
    rw [← halike.value]
    exact hts.valued _ (List.getElem_mem hi') (halike.kind ▸ hne)

/-- The token of a fault is the one at its index. -/
theorem Module.getElem?_of_fault {ts : List Token} (hts : Finished ts) {f : Fault}
    (hf : Module.ofTokens ts = .error (.fault f)) : ts[f.index]? = some f.token := by
  obtain ⟨t, rest, rfl⟩ := hts.exists_cons
  rw [Module.ofTokens_cons] at hf
  cases hrun : Grammar.wholeModule.run ⟨[], t, rest⟩ with
  | ok answer => simp [hrun, Except.map] at hf
  | error failure =>
    obtain rfl : failure = .fault f := by simpa [hrun, Except.map] using hf
    exact (((Grammar.forward_wholeModule).forward (c := ⟨[], t, rest⟩) hts.closed_list).faults hrun).2

/-- Two lists that say the same from their start on are read as modules that look alike, if they say the same up to
their end, or have the same fault, if they say the same up to there. -/
theorem Module.tracks_ofTokens {p : Twins} (hp : p.Strict) (hshift : p.shift = 0) (hfirst : p.first = 0)
    (hleft : Finished p.left) (hright : Finished p.right) :
    (∀ m, Module.ofTokens p.left = .ok m → p.left.length ≤ p.bound →
      ∃ m', Module.ofTokens p.right = .ok m' ∧ m.outline p.view = m'.outline p.view) ∧
    (∀ f, Module.ofTokens p.left = .error (.fault f) → f.index < p.bound →
      ∃ f', Module.ofTokens p.right = .error (.fault f') ∧ f'.cause = f.cause ∧ f'.index = f.index) := by
  obtain ⟨t, ts, hts⟩ := hleft.exists_cons
  obtain ⟨u, us, hus⟩ := hright.exists_cons
  rw [hus] at hright
  rw [hts, hus, Module.ofTokens_cons, Module.ofTokens_cons]
  -- What tracking leaves open is excluded here: the right list is read to its end.
  have hne := Grammar.run_wholeModule_ne_endless (c := ⟨[], u, us⟩) hright
  have hbeside : p.Beside ⟨[], t, ts⟩ ⟨[], u, us⟩ := ⟨hts.symm, hus.symm, by rw [hshift]; rfl, by rw [hfirst]; exact Nat.zero_le _⟩
  have hforward := (Grammar.forward_wholeModule).forward hbeside.closed
  constructor
  · intro m hm hbound
    cases hrun : Grammar.wholeModule.run ⟨[], t, ts⟩ with
    | error failure => simp [hrun, Except.map] at hm
    | ok answer =>
      obtain ⟨m₁, d⟩ := answer
      obtain rfl : m₁ = m := by simpa [hrun, Except.map] using hm
      have hd : d.index < p.bound := by
        have hlt := d.index_lt
        rw [(hforward.answers hrun).1, hbeside.left] at hlt
        rw [← hts] at hbound
        omega
      have hat : p.At ⟨[], t, ts⟩ ⟨[], u, us⟩ := ⟨hbeside, Nat.lt_of_le_of_lt (hforward.answers hrun).2 hd⟩
      rcases (Grammar.follows_wholeModule hp hat).answers hrun hd with hendless | ⟨m', d', hrun', -, hsame⟩
      · exact absurd hendless hne
      · exact ⟨m', by rw [hrun']; rfl, hsame⟩
  · intro f hf hinside
    cases hrun : Grammar.wholeModule.run ⟨[], t, ts⟩ with
    | ok answer => simp [hrun, Except.map] at hf
    | error failure =>
      obtain rfl : failure = .fault f := by simpa [hrun, Except.map] using hf
      have hat : p.At ⟨[], t, ts⟩ ⟨[], u, us⟩ := ⟨hbeside, Nat.lt_of_le_of_lt (hforward.faults hrun).1 hinside⟩
      rcases (Grammar.follows_wholeModule hp hat).faults hp hrun hinside with hendless | ⟨f', hrun', hcause, hindex⟩
      · exact absurd hendless hne
      · exact ⟨f', by rw [hrun']; rfl, hcause, by rw [hindex, hshift, Nat.add_zero]⟩

end ScopeLint
