import Mathlib.Data.List.Dedup
import Mathlib.Data.List.Infix
import ScopeLint.Scope.Session

/-!
# Histories of steps

What the steps of a session make of its scopes, as questions about the list of the steps alone.  A history lists the
steps that were done, the latest first, so that its tails are the moments that it went through.

* `openScopes`: the scopes that are open, each known by the number of steps before it was opened.
* `resolve`: a name means the innermost open scope in which it was declared before.
* `bindings`: a scope lists the names declared in it in the order of their first declarations, each with the
  visibility of its last declaration and the number of references that have meant the scope since then.

An operation on scopes is one more step of the history (`bindings_declare`, `bindings_refer`), so the scopes of a state
can be exchanged for the bindings of a history, where nothing is overwritten.  The events of a module (`NameEvent`) are
told by steps of a tidy sort: their scopes are nested, and they say nothing of visibilities and counts.
-/

namespace ScopeLint

/-! ### Scopes as lists of names -/

private theorem map_update_of_notMem {α β : Type} [DecidableEq α] {a : α} {as : List α} (h : a ∉ as) (f : α → β) (b : β) :
    as.map (Function.update f a b) = as.map f :=
  List.map_congr_left fun _ hmem => Function.update_of_ne (ne_of_mem_of_not_mem hmem h) _ _

section

variable {f : String → Binding} {names : List String} {name : String}

theorem Scope.declare_map (hf : ∀ name, (f name).name = name) (hnames : names.Nodup) (visibility : Visibility) :
    Scope.declare name visibility (names.map f) =
      (if name ∈ names then names else names ++ [name]).map (Function.update f name ⟨name, visibility, 0⟩) := by
  induction names with
  | nil => simp [declare]
  | cons n names ih =>
    obtain ⟨hn, hrest⟩ := List.nodup_cons.mp hnames
    by_cases hname : n = name
    · subst hname
      simp [declare, hf, map_update_of_notMem hn]
    · rw [List.map_cons, declare, hf, if_neg hname, ih hrest]
      simp only [List.mem_cons, Ne.symm hname, false_or]
      split <;> simp [Function.update_of_ne hname]

theorem Scope.refer?_map (hf : ∀ name, (f name).name = name) (hnames : names.Nodup) (hname : name ∈ names) :
    Scope.refer? name (names.map f) =
      some ({ f name with uses := (f name).uses + 1 },
        names.map (Function.update f name { f name with uses := (f name).uses + 1 })) := by
  induction names with
  | nil => cases hname
  | cons n names ih =>
    obtain ⟨hn, hrest⟩ := List.nodup_cons.mp hnames
    by_cases heq : n = name
    · subst heq
      simp [refer?, hf, map_update_of_notMem hn]
    · have hmem : name ∈ names := (List.mem_cons.mp hname).resolve_left (Ne.symm heq)
      simp [refer?, hf, heq, ih hrest hmem]

end

section

variable {B : Nat → Scope} {ks : List Nat} {name : String}

theorem ScopeState.referIn?_map_none (h : ∀ k ∈ ks, (B k).refer? name = none) : referIn? name (ks.map B) = none := by
  induction ks with
  | nil => rfl
  | cons k ks ih =>
    rw [List.map_cons, referIn?, h k List.mem_cons_self, ih fun k' hk' => h k' (List.mem_cons_of_mem _ hk')]
    rfl

theorem ScopeState.referIn?_map_some {p : Nat → Bool} {k : Nat} {found : Binding} {t : Scope} (hks : ks.Nodup)
    (hfind : ks.find? p = some k) (hmiss : ∀ k, p k = false → (B k).refer? name = none)
    (hfound : (B k).refer? name = some (found, t)) :
    referIn? name (ks.map B) = some (found, ks.map (Function.update B k t)) := by
  induction ks with
  | nil => cases hfind
  | cons k' ks ih =>
    obtain ⟨hk', hrest⟩ := List.nodup_cons.mp hks
    cases hp : p k' with
    | true =>
      obtain rfl : k' = k := by simpa [List.find?_cons, hp] using hfind
      simp [referIn?, hfound, map_update_of_notMem hk']
    | false =>
      have hfind' : ks.find? p = some k := by simpa [List.find?_cons, hp] using hfind
      have hne : k' ≠ k := fun e => hk' (e ▸ List.mem_of_find?_eq_some hfind')
      simp [referIn?, hmiss k' hp, ih hrest hfind', Function.update_of_ne hne]

end

namespace StepHistory

/-- The scopes that were entered and not yet left, the latest first: whether each is to be checked. -/
def pending : List ScopeStep → List Bool
  | [] => []
  | .enter checked :: past => checked :: pending past
  | .leave :: past => (pending past).tail
  | _ :: past => pending past

/-- The scopes that are open, the innermost first.  A scope is known by the number of steps before it was opened.  A
scope that is left need not be the one that was entered: the innermost scope is closed, whichever it is. -/
def openScopes : List ScopeStep → List Nat
  | [] => []
  | .push :: past => past.length :: openScopes past
  | .enter _ :: past => past.length :: openScopes past
  | .pop :: past => (openScopes past).tail
  | .leave :: past => if pending past = [] then openScopes past else (openScopes past).tail
  | _ :: past => openScopes past

/-- What the latest step declares, if it declares in the scope. -/
def declaration? (k : Nat) : List ScopeStep → Option (String × Visibility)
  | .declare name visibility :: past => if (openScopes past).head? = some k then some (name, visibility) else none
  | _ => none

/-- The declarations in a scope, the latest first. -/
def declarations (w : List ScopeStep) (k : Nat) : List (String × Visibility) :=
  w.tails.filterMap (declaration? k)

/-- The names declared in a scope, each once, in the order of their first declarations there. -/
def declaredNames (w : List ScopeStep) (k : Nat) : List String :=
  ((declarations w k).map Prod.fst).dedup.reverse

/-- The visibility of the last declaration of a name in a scope. -/
def visibility? (w : List ScopeStep) (k : Nat) (name : String) : Option Visibility :=
  (declarations w k).lookup name

/-- The scope that a name means: the innermost open one in which it was declared. -/
def resolve (w : List ScopeStep) (name : String) : Option Nat :=
  (openScopes w).find? fun k => name ∈ declaredNames w k

/-- The latest step declares a name in a scope. -/
def declares (k : Nat) (name : String) (w : List ScopeStep) : Bool :=
  (declaration? k w).any fun d => d.1 == name

/-- The latest step refers to a name, and the name meant a scope. -/
def refers (k : Nat) (name : String) : List ScopeStep → Bool
  | .refer name' :: past => name' == name && resolve past name == some k
  | _ => false

/-- How many references to a name have meant a scope since the name was last declared there. -/
def uses (w : List ScopeStep) (k : Nat) (name : String) : Nat :=
  (w.tails.takeWhile fun past => !declares k name past).countP (refers k name)

/-- The binding of a name in a scope in which it was declared.  There is a last declaration then
(`exists_visibility?`). -/
def binding (w : List ScopeStep) (k : Nat) (name : String) : Binding :=
  ⟨name, (visibility? w k name).getD .priv, uses w k name⟩

/-- The bindings of a scope. -/
def bindings (w : List ScopeStep) (k : Nat) : Scope :=
  (declaredNames w k).map (binding w k)

/-- The names declared in a scope that nothing outside sees and that no reference has meant since their last
declarations. -/
def unusedNames (w : List ScopeStep) (k : Nat) : List String :=
  (declaredNames w k).filter fun name => visibility? w k name == some .priv && uses w k name == 0

/-! ### One more step -/

variable {w : List ScopeStep} {step : ScopeStep} {k : Nat} {name : String} {visibility : Visibility}

theorem declarations_cons (w : List ScopeStep) (step : ScopeStep) (k : Nat) :
    declarations (step :: w) k = (declaration? k (step :: w)).toList ++ declarations w k := by
  rw [declarations, List.tails_cons, List.filterMap_cons]
  cases declaration? k (step :: w) <;> rfl

theorem declaredNames_cons (w : List ScopeStep) (step : ScopeStep) (k : Nat) :
    declaredNames (step :: w) k =
      match declaration? k (step :: w) with
      | some (name, _) => if name ∈ declaredNames w k then declaredNames w k else declaredNames w k ++ [name]
      | none => declaredNames w k := by
  simp only [declaredNames, declarations_cons, List.mem_reverse, List.mem_dedup]
  cases declaration? k (step :: w) with
  | none => rfl
  | some declaration =>
    simp only [Option.toList_some, List.singleton_append, List.map_cons]
    split
    · next h => rw [List.dedup_cons_of_mem h]
    · next h => rw [List.dedup_cons_of_notMem h, List.reverse_cons]

theorem uses_cons (w : List ScopeStep) (step : ScopeStep) (k : Nat) (name : String) :
    uses (step :: w) k name =
      if declares k name (step :: w) then 0
      else uses w k name + if refers k name (step :: w) then 1 else 0 := by
  rw [uses, List.tails_cons, List.takeWhile_cons]
  cases declares k name (step :: w) with
  | true => rfl
  | false => exact List.countP_cons

theorem refers_eq_false (h : resolve w name ≠ some k) (name' : String) : refers k name' (.refer name :: w) = false := by
  by_contra hr
  simp only [refers, Bool.not_eq_false, Bool.and_eq_true, beq_iff_eq] at hr
  obtain ⟨rfl, hr⟩ := hr
  exact h hr

theorem nodup_declaredNames (w : List ScopeStep) (k : Nat) : (declaredNames w k).Nodup :=
  List.nodup_reverse.mpr (List.nodup_dedup _)

theorem mem_declaredNames : name ∈ declaredNames w k ↔ ∃ visibility, (name, visibility) ∈ declarations w k := by
  simp [declaredNames]

theorem exists_visibility? (h : name ∈ declaredNames w k) : ∃ visibility, visibility? w k name = some visibility := by
  obtain ⟨visibility, h⟩ := mem_declaredNames.mp h
  refine Option.ne_none_iff_exists'.mp fun hnone => ?_
  simpa using List.lookup_eq_none_iff.mp hnone _ h

theorem unusedNames_bindings (w : List ScopeStep) (k : Nat) : (bindings w k).unusedNames = unusedNames w k := by
  rw [Scope.unusedNames, bindings, List.filter_map, List.map_map]
  refine (List.map_id'' (fun _ => rfl) _).trans (List.filter_congr fun name hname => ?_)
  obtain ⟨visibility, h⟩ := exists_visibility? hname
  simp [binding, h]

theorem names_bindings (w : List ScopeStep) (k : Nat) : (bindings w k).names = declaredNames w k :=
  (List.map_map ..).trans (List.map_id'' (fun _ => rfl) _)

/-- A step that neither declares in a scope nor means it leaves the scope as it was. -/
theorem bindings_cons (hdeclaration : declaration? k (step :: w) = none)
    (hrefers : ∀ name, refers k name (step :: w) = false) : bindings (step :: w) k = bindings w k := by
  have hdeclarations : declarations (step :: w) k = declarations w k := by
    rw [declarations_cons, hdeclaration, Option.toList_none, List.nil_append]
  have hbinding : binding (step :: w) k = binding w k := by
    funext name
    simp [binding, visibility?, hdeclarations, uses_cons, declares, hdeclaration, hrefers]
  rw [bindings, bindings, hbinding, declaredNames, hdeclarations, declaredNames]

theorem bindings_quiet (hdeclaration : ∀ k, declaration? k (step :: w) = none)
    (hrefers : ∀ k name, refers k name (step :: w) = false) : bindings (step :: w) = bindings w :=
  funext fun k => bindings_cons (hdeclaration k) (hrefers k)

/-- A declaration in the innermost scope. -/
theorem bindings_declare (hinner : (openScopes w).head? = some k) (name : String) (visibility : Visibility) :
    bindings (.declare name visibility :: w) k = (bindings w k).declare name visibility := by
  have hdeclaration : declaration? k (.declare name visibility :: w) = some (name, visibility) := if_pos hinner
  have hdeclarations : declarations (.declare name visibility :: w) k = (name, visibility) :: declarations w k := by
    rw [declarations_cons, hdeclaration, Option.toList_some, List.singleton_append]
  have hnames := declaredNames_cons w (.declare name visibility) k
  simp only [hdeclaration] at hnames
  have hbinding : binding (.declare name visibility :: w) k =
      Function.update (binding w k) name ⟨name, visibility, 0⟩ := by
    funext name'
    by_cases hname : name' = name
    · subst hname
      simp [binding, visibility?, hdeclarations, uses_cons, declares, hdeclaration]
    · have hne : (name' == name) = false := by simpa using hname
      rw [Function.update_of_ne hname]
      simp [binding, visibility?, hdeclarations, uses_cons, declares, hdeclaration, refers, hne, Ne.symm hname,
        List.lookup_cons]
  rw [bindings, hnames, hbinding, bindings, Scope.declare_map (fun _ => rfl) (nodup_declaredNames w k)]

/-- A reference that means the scope. -/
theorem bindings_refer (hmeans : resolve w name = some k) :
    ∃ found, (bindings w k).refer? name = some (found, bindings (.refer name :: w) k) := by
  have hmem : name ∈ declaredNames w k := by simpa using List.find?_some hmeans
  have hbinding : binding (.refer name :: w) k =
      Function.update (binding w k) name { binding w k name with uses := (binding w k name).uses + 1 } := by
    funext name'
    by_cases hname : name' = name
    · subst hname
      simp [binding, visibility?, declarations_cons, uses_cons, declares, declaration?, refers, hmeans]
    · rw [Function.update_of_ne hname]
      simp [binding, visibility?, declarations_cons, uses_cons, declares, declaration?, refers, Ne.symm hname]
  have hrefer := Scope.refer?_map (f := binding w k) (fun _ => rfl) (nodup_declaredNames w k) hmem
  rw [← hbinding] at hrefer
  have hnames : declaredNames (.refer name :: w) k = declaredNames w k := declaredNames_cons w (.refer name) k
  exact ⟨_, by rw [bindings, hrefer, bindings, hnames]⟩

theorem refer?_bindings_none (hname : name ∉ declaredNames w k) : (bindings w k).refer? name = none := by
  rw [Scope.refer?_eq_none_iff, names_bindings]
  exact hname

/-! ### The open scopes -/

/-- The open scopes were opened one after the other. -/
theorem openScopes_pairwise (w : List ScopeStep) :
    (openScopes w).Pairwise (· > ·) ∧ ∀ k ∈ openScopes w, k < w.length := by
  induction w with
  | nil => exact ⟨.nil, by simp [openScopes]⟩
  | cons step w ih =>
    obtain ⟨hsorted, hbound⟩ := ih
    have hlater : ∀ ks : List Nat, ks.Sublist (openScopes w) → ks.Pairwise (· > ·) ∧ ∀ k ∈ ks, k < (step :: w).length :=
      fun ks h => ⟨hsorted.sublist h, fun k hk => Nat.lt_succ_of_lt (hbound k (h.subset hk))⟩
    have hopened : (w.length :: openScopes w).Pairwise (· > ·) ∧
        ∀ k ∈ w.length :: openScopes w, k < (step :: w).length := by
      refine ⟨List.pairwise_cons.mpr ⟨hbound, hsorted⟩, fun k hk => ?_⟩
      rcases List.mem_cons.mp hk with rfl | hk
      · exact Nat.lt_succ_self _
      · exact (hlater _ (.refl _)).2 k hk
    cases step with
    | push => exact hopened
    | enter checked => exact hopened
    | pop => exact hlater _ (List.tail_sublist _)
    | leave =>
      rw [openScopes]
      split
      · exact hlater _ (.refl _)
      · exact hlater _ (List.tail_sublist _)
    | declare name visibility => exact hlater _ (.refl _)
    | refer name => exact hlater _ (.refl _)
    | binds name => exact hlater _ (.refl _)
    | depth => exact hlater _ (.refl _)
    | report d => exact hlater _ (.refl _)

theorem nodup_openScopes (w : List ScopeStep) : (openScopes w).Nodup :=
  (openScopes_pairwise w).1.imp Nat.ne_of_gt

/-- Nothing was declared in a scope that is yet to be opened. -/
theorem declarations_of_length_le (h : w.length ≤ k) : declarations w k = [] := by
  induction w with
  | nil => rfl
  | cons step w ih =>
    have hw : w.length ≤ k := Nat.le_of_succ_le h
    rw [declarations_cons, ih hw, List.append_nil, Option.toList_eq_nil_iff]
    cases step with
    | declare name visibility =>
      refine if_neg fun hinner => ?_
      exact Nat.not_lt.mpr hw ((openScopes_pairwise w).2 k (List.mem_of_head? hinner))
    | _ => rfl

theorem bindings_of_length_le (h : w.length ≤ k) : bindings w k = [] := by
  rw [bindings, declaredNames, declarations_of_length_le h]
  rfl

/-! ### The open scopes with their bindings -/

/-- The open scopes with their bindings, the innermost first. -/
def scopes (w : List ScopeStep) : List Scope :=
  (openScopes w).map (bindings w)

theorem scopes_of_nil (h : openScopes w = []) : scopes w = [] := by
  rw [scopes, h, List.map_nil]

theorem scopes_of_cons {ks : List Nat} (h : openScopes w = k :: ks) :
    scopes w = bindings w k :: ks.map (bindings w) := by
  rw [scopes, h, List.map_cons]

theorem scopes_quiet (hopen : openScopes (step :: w) = openScopes w) (hdeclaration : ∀ k, declaration? k (step :: w) = none)
    (hrefers : ∀ k name, refers k name (step :: w) = false) : scopes (step :: w) = scopes w := by
  rw [scopes, hopen, bindings_quiet hdeclaration hrefers, scopes]

theorem scopes_opening (hopen : openScopes (step :: w) = w.length :: openScopes w)
    (hbindings : bindings (step :: w) = bindings w) : scopes (step :: w) = [] :: scopes w := by
  rw [scopes, hopen, List.map_cons, hbindings, bindings_of_length_le le_rfl, scopes]

theorem scopes_push (w : List ScopeStep) : scopes (.push :: w) = [] :: scopes w :=
  scopes_opening rfl (bindings_quiet (fun _ => rfl) fun _ _ => rfl)

theorem scopes_enter (checked : Bool) (w : List ScopeStep) : scopes (.enter checked :: w) = [] :: scopes w :=
  scopes_opening rfl (bindings_quiet (fun _ => rfl) fun _ _ => rfl)

theorem scopes_pop (w : List ScopeStep) : scopes (.pop :: w) = (scopes w).tail := by
  have hbindings : bindings (.pop :: w) = bindings w := bindings_quiet (fun _ => rfl) fun _ _ => rfl
  rw [scopes, openScopes, List.map_tail, hbindings, scopes]

theorem scopes_leave (w : List ScopeStep) :
    scopes (.leave :: w) = if pending w = [] then scopes w else (scopes w).tail := by
  have hbindings : bindings (.leave :: w) = bindings w := bindings_quiet (fun _ => rfl) fun _ _ => rfl
  rw [scopes, openScopes, hbindings, scopes]
  split
  · rfl
  · rw [List.map_tail]

/-- Only the innermost scope is declared in. -/
theorem scopes_declare {ks : List Nat} (hopen : openScopes w = k :: ks) (name : String) (visibility : Visibility) :
    scopes (.declare name visibility :: w) = (bindings w k).declare name visibility :: ks.map (bindings w) := by
  have hinner : (openScopes w).head? = some k := by rw [hopen, List.head?_cons]
  have hsame : openScopes (.declare name visibility :: w) = openScopes w := rfl
  have hnodup := nodup_openScopes w
  rw [hopen] at hnodup
  rw [scopes, hsame, hopen, List.map_cons, bindings_declare hinner]
  refine congrArg _ (List.map_congr_left fun k' hk' => bindings_cons (if_neg ?_) fun _ => rfl)
  intro houter
  obtain rfl : k = k' := Option.some.inj (hinner.symm.trans houter)
  exact (List.nodup_cons.mp hnodup).1 hk'

/-- A name means a scope if and only if an open scope has it. -/
theorem isSome_resolve_iff : (resolve w name).isSome = true ↔ ∃ k ∈ openScopes w, name ∈ declaredNames w k := by
  simp [resolve, List.find?_isSome]

/-! ### Operations on the scopes of a history -/

variable {ks : List Nat} (diagnostics : List Diagnostic)

theorem binds_scopes : ScopeState.binds ⟨scopes w, diagnostics⟩ name = (resolve w name).isSome := by
  rw [Bool.eq_iff_iff, isSome_resolve_iff]
  simp [ScopeState.binds, scopes, Scope.binds_iff, names_bindings]

theorem declare_of_nil (hopen : openScopes w = []) :
    ScopeState.declare name visibility ⟨scopes w, diagnostics⟩ = .error (.nowhereToDeclare name) := by
  rw [ScopeState.declare, scopes_of_nil hopen]

theorem declare_of_cons (hopen : openScopes w = k :: ks) :
    ScopeState.declare name visibility ⟨scopes w, diagnostics⟩ =
      .ok ⟨scopes (.declare name visibility :: w), diagnostics⟩ := by
  simp only [ScopeState.declare, scopes_of_cons hopen, scopes_declare hopen]

/-- A reference that means no scope changes nothing. -/
theorem scopes_refer_none (hmeans : resolve w name = none) : scopes (.refer name :: w) = scopes w :=
  scopes_quiet rfl (fun _ => rfl) fun _ => refers_eq_false (by simp [hmeans])

theorem refer?_none (hmeans : resolve w name = none) : ScopeState.refer? name ⟨scopes w, diagnostics⟩ = none := by
  have hscopes : ScopeState.referIn? name (scopes w) = none := by
    refine ScopeState.referIn?_map_none fun k hk => refer?_bindings_none ?_
    simpa using List.find?_eq_none.mp hmeans k hk
  rw [ScopeState.refer?, hscopes, Option.map_none]

/-- Only the scope that is meant counts a reference. -/
theorem refer?_some (hmeans : resolve w name = some k) :
    ∃ found, ScopeState.refer? name ⟨scopes w, diagnostics⟩ = some (found, ⟨scopes (.refer name :: w), diagnostics⟩) := by
  obtain ⟨found, hfound⟩ := bindings_refer hmeans
  have hbindings : bindings (.refer name :: w) = Function.update (bindings w) k (bindings (.refer name :: w) k) := by
    funext k'
    by_cases hk : k' = k
    · subst hk
      rw [Function.update_self]
    · rw [Function.update_of_ne hk]
      exact bindings_cons rfl (refers_eq_false (by simpa [hmeans] using Ne.symm hk))
  have hsame : openScopes (.refer name :: w) = openScopes w := rfl
  have hscopes : ScopeState.referIn? name (scopes w) = some (found, scopes (.refer name :: w)) := by
    rw [scopes, scopes, hsame, hbindings]
    exact ScopeState.referIn?_map_some (nodup_openScopes w) hmeans
      (fun k hk => refer?_bindings_none (by simpa using hk)) hfound
  exact ⟨found, by rw [ScopeState.refer?, hscopes, Option.map_some]⟩

theorem close_of_nil (hopen : openScopes w = []) (checked : Bool) :
    ScopeState.close checked ⟨scopes w, diagnostics⟩ = .error .nothingToClose := by
  rw [scopes_of_nil hopen]
  rfl

/-- The innermost scope is closed, and its unused names are reported if that is asked for. -/
theorem close_of_cons (hopen : openScopes w = k :: ks) (checked : Bool) :
    ScopeState.close checked ⟨scopes w, diagnostics⟩ =
      .ok ⟨(scopes w).tail, diagnostics ++ if checked then (unusedNames w k).map .unused else []⟩ := by
  rw [scopes_of_cons hopen, ← unusedNames_bindings]
  cases checked with
  | true => rfl
  | false => simp [ScopeState.close, ScopeState.pop, Except.map]

end StepHistory

end ScopeLint
