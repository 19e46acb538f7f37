import Mathlib.Data.List.Infix
import ScopeLint.Diagnostic

/-!
# Histories of names

What a module does with names, as a list of events, and what follows from the list alone: which scopes are open,
which scope a name means, and what there is to report.  Every question is asked at a moment, that is about the events
so far; nothing is counted and nothing is overwritten.

* `resolve`: a name means the innermost open scope in which it was declared before.
* `referredSince`: some reference has meant the declaration of a name in a scope since it was last made.
* `findings`: an error at each reference that means no scope, and at each closing a warning for each name of the
  closed scope that nothing has referred to.
-/

namespace ScopeLint

/-- Something that is done with names and scopes. -/
inductive NameEvent where
  | declare (name : String)
  | ref (name : String)
  | opening
  | closing
  deriving DecidableEq

namespace History

/-- A moment of a history: the events before an event, and the event. -/
abbrev Moment := List NameEvent × NameEvent

/-- The moments of a history that has begun with some events, in order. -/
def momentsFrom (past : List NameEvent) : List NameEvent → List Moment
  | [] => []
  | e :: es => (past, e) :: momentsFrom (past ++ [e]) es

/-- The moments of a history, in order. -/
def moments (w : List NameEvent) : List Moment :=
  momentsFrom [] w

/-- What an event does to the scopes that are open, the innermost first.  A scope is known by the number of events up
to its opening. -/
def scopesAfter (scopes : List Nat) : Moment → List Nat
  | (past, .opening) => (past.length + 1) :: scopes
  | (_, .closing) => scopes.tail
  | (_, _) => scopes

/-- The scopes that are open after some events, the innermost first.  The scope of the whole module was opened before
all events. -/
def openScopes (w : List NameEvent) : List Nat :=
  (moments w).foldl scopesAfter [0]

/-- At this moment a name is declared in a scope. -/
def declares (scope : Nat) (name : String) (m : Moment) : Bool :=
  m.2 == .declare name && (openScopes m.1).head? == some scope

/-- A name was declared in a scope. -/
def declaredIn (w : List NameEvent) (scope : Nat) (name : String) : Bool :=
  (moments w).any (declares scope name)

/-- The scope that a name means after some events: the innermost open one in which it was declared. -/
def resolve (w : List NameEvent) (name : String) : Option Nat :=
  (openScopes w).find? fun scope => declaredIn w scope name

/-- At this moment a reference to a name means a scope. -/
def refers (scope : Nat) (name : String) (m : Moment) : Bool :=
  m.2 == .ref name && resolve m.1 name == some scope

/-- Since a name was last declared in a scope, a reference to it has meant this scope. -/
def referredSince (w : List NameEvent) (scope : Nat) (name : String) : Bool :=
  ((moments w).reverse.takeWhile fun m => !declares scope name m).any (refers scope name)

/-- The name that is declared at a moment, if it is declared in the scope. -/
def declaration? (scope : Nat) : Moment → Option String
  | (past, .declare name) => if (openScopes past).head? == some scope then some name else none
  | _ => none

/-- The names declared in a scope, each once, in the order of their first declarations there. -/
def declaredNames (w : List NameEvent) (scope : Nat) : List String :=
  ((moments w).filterMap (declaration? scope)).eraseDups

/-- The names declared in a scope that no reference has meant since their last declaration. -/
def unreferredNames (w : List NameEvent) (scope : Nat) : List String :=
  (declaredNames w scope).filter fun name => !referredSince w scope name

/-- What there is to report at a moment. -/
def findingsAt : Moment → List Diagnostic
  | (past, .ref name) => if (resolve past name).isNone then [.undefined name] else []
  | (past, .closing) => ((openScopes past).head?.toList.flatMap (unreferredNames past)).map .unused
  | _ => []

/-- What there is to report, in the order of the events. -/
def findings (w : List NameEvent) : List Diagnostic :=
  (moments w).flatMap findingsAt

/-! ### One more event -/

private theorem momentsFrom_append (past w v : List NameEvent) :
    momentsFrom past (w ++ v) = momentsFrom past w ++ momentsFrom (past ++ w) v := by
  induction w generalizing past with
  | nil => simp [momentsFrom]
  | cons e w ih => simp [momentsFrom, ih]

theorem moments_snoc (w : List NameEvent) (e : NameEvent) : moments (w ++ [e]) = moments w ++ [(w, e)] := by
  simp [moments, momentsFrom_append, momentsFrom]

theorem openScopes_snoc (w : List NameEvent) (e : NameEvent) :
    openScopes (w ++ [e]) = scopesAfter (openScopes w) (w, e) := by
  simp [openScopes, moments_snoc]

@[simp] theorem openScopes_declare (w : List NameEvent) (name : String) :
    openScopes (w ++ [NameEvent.declare name]) = openScopes w := by
  rw [openScopes_snoc]
  rfl

@[simp] theorem openScopes_ref (w : List NameEvent) (name : String) :
    openScopes (w ++ [NameEvent.ref name]) = openScopes w := by
  rw [openScopes_snoc]
  rfl

@[simp] theorem openScopes_opening (w : List NameEvent) :
    openScopes (w ++ [NameEvent.opening]) = (w.length + 1) :: openScopes w := by
  rw [openScopes_snoc]
  rfl

@[simp] theorem openScopes_closing (w : List NameEvent) :
    openScopes (w ++ [NameEvent.closing]) = (openScopes w).tail := by
  rw [openScopes_snoc]
  rfl

theorem declaredIn_snoc (w : List NameEvent) (e : NameEvent) (scope : Nat) (name : String) :
    declaredIn (w ++ [e]) scope name = (declaredIn w scope name || declares scope name (w, e)) := by
  simp [declaredIn, moments_snoc]

theorem referredSince_snoc (w : List NameEvent) (e : NameEvent) (scope : Nat) (name : String) :
    referredSince (w ++ [e]) scope name =
      (!declares scope name (w, e) && (refers scope name (w, e) || referredSince w scope name)) := by
  simp only [referredSince, moments_snoc, List.reverse_append, List.reverse_cons, List.reverse_nil, List.nil_append,
    List.singleton_append, List.takeWhile_cons]
  cases declares scope name (w, e) <;> simp

theorem findings_snoc (w : List NameEvent) (e : NameEvent) : findings (w ++ [e]) = findings w ++ findingsAt (w, e) := by
  simp [findings, moments_snoc]

theorem mem_declaredNames {w : List NameEvent} {scope : Nat} {name : String} :
    name ∈ declaredNames w scope ↔ declaredIn w scope name = true := by
  simp only [declaredNames, declaredIn, List.mem_eraseDups, List.mem_filterMap, List.any_eq_true]
  refine exists_congr fun m => and_congr_right fun _ => ?_
  obtain ⟨past, e⟩ := m
  cases e <;> simp [declaration?, declares, and_comm]

theorem declaredNames_snoc (w : List NameEvent) (e : NameEvent) (scope : Nat) :
    declaredNames (w ++ [e]) scope =
      match declaration? scope (w, e) with
      | some name => if declaredIn w scope name then declaredNames w scope else declaredNames w scope ++ [name]
      | none => declaredNames w scope := by
  cases h : declaration? scope (w, e) with
  | none => simp [declaredNames, moments_snoc, h]
  | some name =>
    have hmem : name ∈ declaredNames w scope ↔ declaredIn w scope name = true := mem_declaredNames
    simp only [declaredNames, List.mem_eraseDups] at hmem
    simp only [declaredNames, moments_snoc, List.filterMap_append, List.filterMap_cons, h, List.filterMap_nil,
      List.eraseDups_append]
    by_cases hd : declaredIn w scope name = true
    · simp [hd, List.removeAll, hmem.mpr hd]
    · simp [hd, List.removeAll, mt hmem.mp hd, List.eraseDups_cons]

theorem nodup_declaredNames (w : List NameEvent) (scope : Nat) : (declaredNames w scope).Nodup := by
  induction w using List.reverseRecOn with
  | nil => simp [declaredNames, moments, momentsFrom]
  | append_singleton w e ih =>
    rw [declaredNames_snoc]
    split
    · split
      · exact ih
      · next name _ hd =>
        refine List.nodup_append.mpr ⟨ih, by simp, ?_⟩
        intro a ha b hb
        obtain rfl := List.mem_singleton.mp hb
        exact fun e => hd (mem_declaredNames.mp (e ▸ ha))
    · exact ih

/-! ### Scopes are told apart by their openings -/

/-- The scopes that are open were opened one after the other, and none of them later than now. -/
theorem openScopes_pairwise (w : List NameEvent) :
    (openScopes w).Pairwise (· > ·) ∧ ∀ scope ∈ openScopes w, scope ≤ w.length := by
  induction w using List.reverseRecOn with
  | nil => simp [openScopes, moments, momentsFrom]
  | append_singleton w e ih =>
    obtain ⟨hsorted, hbound⟩ := ih
    rw [openScopes_snoc, List.length_append]
    have hlater : ∀ scope ∈ openScopes w, scope ≤ w.length + 1 := fun scope h => Nat.le_succ_of_le (hbound scope h)
    cases e with
    | declare name => exact ⟨hsorted, hlater⟩
    | ref name => exact ⟨hsorted, hlater⟩
    | opening =>
      refine ⟨List.pairwise_cons.mpr ⟨fun scope h => Nat.lt_succ_of_le (hbound scope h), hsorted⟩, ?_⟩
      intro scope h
      rcases List.mem_cons.mp h with rfl | h
      · simp
      · exact hlater scope h
    | closing =>
      refine ⟨hsorted.sublist (List.tail_sublist _), ?_⟩
      intro scope h
      exact hlater scope (List.mem_of_mem_tail h)

/-- The scope of the module is never opened again. -/
theorem zero_mem_of_snoc {v : List NameEvent} {e : NameEvent} (h : 0 ∈ openScopes (v ++ [e])) : 0 ∈ openScopes v := by
  cases e with
  | declare name => simpa using h
  | ref name => simpa using h
  | opening => simpa using h
  | closing =>
    rw [openScopes_closing] at h
    exact List.mem_of_mem_tail h

/-- While the scope of the module stays open, every scope that is closed lies inside it. -/
theorem ne_zero_of_closing {v : List NameEvent} (h : 0 ∈ openScopes (v ++ [NameEvent.closing])) {scope : Nat}
    {outer : List Nat} (hopen : openScopes v = scope :: outer) : scope ≠ 0 := by
  have hsorted := (openScopes_pairwise v).1
  rw [openScopes_closing, hopen] at h
  rw [hopen, List.pairwise_cons] at hsorted
  exact Nat.ne_of_gt (hsorted.1 0 h)

/-- Nothing was declared in a scope that is yet to be opened. -/
theorem declaredIn_of_length_lt {w : List NameEvent} {scope : Nat} (h : w.length < scope) (name : String) :
    declaredIn w scope name = false := by
  induction w using List.reverseRecOn with
  | nil => rfl
  | append_singleton w e ih =>
    rw [List.length_append] at h
    rw [declaredIn_snoc, ih (by simp at h; omega), Bool.false_or]
    by_contra hd
    simp only [declares, Bool.not_eq_false, Bool.and_eq_true, beq_iff_eq] at hd
    have := (openScopes_pairwise w).2 scope (List.mem_of_head? hd.2)
    simp at h
    omega

theorem declaredNames_of_length_lt {w : List NameEvent} {scope : Nat} (h : w.length < scope) :
    declaredNames w scope = [] := by
  rw [List.eq_nil_iff_forall_not_mem]
  intro name hname
  have := mem_declaredNames.mp hname
  rw [declaredIn_of_length_lt h] at this
  exact absurd this (by simp)

end History

end ScopeLint
