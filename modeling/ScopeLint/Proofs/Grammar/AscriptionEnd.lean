import Mathlib.Order.Bounds.Defs
import ScopeLint.Proofs.Grammar.ModuleReading

/-!
# Where ascriptions end

An ascription ends before the first token of a stopping kind that all brackets are closed before, if it is not empty,
if the input does not end before that, and if no bracket is closed that was not opened (`EndsAscription`).  The rule for
ascriptions watches the nesting token by token and finds this token (`ascriptionStop_spec`).
-/

namespace ScopeLint

/-- How many brackets some tokens open minus how many they close, of whatever shapes. -/
def bracketDepth (ts : List Token) : Int :=
  (ts.countP fun t => t.kind.opens : Nat) - (ts.countP fun t => t.kind.closes : Nat)

/-- The tokens of a list from an index up to another one. -/
def tokensBetween (tokens : List Token) (i j : Nat) : List Token :=
  (tokens.take j).drop i

/-- The ascription that starts at an index of a token list ends before another one. -/
structure EndsAscription (tokens : List Token) (stops : List TokenKind) (i j : Nat) : Prop where
  least : IsLeast {k | i ≤ k ∧ bracketDepth (tokensBetween tokens i k) = 0 ∧ ∃ t ∈ tokens[k]?, t.kind ∈ stops} j
  nonempty : i < j
  inner : ∀ k, i ≤ k → k < j → ∀ t ∈ tokens[k]?,
    t.kind ≠ .endOfInput ∧ (bracketDepth (tokensBetween tokens i k) = 0 → t.kind.closes = false)

namespace Grammar

/-! ### The nesting, token by token -/

theorem bracketDepth_append (ts us : List Token) : bracketDepth (ts ++ us) = bracketDepth ts + bracketDepth us := by
  simp only [bracketDepth, List.countP_append]
  omega

private theorem bracketDepth_cons (t : Token) (ts : List Token) :
    bracketDepth (t :: ts) = bracketDepth [t] + bracketDepth ts :=
  bracketDepth_append [t] ts

private theorem bracketDepth_of_opens {t : Token} (h : t.kind.opens = true) : bracketDepth [t] = 1 := by
  simp [bracketDepth, h, TokenKind.closes_of_opens h]

private theorem bracketDepth_of_closes {t : Token} (h : t.kind.closes = true) : bracketDepth [t] = -1 := by
  have hopens : ¬ t.kind.opens = true := fun hopens => by simp [TokenKind.closes_of_opens hopens] at h
  simp [bracketDepth, h, hopens]

theorem bracketDepth_of_neither {t : Token} (hopens : ¬ t.kind.opens = true) (hcloses : ¬ t.kind.closes = true) :
    bracketDepth [t] = 0 := by
  simp [bracketDepth, hopens, hcloses]

/-- A token of a stopping kind stands behind so many others, and all brackets are closed before it. -/
def StopsBehind (stops : List TokenKind) (depth : Int) (ts : List Token) (k : Nat) : Prop :=
  depth + bracketDepth (ts.take k) = 0 ∧ ∃ t ∈ ts[k]?, t.kind ∈ stops

/-- What goes on at some depth of brackets ends behind so many tokens. -/
structure EndsBehind (stops : List TokenKind) (depth : Int) (ts : List Token) (m : Nat) : Prop where
  stop : StopsBehind stops depth ts m
  first : ∀ k, StopsBehind stops depth ts k → m ≤ k
  inner : ∀ k < m, ∀ t ∈ ts[k]?, t.kind ≠ .endOfInput ∧ (depth + bracketDepth (ts.take k) = 0 → t.kind.closes = false)

variable {stops : List TokenKind} {depth : Int} {t u : Token} {ts us : List Token} {m : Nat}

theorem stopsBehind_zero : StopsBehind stops depth (t :: ts) 0 ↔ depth = 0 ∧ t.kind ∈ stops := by
  simp [StopsBehind, bracketDepth]

theorem stopsBehind_succ (k : Nat) :
    StopsBehind stops depth (t :: ts) (k + 1) ↔ StopsBehind stops (depth + bracketDepth [t]) ts k := by
  rw [StopsBehind, StopsBehind, List.take_succ_cons, List.getElem?_cons_succ, bracketDepth_cons, add_assoc]

/-- Something ends at once before a token of a stopping kind on the outermost level. -/
theorem endsBehind_zero : EndsBehind stops depth (t :: ts) 0 ↔ depth = 0 ∧ t.kind ∈ stops := by
  constructor
  · intro h
    exact stopsBehind_zero.mp h.stop
  · intro h
    exact ⟨stopsBehind_zero.mpr h, fun _ _ => Nat.zero_le _, fun _ hk => absurd hk (Nat.not_lt_zero _)⟩

/-- Something ends later only if the token neither stops it nor is one that must not be in it. -/
theorem endsBehind_succ :
    EndsBehind stops depth (t :: ts) (m + 1) ↔
      ¬ (depth = 0 ∧ t.kind ∈ stops) ∧ t.kind ≠ .endOfInput ∧ (depth = 0 → t.kind.closes = false) ∧
        EndsBehind stops (depth + bracketDepth [t]) ts m := by
  constructor
  · rintro ⟨hstop, hfirst, hinner⟩
    have hnow : t.kind ≠ .endOfInput ∧ (depth = 0 → t.kind.closes = false) := by
      simpa [bracketDepth] using hinner 0 (Nat.succ_pos m) t rfl
    refine ⟨fun h => ?_, hnow.1, hnow.2, (stopsBehind_succ m).mp hstop, fun k hk => ?_, fun k hk u hu => ?_⟩
    · have hle := hfirst 0 (stopsBehind_zero.mpr h)
      omega
    · have hle := hfirst (k + 1) ((stopsBehind_succ k).mpr hk)
      omega
    · have hlater := hinner (k + 1) (Nat.succ_lt_succ hk) u hu
      rwa [List.take_succ_cons, bracketDepth_cons, ← add_assoc] at hlater
  · rintro ⟨hnot, hend, hclose, hstop, hfirst, hinner⟩
    refine ⟨(stopsBehind_succ m).mpr hstop, fun k hk => ?_, fun k hk u hu => ?_⟩
    · cases k with
      | zero => exact absurd (stopsBehind_zero.mp hk) hnot
      | succ k => exact Nat.succ_le_succ (hfirst k ((stopsBehind_succ k).mp hk))
    · cases k with
      | zero =>
        obtain rfl : t = u := Option.some.inj hu
        simpa [bracketDepth] using And.intro hend hclose
      | succ k =>
        have hlater := hinner k (Nat.lt_of_succ_lt_succ hk) u hu
        rwa [add_assoc, ← bracketDepth_cons, ← List.take_succ_cons] at hlater

/-- Tokens whose words close their brackets without a stopping word end before a token of a stopping kind. -/
theorem endsBehind_of_bracketsClose {depth : Nat} (h : Spelling.BracketsClose stops depth (ts.map Token.word))
    (hstop : u.kind ∈ stops) : EndsBehind stops depth (ts ++ u :: us) ts.length := by
  induction ts generalizing depth with
  | nil => exact endsBehind_zero.mpr ⟨Int.natCast_eq_zero.mpr h, hstop⟩
  | cons t ts ih =>
    obtain ⟨hend, hnot, hrest⟩ := h
    have hnot : ¬ ((depth : Int) = 0 ∧ t.kind ∈ stops) := fun hstops => hnot (Int.natCast_eq_zero.mp hstops.1) hstops.2
    refine endsBehind_succ.mpr ⟨hnot, hend, ?_⟩
    split_ifs at hrest with hopens hcloses
    · rw [bracketDepth_of_opens hopens]
      exact ⟨fun _ => TokenKind.closes_of_opens hopens, ih hrest⟩
    · obtain ⟨hpos, hrest⟩ := hrest
      have hdepth : (depth : Int) + -1 = (depth - 1 : Nat) := by omega
      rw [bracketDepth_of_closes hcloses, hdepth]
      exact ⟨fun hzero => by omega, ih hrest⟩
    · rw [bracketDepth_of_neither hopens hcloses, add_zero]
      exact ⟨fun _ => Bool.eq_false_iff.mpr hcloses, ih hrest⟩

theorem tokensBetween_add (tokens : List Token) (i k : Nat) :
    tokensBetween tokens i (i + k) = (tokens.drop i).take k := by
  rw [tokensBetween, List.drop_take, Nat.add_sub_cancel_left]

private theorem stopsBehind_drop {tokens : List Token} {i k : Nat} :
    StopsBehind stops 0 (tokens.drop i) k ↔
      bracketDepth (tokensBetween tokens i (i + k)) = 0 ∧ ∃ t ∈ tokens[i + k]?, t.kind ∈ stops := by
  rw [StopsBehind, tokensBetween_add, List.getElem?_drop, zero_add]

/-- An ascription ends so many tokens further on, at least one. -/
theorem endsAscription_iff {tokens : List Token} {i : Nat} :
    EndsAscription tokens stops i (i + m) ↔ 0 < m ∧ EndsBehind stops 0 (tokens.drop i) m := by
  constructor
  · rintro ⟨⟨hstop, hfirst⟩, hnonempty, hinner⟩
    refine ⟨by omega, stopsBehind_drop.mpr hstop.2, fun k hk => ?_, fun k hk t ht => ?_⟩
    · have hle := hfirst ⟨Nat.le_add_right i k, stopsBehind_drop.mp hk⟩
      omega
    · rw [List.getElem?_drop] at ht
      rw [zero_add, ← tokensBetween_add]
      exact hinner (i + k) (by omega) (by omega) t ht
  · rintro ⟨hpos, hstop, hfirst, hinner⟩
    refine ⟨⟨⟨by omega, stopsBehind_drop.mp hstop⟩, fun k hk => ?_⟩, by omega, fun k hik hk t ht => ?_⟩
    · obtain ⟨hik, hk⟩ := hk
      obtain ⟨n, rfl⟩ := Nat.exists_eq_add_of_le hik
      have hle := hfirst n (stopsBehind_drop.mpr hk)
      omega
    · obtain ⟨n, rfl⟩ := Nat.exists_eq_add_of_le hik
      have hlater := hinner n (by omega) t (by rwa [List.getElem?_drop])
      rwa [zero_add, ← tokensBetween_add] at hlater

/-! ### The rule -/

/-- A token that belongs to an ascription only leads to another depth. -/
private theorem endsBehind_of_passed {next : Int} (hend : t.kind ≠ .endOfInput) (hstop : ¬ (depth = 0 ∧ t.kind ∈ stops))
    (hclose : depth = 0 → t.kind.closes = false) (hnext : next = depth + bracketDepth [t]) :
    t.kind ≠ .endOfInput ∧ ¬ EndsBehind stops depth (t :: ts) 0 ∧
      ∀ m, EndsBehind stops depth (t :: ts) (m + 1) ↔ EndsBehind stops next ts m := by
  subst hnext
  refine ⟨hend, fun h => hstop (endsBehind_zero.mp h), fun m => ⟨fun h => ?_, fun h => ?_⟩⟩
  · exact (endsBehind_succ.mp h).2.2.2
  · exact endsBehind_succ.mpr ⟨hstop, hend, hclose, h⟩

/-- What a token does to an ascription tells whether something ends before it, behind it or nowhere. -/
private theorem ascriptionStep_spec (hstops : .endOfInput ∉ stops) (depth : Nat) (t : Token) (ts : List Token) :
    match ascriptionStep stops depth t with
    | .error _ => ∀ m, ¬ EndsBehind stops depth (t :: ts) m
    | .ok none => EndsBehind stops depth (t :: ts) 0
    | .ok (some next) => t.kind ≠ .endOfInput ∧ ¬ EndsBehind stops depth (t :: ts) 0 ∧
        ∀ m, EndsBehind stops depth (t :: ts) (m + 1) ↔ EndsBehind stops next ts m := by
  have hcast : ((depth : Int) = 0 ∧ t.kind ∈ stops) ↔ (depth = 0 ∧ t.kind ∈ stops) := by rw [Int.natCast_eq_zero]
  unfold ascriptionStep
  split_ifs with hend hstop hopens hcloses hdepth
  · intro m hm
    cases m with
    | zero => exact hstops (hend ▸ (endsBehind_zero.mp hm).2)
    | succ m => exact (endsBehind_succ.mp hm).2.1 hend
  · exact endsBehind_zero.mpr (hcast.mpr hstop)
  · refine endsBehind_of_passed hend (hcast.not.mpr hstop) (fun _ => TokenKind.closes_of_opens hopens) ?_
    rw [bracketDepth_of_opens hopens]
    omega
  · intro m hm
    cases m with
    | zero => exact hstop (hcast.mp (endsBehind_zero.mp hm))
    | succ m =>
      have hopen := (endsBehind_succ.mp hm).2.2.1 (by omega)
      rw [hcloses] at hopen
      cases hopen
  · refine endsBehind_of_passed hend (hcast.not.mpr hstop) (fun hzero => by omega) ?_
    rw [bracketDepth_of_closes hcloses]
    omega
  · refine endsBehind_of_passed hend (hcast.not.mpr hstop) (fun _ => Bool.eq_false_iff.mpr hcloses) ?_
    rw [bracketDepth_of_neither hopens hcloses]
    omega

/-- The rule goes on to the token that the nesting and the stopping kinds say, or there is none and it finds a fault.
The induction is on the tokens behind the current one. -/
theorem ascriptionStop_spec (hstops : .endOfInput ∉ stops) (depth : Nat) (before : List Token) (t : Token)
    (after : List Token) (hclosed : ∀ last ∈ (t :: after).getLast?, last.kind = .endOfInput) :
    match ascriptionStop stops depth before t after with
    | .ok d => ∃ m, EndsBehind stops depth (t :: after) m ∧ d.ahead = (t :: after).drop m ∧
        d.before = ((t :: after).take m).reverse ++ before
    | .error failure => failure.IsFault ∧ ∀ m, ¬ EndsBehind stops depth (t :: after) m := by
  induction after generalizing depth before t with
  | nil =>
    have hend : t.kind = .endOfInput := hclosed t rfl
    have hstep : ascriptionStep stops depth t = .error .ascriptionUnfinished := by rw [ascriptionStep, if_pos hend]
    have hnowhere := ascriptionStep_spec hstops depth t []
    rw [hstep] at hnowhere
    rw [ascriptionStop, hstep]
    exact ⟨⟨_, rfl⟩, hnowhere⟩
  | cons next after ih =>
    have hspec := ascriptionStep_spec hstops depth t (next :: after)
    rw [ascriptionStop]
    cases hstep : ascriptionStep stops depth t with
    | error cause =>
      rw [hstep] at hspec
      exact ⟨⟨_, rfl⟩, hspec⟩
    | ok step =>
      rw [hstep] at hspec
      cases step with
      | none => exact ⟨0, hspec, rfl, rfl⟩
      | some inner =>
        obtain ⟨-, hnow, hlater⟩ := hspec
        have hrest := ih inner (t :: before) next fun last hlast => hclosed last (by rwa [List.getLast?_cons_cons])
        dsimp only
        cases hrun : ascriptionStop stops inner (t :: before) next after with
        | ok d =>
          rw [hrun] at hrest
          obtain ⟨m, hends, hahead, hbefore⟩ := hrest
          refine ⟨m + 1, (hlater m).mpr hends, hahead, ?_⟩
          rw [hbefore, List.take_succ_cons, List.reverse_cons, List.append_assoc, List.singleton_append]
        | error failure =>
          rw [hrun] at hrest
          refine ⟨hrest.1, fun m hm => ?_⟩
          cases m with
          | zero => exact hnow hm
          | succ m => exact hrest.2 m ((hlater m).mp hm)

theorem getElem?_length (ts us : List Token) (u : Token) : (ts ++ u :: us)[ts.length]? = some u := by
  rw [List.getElem?_append_right (Nat.le_refl _), Nat.sub_self, List.getElem?_cons_zero]

/-- The token that ends something is of a stopping kind. -/
theorem EndsBehind.kind_mem (h : EndsBehind stops depth (ts ++ u :: us) ts.length) : u.kind ∈ stops := by
  obtain ⟨-, v, hv, hstop⟩ := h.stop
  rw [getElem?_length] at hv
  exact Option.some.inj hv ▸ hstop

/-- No token before the end is the mark for the end of the input. -/
theorem EndsBehind.kind_ne_endOfInput (h : EndsBehind stops depth (ts ++ u :: us) ts.length) :
    ∀ t ∈ ts, t.kind ≠ .endOfInput := by
  intro t ht
  obtain ⟨k, hk, hget⟩ := List.mem_iff_getElem.mp ht
  refine (h.inner k hk t ?_).1
  rw [List.getElem?_append_left hk, List.getElem?_eq_getElem hk, hget]
  rfl

/-- Something ends before a token of the list. -/
private theorem EndsBehind.exists_split {m : Nat} (h : EndsBehind stops depth ts m) :
    ∃ vs u us, ts = vs ++ u :: us ∧ vs.length = m := by
  obtain ⟨-, u, hu, -⟩ := h.stop
  obtain ⟨hlength, hget⟩ := List.getElem?_eq_some_iff.mp hu
  refine ⟨ts.take m, u, ts.drop (m + 1), ?_, List.length_take_of_le (Nat.le_of_lt hlength)⟩
  rw [← hget, ← List.drop_eq_getElem_cons hlength, List.take_append_drop]

/-- Reading an ascription goes on to the end of it behind at least one token, or there is none and it fails with a
fault. -/
theorem ascription_ends {c : Cursor} (hstops : .endOfInput ∉ stops)
    (hclosed : ∀ last ∈ c.ahead.getLast?, last.kind = .endOfInput) :
    match (ascription stops).run c with
    | .ok (answer, d) => ∃ t ts u us, c.ahead = t :: ts ++ u :: us ∧
        EndsBehind stops 0 (t :: ts ++ u :: us) (t :: ts).length ∧ d.ahead = u :: us ∧
        d.before = (t :: ts).reverse ++ c.before ∧ answer = textBetween c.tokens c.current.start d.previous.stop
    | .error failure => failure.IsFault ∧ ∀ m, 0 < m → ¬ EndsBehind stops 0 c.ahead m := by
  have hspec := ascriptionStop_spec hstops 0 c.before c.current c.after hclosed
  rw [run_ascription]
  cases hrun : ascriptionStop stops 0 c.before c.current c.after with
  | error failure =>
    rw [hrun] at hspec
    exact ⟨hspec.1, fun m _ => hspec.2 m⟩
  | ok d =>
    rw [hrun] at hspec
    obtain ⟨m, hends, hahead, hbefore⟩ := hspec
    obtain ⟨ts, u, us, hsplit, rfl⟩ := hends.exists_split
    rw [hsplit] at hends
    rw [hsplit, List.drop_left] at hahead
    rw [hsplit, List.take_left] at hbefore
    have hindex : d.index = ts.length + c.index := by
      rw [Cursor.index, hbefore, List.length_append, List.length_reverse, Cursor.index]
    simp only [Except.bind]
    cases ts with
    | nil =>
      rw [if_pos (by simpa using hindex)]
      refine ⟨⟨_, rfl⟩, fun m hpos hm => ?_⟩
      have hle := hm.first 0 (by rw [Cursor.ahead, hsplit]; exact hends.stop)
      omega
    | cons t ts =>
      rw [if_neg (by simp [hindex])]
      exact ⟨t, ts, u, us, hsplit, hends, hahead, hbefore, rfl⟩

end Grammar

end ScopeLint
