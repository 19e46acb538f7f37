import Mathlib.Data.List.Forall2
import ScopeLint.Proofs.Grammar.Forward
import ScopeLint.Proofs.Grammar.Passage
import ScopeLint.Proofs.Tree.Outline

/-!
# Reading two lists side by side

Two token lists that say the same for a stretch are read in the same way as long as the reading of the first one stays
inside that stretch.  The stretch need not start at the same index in both lists, nor do the tokens have to stand at the
same places of a text.

* `Twins`: two lists with such a stretch.
* `Reading.Tracks`: from cursors at the same token of the stretch, two readings have alike answers or the same fault,
  if the answer or the fault of the first one is in the stretch.

A rule looks at the current token, and at one more token only behind a name or a dot; this is what `Twins` asks for.
What the second list has behind the stretch may make the reading of it longer, but never endless if its last token is
the mark for the end of the input, so being endless is left open here and excluded once for whole modules.
-/

namespace ScopeLint

/-! ### Tokens that say the same -/

/-- The kinds that a rule looks for behind a token of a kind. -/
def TokenKind.sought : TokenKind → List TokenKind
  | name => [colon]
  | dot => [upName, leftBrace]
  | _ => []

theorem TokenKind.mem_sought {kind sought : TokenKind} (h : sought ∈ kind.sought) :
    kind = .name ∧ sought = .colon ∨ kind = .dot ∧ (sought = .upName ∨ sought = .leftBrace) := by
  cases kind with
  | name => exact .inl ⟨rfl, List.mem_singleton.mp h⟩
  | dot => exact .inr ⟨rfl, by simpa [TokenKind.sought] using h⟩
  | _ => cases h

namespace Token

/-- Two tokens of one kind with one value, wherever they stand. -/
structure Alike (t u : Token) : Prop where
  kind : t.kind = u.kind
  value : t.value = u.value

theorem Alike.refl (t : Token) : t.Alike t :=
  ⟨rfl, rfl⟩

theorem Alike.text {t u : Token} (h : t.Alike u) : t.text = u.text := by
  rw [Token.text, Token.text, h.value]

theorem Alike.is_eq {t u : Token} (h : t.Alike u) (kind : TokenKind) (value : Option String) :
    t.is kind value = u.is kind value := by
  rw [Token.is, Token.is, h.kind, h.value]

/-- The words that start a part of a module. -/
def partWords : List String :=
  ["import", "pub", "fn"]

/-- What stands behind a part of a module: the first word of the next part, or the mark for the end of the input. -/
def EndsPart (t : Token) : Prop :=
  t.kind = .endOfInput ∨ t.kind = .keyword ∧ ∃ word ∈ partWords, t.value = some word

/-- The tokens are alike, or the first list ends where the second one goes on with the next part of a module. -/
def Echoes (t u : Token) : Prop :=
  t.Alike u ∨ t.kind = .endOfInput ∧ u.EndsPart

/-- No token that stands behind a part of a module is of the kind and has the value that may be asked for. -/
def isInner (kind : TokenKind) (value : Option String) : Bool :=
  kind != .endOfInput && (kind != .keyword || value.any (· ∉ partWords))

theorem EndsPart.is_eq_false {t : Token} (h : t.EndsPart) {kind : TokenKind} {value : Option String}
    (hinner : isInner kind value = true) : t.is kind value = false := by
  obtain ⟨hend, hkeyword⟩ := Bool.and_eq_true_iff.mp hinner
  rcases h with hk | ⟨hk, word, hword, hv⟩
  · have hne : (TokenKind.endOfInput == kind) = false := by
      rw [beq_eq_false_iff_ne]
      exact fun heq => by simp [← heq] at hend
    rw [Token.is, hk, hne, Bool.false_and]
  · by_cases hkind : kind = .keyword
    · subst hkind
      obtain ⟨asked, rfl, hasked⟩ : ∃ asked, value = some asked ∧ asked ∉ partWords := by
        cases value with
        | none => simp at hkeyword
        | some asked => exact ⟨asked, rfl, by simpa using hkeyword⟩
      have hne : (some word == some asked) = false := by
        rw [beq_eq_false_iff_ne]
        exact fun heq => hasked (Option.some.inj heq ▸ hword)
      rw [Token.is, hv, hne, Option.isNone_some, Bool.or_self, Bool.and_false]
    · have hne : (TokenKind.keyword == kind) = false := beq_eq_false_iff_ne.mpr fun heq => hkind heq.symm
      rw [Token.is, hk, hne, Bool.false_and]

theorem EndsPart.of_alike {t u : Token} (h : t.EndsPart) (halike : t.Alike u) : u.EndsPart := by
  unfold EndsPart at h ⊢
  rwa [← halike.kind, ← halike.value]

theorem Echoes.is_eq {t u : Token} (h : t.Echoes u) {kind : TokenKind} {value : Option String}
    (hinner : isInner kind value = true) : t.is kind value = u.is kind value := by
  rcases h with halike | ⟨hend, hpart⟩
  · exact halike.is_eq kind value
  · rw [EndsPart.is_eq_false (.inl hend) hinner, hpart.is_eq_false hinner]

/-- What is looked for behind a token is at both tokens or at neither. -/
theorem Echoes.is_sought_eq {t u : Token} (h : t.Echoes u) {kind sought : TokenKind} (hsought : sought ∈ kind.sought) :
    t.is sought none = u.is sought none := by
  refine h.is_eq ?_
  rcases TokenKind.mem_sought hsought with ⟨-, rfl⟩ | ⟨-, rfl | rfl⟩ <;> rfl

theorem Echoes.alike {t u : Token} (h : t.Echoes u) (hk : t.kind ≠ .endOfInput) : t.Alike u :=
  h.resolve_right fun hend => hk hend.1

end Token

/-! ### Twins -/

/-- Two token lists, each ended by the mark for the end of the input.  The tokens of the left one from a first one up to
a bound are echoed in the right one, some tokens further on; what a rule looks for behind a name or a dot of them is
there in both lists or in neither.  Stretches of tokens inside the bound have texts that look alike. -/
structure Twins where
  left : List Token
  right : List Token
  shift : Nat
  first : Nat
  bound : Nat
  view : String → String
  leftClosed : Closed left
  rightClosed : Closed right
  echo : ∀ {i t}, first ≤ i → i < bound → left[i]? = some t → ∃ u, right[i + shift]? = some u ∧ t.Echoes u
  next : ∀ {i t}, first ≤ i → i < bound → left[i]? = some t → t.kind = .name ∨ t.kind = .dot →
    ∃ t' u', left[i + 1]? = some t' ∧ right[i + 1 + shift]? = some u' ∧
      ∀ kind ∈ t.kind.sought, t'.is kind none = u'.is kind none
  text : ∀ {i j t t' u u'}, first ≤ i → i ≤ j → j + 1 < bound → left[i]? = some t → left[j]? = some t' →
    right[i + shift]? = some u → right[j + shift]? = some u' →
      view (textBetween left t.start t'.stop) = view (textBetween right u.start u'.stop)

namespace Twins

/-- All tokens inside the bound are alike. -/
def Strict (p : Twins) : Prop :=
  ∀ i t u, p.first ≤ i → i < p.bound → p.left[i]? = some t → p.right[i + p.shift]? = some u → t.Alike u

/-- The cursors stand at the same token, counted in the left list. -/
structure Beside (p : Twins) (c c' : Cursor) : Prop where
  left : c.tokens = p.left
  right : c'.tokens = p.right
  index : c'.index = c.index + p.shift
  start : p.first ≤ c.index

/-- The cursors stand at the same token inside the bound. -/
structure At (p : Twins) (c c' : Cursor) : Prop extends p.Beside c c' where
  inside : c.index < p.bound

variable {p : Twins} {c c' : Cursor}

theorem Beside.closed (h : p.Beside c c') : Closed c.tokens :=
  h.left ▸ p.leftClosed

theorem At.closed (h : p.At c c') : Closed c.tokens :=
  h.toBeside.closed

theorem At.echoes (h : p.At c c') : c.current.Echoes c'.current := by
  have hleft : p.left[c.index]? = some c.current := h.left ▸ c.getElem?_index
  have hright : p.right[c.index + p.shift]? = some c'.current := by
    rw [← h.index, ← h.right]
    exact c'.getElem?_index
  obtain ⟨u, hu, hecho⟩ := p.echo h.start h.inside hleft
  rw [hright] at hu
  cases hu
  exact hecho

theorem At.alike_of_strict (h : p.At c c') (hp : p.Strict) : c.current.Alike c'.current := by
  have hleft : p.left[c.index]? = some c.current := h.left ▸ c.getElem?_index
  have hright : p.right[c.index + p.shift]? = some c'.current := by
    rw [← h.index, ← h.right]
    exact c'.getElem?_index
  exact hp _ _ _ h.start h.inside hleft hright

/-- What a rule looks for behind a name or a dot is behind both or behind neither. -/
theorem At.next (h : p.At c c') (hk : c.current.kind = .name ∨ c.current.kind = .dot) :
    ∃ t u, c.next? = some t ∧ c'.next? = some u ∧ ∀ kind ∈ c.current.kind.sought, t.is kind none = u.is kind none := by
  have hleft : p.left[c.index]? = some c.current := h.left ▸ c.getElem?_index
  obtain ⟨t, u, ht, hu, hsought⟩ := p.next h.start h.inside hleft hk
  refine ⟨t, u, ?_, ?_, hsought⟩
  · rw [← c.getElem?_succ_index, h.left, ht]
  · rw [← c'.getElem?_succ_index, h.right, h.index, Nat.add_right_comm, hu]

theorem At.alike (h : p.At c c') (hk : c.current.kind ≠ .endOfInput) : c.current.Alike c'.current :=
  h.echoes.alike hk

/-- The cursors behind two tokens, neither of which is the mark for the end of the input. -/
theorem At.advance (h : p.At c c') (hk : c.current.kind ≠ .endOfInput) :
    p.Beside c.advance c'.advance ∧ c.advance.index = c.index + 1 ∧ c'.advance.index = c'.index + 1 := by
  have hk' : c'.current.kind ≠ .endOfInput := (h.alike hk).kind ▸ hk
  have hclosed' : Closed c'.tokens := h.right ▸ p.rightClosed
  have hindex := Cursor.index_advance (Cursor.next?_ne_none h.closed hk)
  have hindex' := Cursor.index_advance (Cursor.next?_ne_none hclosed' hk')
  refine ⟨⟨?_, ?_, ?_, ?_⟩, hindex, hindex'⟩
  · rw [Cursor.tokens_advance, h.left]
  · rw [Cursor.tokens_advance, h.right]
  · rw [hindex, hindex', h.index, Nat.add_right_comm]
  · exact hindex ▸ Nat.le_succ_of_le h.start

end Twins

namespace Reading

variable {α β : Type} {p : Twins} {c c' : Cursor}

/-! ### Tracking -/

/-- From two cursors, the right reading does what the left one does as long as that stays inside the bound: their
answers are related, or their faults are the same.  A fault is tracked only if all tokens inside the bound are alike. -/
structure Tracks (p : Twins) (Q : α → α → Prop) (r r' : Reading α) (c c' : Cursor) : Prop where
  answers : ∀ {a d}, r.run c = .ok (a, d) → d.index < p.bound →
    r'.run c' = .error .endless ∨ ∃ a' d', r'.run c' = .ok (a', d') ∧ p.At d d' ∧ Q a a'
  faults : ∀ {f}, p.Strict → r.run c = .error (.fault f) → f.index < p.bound →
    r'.run c' = .error .endless ∨
      ∃ f', r'.run c' = .error (.fault f') ∧ f'.cause = f.cause ∧ f'.index = f.index + p.shift

/-- The right reading tracks the left one from all cursors inside the bound. -/
def Follows (p : Twins) (Q : α → α → Prop) (r r' : Reading α) : Prop :=
  ∀ {c c'}, p.At c c' → Tracks p Q r r' c c'

namespace Tracks

variable {Q : α → α → Prop} {Q' : β → β → Prop} {r r' s s' : Reading α} {f f' : α → Reading β}

theorem congr (h : Tracks p Q s s' c c') (hr : r.run c = s.run c) (hr' : r'.run c' = s'.run c') :
    Tracks p Q r r' c c' where
  answers hrun hd := hr'.symm ▸ h.answers (hr ▸ hrun) hd
  faults hp hrun hf := hr'.symm ▸ h.faults hp (hr ▸ hrun) hf

theorem mono {R : α → α → Prop} (h : Tracks p Q r r' c c') (hQ : ∀ a a', Q a a' → R a a') :
    Tracks p R r r' c c' where
  answers hrun hd := by
    rcases h.answers hrun hd with hendless | ⟨a', d', hrun', hat, ha⟩
    · exact .inl hendless
    · exact .inr ⟨a', d', hrun', hat, hQ _ _ ha⟩
  faults := h.faults

/-- What goes forward behind the left answer ends inside the bound only if it starts there. -/
theorem bind_le [hr : Forward r] (hat : p.At c c') (h : Tracks p Q r r' c c')
    (hf : ∀ {a a' d d'}, Q a a' → p.At d d' → c.index ≤ d.index → Tracks p Q' (f a) (f' a') d d')
    [hforward : ∀ a, Forward (f a)] : Tracks p Q' (r >>= f) (r' >>= f') c c' where
  answers {b e} hrun he := by
    obtain ⟨a, d, hfirst, hrest⟩ := run_bind_eq_ok.mp hrun
    obtain ⟨htokens, hfrom⟩ := (hr.forward hat.closed).answers hfirst
    -- The bound is known of the end only; the cursor between the two readings is not behind it.
    have hle := (((hforward a).forward (htokens ▸ hat.closed)).answers hrest).2
    rcases h.answers hfirst (Nat.lt_of_le_of_lt hle he) with hendless | ⟨a', d', hfirst', hat', ha⟩
    · exact .inl (run_bind_eq_error.mpr (.inl hendless))
    · rcases (hf ha hat' hfrom).answers hrest he with hendless | ⟨b', e', hrest', hat'', hb⟩
      · exact .inl (run_bind_eq_error.mpr (.inr ⟨a', d', hfirst', hendless⟩))
      · exact .inr ⟨b', e', run_bind_eq_ok.mpr ⟨a', d', hfirst', hrest'⟩, hat'', hb⟩
  faults {g} hp hrun hg := by
    rcases run_bind_eq_error.mp hrun with hfirst | ⟨a, d, hfirst, hrest⟩
    · rcases h.faults hp hfirst hg with hendless | ⟨g', hfirst', hsame⟩
      · exact .inl (run_bind_eq_error.mpr (.inl hendless))
      · exact .inr ⟨g', run_bind_eq_error.mpr (.inl hfirst'), hsame⟩
    · obtain ⟨htokens, hfrom⟩ := (hr.forward hat.closed).answers hfirst
      have hle := (((hforward a).forward (htokens ▸ hat.closed)).faults hrest).1
      rcases h.answers hfirst (Nat.lt_of_le_of_lt hle hg) with hendless | ⟨a', d', hfirst', hat', ha⟩
      · exact .inl (run_bind_eq_error.mpr (.inl hendless))
      · rcases (hf ha hat' hfrom).faults hp hrest hg with hendless | ⟨g', hrest', hsame⟩
        · exact .inl (run_bind_eq_error.mpr (.inr ⟨a', d', hfirst', hendless⟩))
        · exact .inr ⟨g', run_bind_eq_error.mpr (.inr ⟨a', d', hfirst', hrest'⟩), hsame⟩

theorem bind [Forward r] (hat : p.At c c') (h : Tracks p Q r r' c c')
    (hf : ∀ {a a' d d'}, Q a a' → p.At d d' → Tracks p Q' (f a) (f' a') d d')
    [hforward : ∀ a, Forward (f a)] : Tracks p Q' (r >>= f) (r' >>= f') c c' :=
  .bind_le hat h fun ha hat _ => hf ha hat

/-- The same, where an instance cannot be found. -/
theorem bind_of_forward [Forward r] (hat : p.At c c') (h : Tracks p Q r r' c c') (hforward : ∀ a, Forward (f a))
    (hf : ∀ {a a' d d'}, Q a a' → p.At d d' → Tracks p Q' (f a) (f' a') d d') :
    Tracks p Q' (r >>= f) (r' >>= f') c c' :=
  .bind hat h hf

theorem ite {b b' : Prop} [Decidable b] [Decidable b'] (hb : b ↔ b') (hr : b → Tracks p Q r r' c c')
    (hs : ¬ b → Tracks p Q s s' c c') :
    Tracks p Q (if b then r else s) (if b' then r' else s') c c' := by
  by_cases h : b
  · rw [if_pos h, if_pos (hb.mp h)]
    exact hr h
  · rw [if_neg h, if_neg fun h' => h (hb.mpr h')]
    exact hs h

/-- Where the left reading fails at the mark for the end of the input, the current tokens may be taken to be alike. -/
theorem of_alike (hat : p.At c c') (hend : c.current.kind = .endOfInput → ∃ failure, r.run c = .error failure)
    (h : c.current.Alike c'.current → Tracks p Q r r' c c') : Tracks p Q r r' c c' where
  answers {a d} hrun hd := by
    by_cases hk : c.current.kind = .endOfInput
    · obtain ⟨failure, hfailure⟩ := hend hk
      rw [hrun] at hfailure
      cases hfailure
    · exact (h (hat.alike hk)).answers hrun hd
  faults hp := (h (hat.alike_of_strict hp)).faults hp

theorem of_endless (h : r'.run c' = .error .endless) : Tracks p Q r r' c c' where
  answers _ _ := .inl h
  faults _ _ _ := .inl h

end Tracks

variable {Q : α → α → Prop}

theorem tracks_pure {a a' : α} (hat : p.At c c') (h : Q a a') : Tracks p Q (pure a) (pure a') c c' where
  answers hrun _ := by
    cases hrun
    exact .inr ⟨a', c', rfl, hat, h⟩
  faults _ hrun _ := by cases hrun

theorem tracks_traced {rule : Rule} {product : α → Product} {r r' : Reading α} (h : Tracks p Q r r' c c') :
    Tracks p Q (traced rule product r) (traced rule product r') c c' :=
  h.congr (run_traced rule product r c) (run_traced rule product r' c')

theorem tracks_note {event event' : ReadEvent} {f f' : Unit → Reading α} (h : Tracks p Q (f ()) (f' ()) c c') :
    Tracks p Q (note event >>= f) (note event' >>= f') c c' :=
  h.congr rfl rfl

theorem tracks_cursor {f f' : Cursor → Reading α} (h : Tracks p Q (f c) (f' c') c c') :
    Tracks p Q (cursor >>= f) (cursor >>= f') c c' :=
  h.congr rfl rfl

theorem tracks_current {f f' : Token → Reading α} (h : Tracks p Q (f c.current) (f' c'.current) c c') :
    Tracks p Q (current >>= f) (current >>= f') c c' :=
  h.congr rfl rfl

/-- Where the mark for the end of the input is a fault, the current tokens may be taken to be alike. -/
theorem tracks_current_of_alike {f f' : Token → Reading α} (hat : p.At c c')
    (hend : ∀ t, t.kind = .endOfInput → ∃ cause, f t = fail cause)
    (h : c.current.Alike c'.current → Tracks p Q (f c.current) (f' c'.current) c c') :
    Tracks p Q (current >>= f) (current >>= f') c c' := by
  refine .of_alike hat (fun hk => ?_) fun halike => tracks_current (h halike)
  obtain ⟨cause, hfail⟩ := hend c.current hk
  refine ⟨.fault ⟨cause, c.current, c.index⟩, ?_⟩
  show (f c.current).run c = _
  rw [hfail]
  rfl

theorem tracks_failing {failure : ReadFailure} (h : ∀ fault, failure ≠ .fault fault) {r' : Reading α} :
    Tracks p Q (failing failure) r' c c' where
  answers hrun _ := by cases hrun
  faults {f} _ hrun _ := by
    cases hrun
    exact absurd rfl (h f)

theorem tracks_fail (hat : p.At c c') (cause : FaultCause) : Tracks p Q (fail cause) (fail cause) c c' where
  answers hrun _ := by cases hrun
  faults _ hrun _ := by
    cases hrun
    exact .inr ⟨⟨cause, c'.current, c'.index⟩, rfl, rfl, hat.index⟩

theorem tracks_valueOf {t t' : Token} (hat : p.At c c') (h : t.Alike t') :
    Tracks p Eq (valueOf t) (valueOf t') c c' := by
  unfold valueOf
  rw [← h.value]
  split
  · exact tracks_pure hat rfl
  · exact tracks_failing fun _ => ReadFailure.noConfusion

/-! ### Looking at tokens and passing over them -/

theorem run_sees (kind : TokenKind) (f : Bool → Reading α) (c : Cursor) :
    (sees kind >>= f).run c = (f (c.current.is kind none)).run c :=
  rfl

theorem tracks_sees_of_eq {kind : TokenKind} (hsame : c.current.is kind none = c'.current.is kind none)
    {f f' : Bool → Reading α} (h : ∀ b, (b = true → c.current.kind = kind) → Tracks p Q (f b) (f' b) c c') :
    Tracks p Q (sees kind >>= f) (sees kind >>= f') c c' := by
  refine (h (c.current.is kind none) fun hk => Token.is_none_iff.mp hk).congr rfl ?_
  rw [hsame]
  rfl

/-- Whether the current tokens are of a kind is the same for both. -/
theorem tracks_sees {kind : TokenKind} (hat : p.At c c') (hinner : Token.isInner kind none = true)
    {f f' : Bool → Reading α} (h : ∀ b, (b = true → c.current.kind = kind) → Tracks p Q (f b) (f' b) c c') :
    Tracks p Q (sees kind >>= f) (sees kind >>= f') c c' :=
  tracks_sees_of_eq (hat.echoes.is_eq hinner) h

/-- Two tokens are looked at only if the first one is a name or a dot. -/
theorem tracks_sees_seesNext {kind next : TokenKind} (hat : p.At c c') (hkind : kind = .name ∨ kind = .dot)
    (hnext : next ∈ kind.sought) {r r' s s' : Reading α}
    (hr : c.current.kind = kind → c.advance.current.kind = next → Tracks p Q r r' c c')
    (hs : Tracks p Q s s' c c') :
    Tracks p Q (do if (← sees kind) && (← seesNext next) then r else s)
      (do if (← sees kind) && (← seesNext next) then r' else s') c c' := by
  have hinner : Token.isInner kind none = true := by rcases hkind with rfl | rfl <;> rfl
  refine tracks_sees hat hinner fun b hb => ?_
  cases b with
  | false => exact hs.congr rfl rfl
  | true =>
    have hk := hb rfl
    obtain ⟨t, u, ht, hu, hsought⟩ := hat.next (hk ▸ hkind)
    have hsame : (c'.next?.any fun t => t.is next none) = (c.next?.any fun t => t.is next none) := by
      rw [ht, hu, Option.any_some, Option.any_some, hsought next (hk ▸ hnext)]
    have hbranches : Tracks p Q (if (c.next?.any fun t => t.is next none) then r else s)
        (if (c'.next?.any fun t => t.is next none) then r' else s') c c' := by
      refine .ite (by rw [hsame]) (fun hseen => ?_) fun _ => hs
      exact hr hk (Cursor.kind_advance_of_next? hseen)
    exact hbranches.congr rfl rfl

/-- A token that is not the mark for the end of the input is passed over in both lists. -/
theorem tracks_advance {f f' : Token → Reading α} (hat : p.At c c') (hk : c.current.kind ≠ .endOfInput)
    (h : c.current.Alike c'.current → p.At c.advance c'.advance →
      Tracks p Q (f c.current) (f' c'.current) c.advance c'.advance)
    [hforward : ∀ t, Forward (f t)] :
    Tracks p Q (advance >>= f) (advance >>= f') c c' where
  answers hrun hd := by
    have hclosed : Closed c.advance.tokens := c.tokens_advance.symm ▸ hat.closed
    have hle := (((hforward c.current).forward hclosed).answers hrun).2
    exact (h (hat.alike hk) ⟨(hat.advance hk).1, Nat.lt_of_le_of_lt hle hd⟩).answers hrun hd
  faults hp hrun hf := by
    have hclosed : Closed c.advance.tokens := c.tokens_advance.symm ▸ hat.closed
    have hle := (((hforward c.current).forward hclosed).faults hrun).1
    exact (h (hat.alike hk) ⟨(hat.advance hk).1, Nat.lt_of_le_of_lt hle hf⟩).faults hp hrun hf

/-- The same, where an instance cannot be found. -/
theorem tracks_advance_of_forward {f f' : Token → Reading α} (hat : p.At c c') (hk : c.current.kind ≠ .endOfInput)
    (hforward : ∀ t, Forward (f t))
    (h : c.current.Alike c'.current → p.At c.advance c'.advance →
      Tracks p Q (f c.current) (f' c'.current) c.advance c'.advance) :
    Tracks p Q (advance >>= f) (advance >>= f') c c' :=
  tracks_advance hat hk h

theorem tracks_advance_last (hat : p.At c c') (hk : c.current.kind ≠ .endOfInput) :
    Tracks p Token.Alike advance advance c c' where
  answers hrun hd := by
    cases hrun
    exact .inr ⟨c'.current, c'.advance, rfl, ⟨(hat.advance hk).1, hd⟩, hat.alike hk⟩
  faults _ hrun _ := by cases hrun

theorem ne_endOfInput_of_isInner {kind : TokenKind} {value : Option String} (h : Token.isInner kind value = true) :
    kind ≠ .endOfInput := by
  rintro rfl
  cases h

/-- A reading that passes over the current token if it is the one that is asked for. -/
private theorem tracks_acceptance {kind : TokenKind} {value : Option String} (hat : p.At c c')
    (hkind : kind ≠ .endOfInput) (hsame : c.current.is kind value = c'.current.is kind value) :
    Tracks p Eq (do if c.current.is kind value then let _ ← advance; return true else return false)
      (do if c'.current.is kind value then let _ ← advance; return true else return false) c c' := by
  refine .ite (by rw [hsame]) (fun hseen => ?_) fun _ => tracks_pure hat rfl
  have hk : c.current.kind = kind := beq_iff_eq.mp (Bool.and_eq_true_iff.mp hseen).1
  exact tracks_advance hat (hk ▸ hkind) fun _ hat => tracks_pure hat rfl

theorem tracks_accepts {kind : TokenKind} (hat : p.At c c') (hinner : Token.isInner kind none = true) :
    Tracks p Eq (accepts kind) (accepts kind) c c' :=
  (tracks_acceptance hat (ne_endOfInput_of_isInner hinner) (hat.echoes.is_eq hinner)).congr rfl rfl

theorem tracks_acceptsWord {kind : TokenKind} {value : String} (hat : p.At c c')
    (hinner : Token.isInner kind (some value) = true) :
    Tracks p Eq (acceptsWord kind value) (acceptsWord kind value) c c' :=
  (tracks_acceptance hat (ne_endOfInput_of_isInner hinner) (hat.echoes.is_eq hinner)).congr rfl rfl

theorem tracks_acceptsWord_of_alike {kind : TokenKind} {value : String} (hat : p.At c c')
    (halike : c.current.Alike c'.current) (hkind : kind ≠ .endOfInput) :
    Tracks p Eq (acceptsWord kind value) (acceptsWord kind value) c c' :=
  (tracks_acceptance hat hkind (halike.is_eq kind (some value))).congr rfl rfl

theorem tracks_behind {mark mark' : Reading Bool} {r r' : Reading α} [Forward mark] [Forward r] (hat : p.At c c')
    (hmark : Tracks p Eq mark mark' c c') (hr : Follows p Q r r') :
    Tracks p (Option.Rel Q) (behind mark r) (behind mark' r') c c' := by
  refine .bind hat hmark ?_
  rintro b _ d d' rfl hat
  refine .ite Iff.rfl (fun _ => .bind hat (hr hat) fun ha hat => tracks_pure hat (.some ha)) fun _ => ?_
  exact tracks_pure hat .none

/-- No expected token is the mark for the end of the input. -/
theorem run_expect_of_endOfInput (e : Expectation) (hk : c.current.kind = .endOfInput) :
    (expect e).run c = .error (.fault ⟨.missing e, c.current, c.index⟩) := by
  have his : c.current.is e.kind e.value = false := by
    rw [Token.is, hk, beq_eq_false_iff_ne.mpr fun heq => e.kind_ne_endOfInput heq.symm, Bool.false_and]
  rw [run_expect, hk, if_neg (by decide), his]
  rfl

theorem tracks_expect (hat : p.At c c') (e : Expectation) : Tracks p Token.Alike (expect e) (expect e) c c' := by
  refine .of_alike hat (fun hk => ⟨_, run_expect_of_endOfInput e hk⟩) fun halike => ?_
  refine tracks_current ?_
  refine .ite (by rw [halike.kind]) (fun _ => tracks_fail hat _) fun _ => ?_
  refine .ite (by rw [halike.is_eq]) (fun hseen => ?_) fun _ => tracks_fail hat _
  have hk : c.current.kind = e.kind := beq_iff_eq.mp (Bool.and_eq_true_iff.mp hseen).1
  exact tracks_advance_last hat (hk ▸ e.kind_ne_endOfInput)

/-! ### Repeated readings -/

/-- Two rounds that say the same about going on, with related items. -/
inductive Round.Rel (Q : α → α → Prop) : Round α → Round α → Prop where
  | stop : Rel Q .stop .stop
  | last {a a' : α} (h : Q a a') : Rel Q (.last a) (.last a')
  | more {a a' : α} (h : Q a a') : Rel Q (.more a) (.more a')

theorem follows_collectFor {round round' : Reading (Round α)} [Forward round]
    (hround : Follows p (Round.Rel Q) round round') (n n' : Nat) :
    Follows p (List.Forall₂ Q) (collectFor round n) (collectFor round' n') := by
  -- What is left of the right list may be of another length, so its fuel is any number: it may run out first.
  induction n generalizing n' with
  | zero => exact fun _ => tracks_failing fun _ => ReadFailure.noConfusion
  | succ n ih =>
    intro c c' hat
    cases n' with
    | zero => exact .of_endless rfl
    | succ n' =>
      rw [collectFor, collectFor]
      refine .bind_of_forward hat (hround hat) (fun answer => ?_) fun hanswer hat => ?_
      · cases answer <;> infer_instance
      cases hanswer with
      | stop => exact tracks_pure hat .nil
      | last ha => exact tracks_pure hat (.cons ha .nil)
      | more ha => exact .bind hat (ih n' hat) fun has hat => tracks_pure hat (.cons ha has)

theorem follows_collect {round round' : Reading (Round α)} [Forward round]
    (hround : Follows p (Round.Rel Q) round round') : Follows p (List.Forall₂ Q) (collect round) (collect round') :=
  fun hat => tracks_cursor (follows_collectFor hround _ _ hat)

/-- A round of what is read up to a closing brace. -/
def roundToBrace (unfinished : FaultCause) (item : Reading α) : Reading (Round α) := do
  if ← sees .rightBrace then return .stop
  else if ← sees .endOfInput then fail unfinished
  else return .more (← item)

theorem run_upToBrace (unfinished : FaultCause) (item : Reading α) (c : Cursor) :
    (upToBrace unfinished item).run c = (collectFor (roundToBrace unfinished item) c.reach).run c :=
  rfl

instance forward_roundToBrace (unfinished : FaultCause) (item : Reading α) [Forward item] :
    Forward (roundToBrace unfinished item) := by
  unfold roundToBrace
  infer_instance

/-- Without a closing brace there is a fault at the end of the left list. -/
theorem follows_roundToBrace {item item' : Reading α} [Forward item] (hitem : Follows p Q item item')
    (unfinished : FaultCause) :
    Follows p (Round.Rel Q) (roundToBrace unfinished item) (roundToBrace unfinished item') := by
  intro c c' hat
  refine .of_alike hat (fun hend => ?_) fun halike => ?_
  · refine ⟨.fault ⟨unfinished, c.current, c.index⟩, ?_⟩
    have hbrace : c.current.is .rightBrace none = false := by rw [Token.is, hend]; rfl
    have hseen : c.current.is .endOfInput none = true := by rw [Token.is, hend]; rfl
    rw [roundToBrace, run_sees, hbrace, if_neg Bool.false_ne_true, run_sees, hseen, if_pos rfl]
    rfl
  refine tracks_sees hat rfl fun _ _ => .ite Iff.rfl (fun _ => tracks_pure hat .stop) fun _ => ?_
  refine tracks_sees_of_eq (halike.is_eq _ _) fun _ _ => .ite Iff.rfl (fun _ => tracks_fail hat unfinished) fun _ => ?_
  exact .bind hat (hitem hat) fun ha hat => tracks_pure hat (.more ha)

theorem follows_upToBrace {item item' : Reading α} [Forward item] (hitem : Follows p Q item item')
    (unfinished : FaultCause) :
    Follows p (List.Forall₂ Q) (upToBrace unfinished item) (upToBrace unfinished item') :=
  follows_collect (follows_roundToBrace hitem unfinished)

theorem follows_commaList {item item' : Reading α} [Forward item] (hitem : Follows p Q item item')
    {closing : TokenKind} (hclosing : Token.isInner closing none = true) :
    Follows p (List.Forall₂ Q) (commaList item closing) (commaList item' closing) := by
  refine follows_collect fun {c c'} hat => ?_
  refine tracks_sees hat hclosing fun _ _ => .ite Iff.rfl (fun _ => tracks_pure hat .stop) fun _ => ?_
  refine .bind hat (hitem hat) fun ha hat => .bind hat (tracks_accepts hat rfl) ?_
  rintro b _ d d' rfl hat
  exact .ite Iff.rfl (fun _ => tracks_pure hat (.more ha)) fun _ => tracks_pure hat (.last ha)

theorem follows_separated {first first' item item' : Reading α} {mark mark' : Reading Bool} [Forward first]
    [Forward mark] [Forward item] (hfirst : Follows p Q first first') (hmark : Follows p Eq mark mark')
    (hitem : Follows p Q item item') :
    Follows p (List.Forall₂ Q) (separated first mark item) (separated first' mark' item') := by
  intro c c' hat
  refine .bind hat (hfirst hat) fun ha hat => .bind hat (follows_collect (Q := Q) (fun hat => ?_) hat) fun has hat => ?_
  · refine .bind hat (hmark hat) ?_
    rintro b _ d d' rfl hat
    refine .ite Iff.rfl (fun _ => .bind hat (hitem hat) fun ha hat => ?_) fun _ => tracks_pure hat .stop
    exact tracks_pure hat (.more ha)
  · exact tracks_pure hat (.cons ha has)

theorem run_collectFor_more {round : Reading (Round α)} {a : α} {d : Cursor} (h : round.run c = .ok (.more a, d))
    (n : Nat) :
    (collectFor round (n + 1)).run c = ((collectFor round n).run d).map fun answer => (a :: answer.1, answer.2) := by
  rw [collectFor, run_bind, h]
  show (collectFor round n >>= fun as => pure (a :: as)).run d = _
  rw [run_bind]
  cases (collectFor round n).run d <;> rfl

/-- Where the items of the left list are read in the same way from the right one, reading goes on behind them in the
right list.  Whether an item is read in the same way may depend on those behind it. -/
theorem resumes_collectFor {round round' : Reading (Round α)} {all : List α} {e : Cursor}
    (hround : ∀ {c answer d}, round.run c = .ok (answer, d) → answer = .stop ∧ d = c ∨ ∃ a, answer = .more a)
    (hstep : ∀ {c c' a d n as}, p.Beside c c' → round.run c = .ok (.more a, d) →
      (collectFor round n).run d = .ok (as, e) → a :: as <:+ all →
      round'.run c' = .error .endless ∨
        ∃ answer d', round'.run c' = .ok (answer, d') ∧ p.Beside d d' ∧ Round.Rel Q (.more a) answer)
    (n n' : Nat) {c c' : Cursor} {as : List α} (hbeside : p.Beside c c')
    (hrun : (collectFor round n).run c = .ok (as, e)) (hall : as <:+ all) :
    (collectFor round' n').run c' = .error .endless ∨ ∃ k as' e', p.Beside e e' ∧ List.Forall₂ Q as as' ∧
      (collectFor round' n').run c' =
        ((collectFor round' k).run e').map fun answer => (as' ++ answer.1, answer.2) := by
  induction n generalizing n' c c' as with
  | zero => cases hrun
  | succ n ih =>
    obtain ⟨answer, d, hfirst, hrest⟩ := run_bind_eq_ok.mp hrun
    rcases hround hfirst with ⟨rfl, rfl⟩ | ⟨a, rfl⟩
    -- Nothing more of the left list is read, and all that the right one has is still to come.
    · cases hrest
      refine .inr ⟨n', [], c', hbeside, .nil, ?_⟩
      cases (collectFor round' n').run c' <;> rfl
    obtain ⟨bs, _, hbs, hcons⟩ := run_bind_eq_ok.mp hrest
    cases hcons
    cases n' with
    | zero => exact .inl rfl
    | succ n' =>
      rcases hstep hbeside hfirst hbs hall with hendless | ⟨_, d', hfirst', hbeside', hsame⟩
      · exact .inl (run_bind_eq_error.mpr (.inl hendless))
      · cases hsame with
        | more ha =>
          rw [run_collectFor_more hfirst']
          rcases ih n' hbeside' hbs ((List.suffix_cons a bs).trans hall) with
            hendless | ⟨k, bs', e', hend, hbs', hresumed⟩
          · exact .inl (by rw [hendless]; rfl)
          · refine .inr ⟨k, _ :: bs', e', hend, .cons ha hbs', ?_⟩
            rw [hresumed]
            cases (collectFor round' k).run e' <;> rfl

theorem tracks_mapM_valueOf {ts ts' : List Token} (h : List.Forall₂ Token.Alike ts ts') (hat : p.At c c') :
    Tracks p Eq (ts.mapM valueOf) (ts'.mapM valueOf) c c' := by
  have hloop : ∀ (values : List String), ∀ {c c'}, p.At c c' →
      Tracks p Eq (List.mapM.loop valueOf ts values) (List.mapM.loop valueOf ts' values) c c' := by
    induction h with
    | nil =>
      intro values c c' hat
      exact tracks_pure hat rfl
    | cons ht _ ih =>
      intro values c c' hat
      rw [List.mapM.loop, List.mapM.loop]
      refine .bind hat (tracks_valueOf hat ht) ?_
      rintro value _ d d' rfl hat
      exact ih _ hat
  exact hloop [] hat

/-! ### Readings that end with a token -/

/-- From two cursors, the right reading does what the left one does even if that ends at the bound: the last token that
it passes over is inside, and what it looks at behind that one makes no difference. -/
structure Closes (p : Twins) (Q : α → α → Prop) (r r' : Reading α) (c c' : Cursor) : Prop where
  answers : ∀ {a d}, r.run c = .ok (a, d) → d.index ≤ p.bound →
    r'.run c' = .error .endless ∨ ∃ a' d', r'.run c' = .ok (a', d') ∧ p.Beside d d' ∧ Q a a'

theorem closes_congr {r r' s s' : Reading α} (h : Closes p Q s s' c c') (hr : r.run c = s.run c)
    (hr' : r'.run c' = s'.run c') : Closes p Q r r' c c' where
  answers hrun hd := hr'.symm ▸ h.answers (hr ▸ hrun) hd

theorem closes_expect (hat : p.At c c') (e : Expectation) : Closes p Token.Alike (expect e) (expect e) c c' := by
  refine ⟨fun {t d} hrun _ => ?_⟩
  obtain ⟨hk, rfl, rfl⟩ := kind_ne_endOfInput_of_expect hrun
  have halike := hat.alike hk
  right
  refine ⟨c'.current, c'.advance, ?_, (hat.advance hk).1, halike⟩
  -- The right reading takes the branch of the left one.
  rw [run_expect, halike.kind, halike.is_eq] at hrun
  rw [run_expect]
  split at hrun
  · cases hrun
  · split at hrun
    · next hinvalid hseen => rw [if_neg hinvalid, if_pos hseen]; rfl
    · cases hrun

theorem closes_bind {Q' : β → β → Prop} {r r' : Reading α} {f f' : α → Reading β} [hr : Forward r]
    (hat : p.At c c') (h : Tracks p Q r r' c c')
    (hf : ∀ {a a' d d'}, Q a a' → p.At d d' → Closes p Q' (f a) (f' a') d d')
    [hpassing : ∀ a, Passing (f a)] : Closes p Q' (r >>= f) (r' >>= f') c c' := by
  refine ⟨fun {b e} hrun he => ?_⟩
  obtain ⟨a, d, hfirst, hrest⟩ := run_bind_eq_ok.mp hrun
  have htokens := ((hr.forward hat.closed).answers hfirst).1
  have hlt := (hpassing a).passes (htokens ▸ hat.closed) hrest
  rcases h.answers hfirst (Nat.lt_of_lt_of_le hlt he) with hendless | ⟨a', d', hfirst', hat', ha⟩
  · exact .inl (run_bind_eq_error.mpr (.inl hendless))
  · rcases (hf ha hat').answers hrest he with hendless | ⟨b', e', hrest', hbeside, hb⟩
    · exact .inl (run_bind_eq_error.mpr (.inr ⟨a', d', hfirst', hendless⟩))
    · exact .inr ⟨b', e', run_bind_eq_ok.mpr ⟨a', d', hfirst', hrest'⟩, hbeside, hb⟩

/-- Nothing is looked at to put an answer together. -/
theorem closes_map {Q' : β → β → Prop} {r r' : Reading α} {g g' : α → β} (h : Closes p Q r r' c c')
    (hg : ∀ {a a'}, Q a a' → Q' (g a) (g' a')) :
    Closes p Q' (r >>= fun a => pure (g a)) (r' >>= fun a => pure (g' a)) c c' := by
  refine ⟨fun {b e} hrun he => ?_⟩
  obtain ⟨a, d, hfirst, hrest⟩ := run_bind_eq_ok.mp hrun
  cases hrest
  rcases h.answers hfirst he with hendless | ⟨a', d', hfirst', hbeside, ha⟩
  · exact .inl (run_bind_eq_error.mpr (.inl hendless))
  · exact .inr ⟨g' a', d', run_bind_eq_ok.mpr ⟨a', d', hfirst', rfl⟩, hbeside, hg ha⟩

theorem closes_traced {rule : Rule} {product : α → Product} {r r' : Reading α} (h : Closes p Q r r' c c') :
    Closes p Q (traced rule product r) (traced rule product r') c c' :=
  closes_congr h (run_traced rule product r c) (run_traced rule product r' c')

theorem closes_cursor {f f' : Cursor → Reading α} (h : Closes p Q (f c) (f' c') c c') :
    Closes p Q (cursor >>= f) (cursor >>= f') c c' :=
  closes_congr h rfl rfl

theorem closes_current {f f' : Token → Reading α} (h : Closes p Q (f c.current) (f' c'.current) c c') :
    Closes p Q (current >>= f) (current >>= f') c c' :=
  closes_congr h rfl rfl

/-- A fault at a token that has just been passed over is inside the bound if that token is. -/
theorem tracks_expect_failBefore (hat : p.At c c') (e : Expectation) (cause : FaultCause) {b : Bool} {a a' : α}
    (h : Q a a') :
    Tracks p Q (expect e >>= fun _ => if b then failBefore cause else pure a)
      (expect e >>= fun _ => if b then failBefore cause else pure a') c c' := by
  cases b with
  | false => exact .bind_of_forward hat (tracks_expect hat e) (fun _ => forward_pure a) fun _ hat => tracks_pure hat h
  | true =>
    refine { answers := fun {_ d} hrun _ => ?_, faults := fun {f} hp hrun hf => ?_ }
    · obtain ⟨_, _, -, hrest⟩ := run_bind_eq_ok.mp hrun
      cases hrest
    · rcases run_bind_eq_error.mp hrun with hfirst | ⟨t, d, hfirst, hrest⟩
      · rcases (tracks_expect hat e).faults hp hfirst hf with hendless | ⟨f', hfirst', hsame⟩
        · exact .inl (run_bind_eq_error.mpr (.inl hendless))
        · exact .inr ⟨f', run_bind_eq_error.mpr (.inl hfirst'), hsame⟩
      · obtain ⟨hk, -, rfl⟩ := kind_ne_endOfInput_of_expect hfirst
        cases hrest
        have hindex := (hat.advance hk).2.1
        have hinside : c.advance.index ≤ p.bound := by
          have := hat.inside
          omega
        rcases (closes_expect hat e).answers hfirst hinside with hendless | ⟨t', d', hfirst', hbeside, -⟩
        · exact .inl (run_bind_eq_error.mpr (.inl hendless))
        · refine .inr ⟨_, run_bind_eq_error.mpr (.inr ⟨t', d', hfirst', rfl⟩), rfl, ?_⟩
          have := hbeside.index
          show d'.index - 1 = c.advance.index - 1 + p.shift
          omega

end Reading

end ScopeLint
