import ScopeLint.Proofs.Grammar.Parts
import ScopeLint.Proofs.Token.Concatenation

/-!
# Modules one behind the other

Two texts that are read as modules make, with a line feed between them, the module with the functions and the imports
of both (`Module.ofTokens_concatenated`).  The tokens of the whole text are those of the first text without the mark for
its end, and those of the other text further on (`Joins`).  So the whole list is read side by side with the first list
up to that mark, and side by side with the other list from there on.

A rule may have looked at the mark, but what it does then is what it does where a part of a module starts.  If it is not
known that one starts there, the first list has to end with a function, which ends with a brace and looks at nothing
behind it.
-/

namespace ScopeLint

/-! ### Texts of ranges -/

theorem spacedText_shifted {distance : Nat} {ts us : List Token} (h : List.Forall₂ (Token.Shifted distance) ts us) :
    spacedText ts = spacedText us := by
  induction h with
  | nil => rfl
  | cons ht hrest ih =>
    cases hrest with
    | nil => exact ht.text
    | cons hnext hrest =>
      have hmeet : ∀ {t t' u u' : Token}, t.Shifted distance u → t'.Shifted distance u' →
          (t.stop = t'.start ↔ u.stop = u'.start) := by
        intro t t' u u' ht ht'
        rw [ht.stop, ht'.start]
        omega
      rw [spacedText, spacedText, ih, ht.text]
      simp only [hmeet ht hnext]

/-- A range of a list that is moved as a whole. -/
theorem textBetween_shifted {distance : Nat} {ts us : List Token} (h : List.Forall₂ (Token.Shifted distance) ts us)
    (start stop : Int) : textBetween ts start stop = textBetween us (start + distance) (stop + distance) := by
  refine spacedText_shifted (List.rel_filter (fun {t u} htu => ?_) h)
  simp only [decide_eq_true_eq, htu.start, htu.stop, htu.kind, add_le_add_iff_right]

theorem textBetween_append_left {ts us : List Token} {start stop : Int} (h : ∀ t ∈ ts, t.start < start) :
    textBetween (ts ++ us) start stop = textBetween us start stop := by
  have hnone : ts.filter (fun t => decide (start ≤ t.start ∧ t.stop ≤ stop ∧ t.kind ≠ .endOfInput)) = [] := by
    refine List.filter_eq_nil_iff.mpr fun t ht => ?_
    have := h t ht
    simp only [decide_eq_true_eq, not_and]
    omega
  rw [textBetween, textBetween, List.filter_append, hnone, List.nil_append]

theorem textBetween_append_right {ts us : List Token} {start stop : Int}
    (h : ∀ u ∈ us, stop < u.stop ∨ u.kind = .endOfInput) :
    textBetween (ts ++ us) start stop = textBetween ts start stop := by
  have hnone : us.filter (fun t => decide (start ≤ t.start ∧ t.stop ≤ stop ∧ t.kind ≠ .endOfInput)) = [] := by
    refine List.filter_eq_nil_iff.mpr fun u hu => ?_
    simp only [decide_eq_true_eq, not_and]
    rcases h u hu with hstop | hend
    · omega
    · simp [hend]
  rw [textBetween, textBetween, List.filter_append, hnone, List.append_nil]

/-! ### One list behind another -/

/-- Two lists, the first one of which is some tokens with a mark that ends it.  The tokens of the other list stand
behind those of the first one when they are moved by some distance. -/
structure Joins (distance : Nat) (before : List Token) (ending : Token) (second behind : List Token) : Prop where
  inner : ∀ t ∈ before, t.kind ≠ .endOfInput ∧ t.value.isSome = true
  ends : ending.kind = .endOfInput
  finished : Finished second
  shifted : List.Forall₂ (Token.Shifted distance) second behind
  apart : ∀ t ∈ before, ∀ u ∈ behind, t.start < u.start ∧ t.stop < u.stop

namespace Joins

variable {distance : Nat} {before : List Token} {ending : Token} {second behind : List Token}

theorem finished_first (h : Joins distance before ending second behind) : Finished (before ++ [ending]) := by
  refine ⟨⟨ending, List.getLast?_concat, h.ends⟩, fun t ht hne => ?_⟩
  rcases List.mem_append.mp ht with ht | ht
  · exact (h.inner t ht).2
  · exact absurd (List.mem_singleton.mp ht ▸ h.ends) hne

theorem finished_behind (h : Joins distance before ending second behind) : Finished behind :=
  h.finished.of_alike (h.shifted.imp fun _ _ htu => htu.toAlike)

theorem finished_whole (h : Joins distance before ending second behind) : Finished (before ++ behind) := by
  obtain ⟨last, hlast, hk⟩ := h.finished_behind.closed
  refine ⟨⟨last, ?_, hk⟩, fun t ht hne => ?_⟩
  · rw [List.getLast?_append, hlast]
    rfl
  · rcases List.mem_append.mp ht with ht | ht
    · exact (h.inner t ht).2
    · exact h.finished_behind.valued t ht hne

/-- A token of the first list is in the whole list, unless it is the mark that ends the first list, in place of which
the first token of the other list stands. -/
theorem getElem?_whole (h : Joins distance before ending second behind) {i : Nat} {t : Token}
    (ht : (before ++ [ending])[i]? = some t) :
    i < before.length ∧ t ∈ before ∧ (before ++ behind)[i]? = some t ∨
      i = before.length ∧ t = ending ∧ ∃ u ∈ behind.head?, (before ++ behind)[i]? = some u := by
  rcases Nat.lt_or_ge i before.length with hi | hi
  · rw [List.getElem?_append_left hi] at ht
    exact .inl ⟨hi, List.mem_of_getElem? ht, by rw [List.getElem?_append_left hi, ht]⟩
  · obtain ⟨u, us, rfl⟩ := h.finished_behind.exists_cons
    have hlength := (List.getElem?_eq_some_iff.mp ht).1
    obtain rfl : i = before.length := by simp at hlength; omega
    refine .inr ⟨rfl, ?_, u, rfl, ?_⟩
    · simpa using ht.symm
    · simp

/-- The first list and the whole one, up to the mark that ends the first list if the first token of the other list
starts a part of a module, else up to a token before that mark which is no name and no dot. -/
def first (h : Joins distance before ending second behind) (bound : Nat)
    (hbound : bound = before.length + 1 ∧ (∀ u ∈ behind.head?, u.EndsPart) ∨
      bound = before.length ∧ ∀ t ∈ before.getLast?, t.kind ≠ .name ∧ t.kind ≠ .dot) : Twins where
  left := before ++ [ending]
  right := before ++ behind
  shift := 0
  first := 0
  bound := bound
  view := id
  leftClosed := h.finished_first.closed_list
  rightClosed := h.finished_whole.closed_list
  echo {i t} _ hi ht := by
    rcases h.getElem?_whole ht with ⟨-, -, hsame⟩ | ⟨rfl, rfl, u, hu, hright⟩
    · exact ⟨t, hsame, .inl (.refl t)⟩
    · rcases hbound with ⟨-, hpart⟩ | ⟨rfl, -⟩
      · exact ⟨u, hright, .inr ⟨h.ends, hpart u hu⟩⟩
      · exact absurd hi (Nat.lt_irrefl _)
  next {i t} _ hi ht hk := by
    have hne : t.kind ≠ .endOfInput := by rcases hk with hk | hk <;> rw [hk] <;> decide
    obtain ⟨t', ht'⟩ := h.finished_first.closed_list.getElem?_succ ht hne
    rcases h.getElem?_whole ht' with ⟨-, -, hsame⟩ | ⟨hlast, rfl, u, hu, hright⟩
    · exact ⟨t', t', ht', hsame, fun _ _ => rfl⟩
    · rcases hbound with ⟨-, hpart⟩ | ⟨-, hother⟩
      · exact ⟨t', u, ht', hright, fun kind hkind => Token.Echoes.is_sought_eq (.inr ⟨h.ends, hpart u hu⟩) hkind⟩
      · rcases h.getElem?_whole ht with ⟨hi, -, -⟩ | ⟨-, rfl, -⟩
        · rw [List.getElem?_append_left hi] at ht
          have hgetLast : before.getLast? = some t := by
            rw [List.getLast?_eq_getElem?, ← hlast, Nat.add_sub_cancel, ht]
          exact absurd hk (not_or.mpr (hother t hgetLast))
        · exact absurd h.ends hne
  text {i j t t' u u'} _ hij hj ht ht' hu hu' := by
    have hinside : j < before.length := by rcases hbound with ⟨rfl, -⟩ | ⟨rfl, -⟩ <;> omega
    have hright : ∀ {k v w}, k < before.length → (before ++ [ending])[k]? = some v → (before ++ behind)[k]? = some w →
        v = w ∧ w ∈ before := by
      intro k v w hk hv hw
      rw [List.getElem?_append_left hk] at hv hw
      rw [hv] at hw
      cases hw
      exact ⟨rfl, List.mem_of_getElem? hv⟩
    obtain ⟨rfl, -⟩ := hright (Nat.lt_of_le_of_lt hij hinside) ht hu
    obtain ⟨rfl, hmem⟩ := hright hinside ht' hu'
    rw [textBetween_append_right (by simp [h.ends]), textBetween_append_right fun u hu => .inl (h.apart _ hmem u hu).2]

/-- A token of the other list is in the whole one, further on. -/
theorem getElem?_other (h : Joins distance before ending second behind) {i : Nat} {t : Token}
    (ht : second[i]? = some t) :
    ∃ u ∈ behind, (before ++ behind)[i + before.length]? = some u ∧ t.Shifted distance u := by
  obtain ⟨u, hu, htu⟩ := getElem?_of_forall₂ h.shifted ht
  refine ⟨u, List.mem_of_getElem? hu, ?_, htu⟩
  rw [List.getElem?_append_right (Nat.le_add_left ..), Nat.add_sub_cancel, hu]

/-- The other list and the whole one. -/
def other (h : Joins distance before ending second behind) : Twins where
  left := second
  right := before ++ behind
  shift := before.length
  first := 0
  bound := second.length
  view := id
  leftClosed := h.finished.closed_list
  rightClosed := h.finished_whole.closed_list
  echo {i t} _ _ ht := by
    obtain ⟨u, -, hu, htu⟩ := h.getElem?_other ht
    exact ⟨u, hu, .inl htu.toAlike⟩
  next {i t} _ _ ht hk := by
    have hne : t.kind ≠ .endOfInput := by rcases hk with hk | hk <;> rw [hk] <;> decide
    obtain ⟨t', ht'⟩ := h.finished.closed_list.getElem?_succ ht hne
    obtain ⟨u', -, hu', htu'⟩ := h.getElem?_other ht'
    exact ⟨t', u', ht', hu', fun kind _ => htu'.toAlike.is_eq kind none⟩
  text {i j t t' u u'} _ _ _ ht ht' hu hu' := by
    obtain ⟨v, hv, hright, htu⟩ := h.getElem?_other ht
    obtain ⟨v', -, hright', htu'⟩ := h.getElem?_other ht'
    rw [hu] at hright
    rw [hu'] at hright'
    cases hright
    cases hright'
    rw [textBetween_append_left fun t ht => (h.apart t ht u hv).1, htu.start, htu'.stop,
      textBetween_shifted h.shifted]

theorem strict_other (h : Joins distance before ending second behind) : h.other.Strict := by
  intro i t u _ _ ht hu
  obtain ⟨v, -, hright, htu⟩ := h.getElem?_other ht
  have hu : (before ++ behind)[i + before.length]? = some u := hu
  rw [hu] at hright
  cases hright
  exact htu.toAlike

/-! ### The parts of one list behind those of another -/

open Grammar Reading

theorem index_lt_of_ne_endOfInput (h : Joins distance before ending second behind) {i : Nat} {t : Token}
    (ht : (before ++ [ending])[i]? = some t) (hk : t.kind ≠ .endOfInput) : i < before.length := by
  rcases h.getElem?_whole ht with ⟨hi, -⟩ | ⟨-, rfl, -⟩
  · exact hi
  · exact absurd h.ends hk

/-- A part of the first list ends at the mark for its end or before that. -/
theorem end_of_part (h : Joins distance before ending second behind) {c d : Cursor} {a : Definition}
    (hc : c.tokens = before ++ [ending]) (hround : definition.run c = .ok (.more a, d)) :
    d.index ≤ before.length ∧ (d.current.kind ≠ .endOfInput → d.index < before.length) := by
  have hforward : definition.ForwardFrom c :=
    (inferInstance : Forward _).forward (hc ▸ h.finished_first.closed_list)
  have htokens : d.tokens = before ++ [ending] := (hforward.answers hround).1.trans hc
  have hlt := d.index_lt
  rw [htokens, List.length_append, List.length_singleton] at hlt
  exact ⟨Nat.le_of_lt_succ hlt, h.index_lt_of_ne_endOfInput (htokens ▸ d.getElem?_index)⟩

/-- Behind the parts of the first list, reading goes on at the first token of the other list, if that starts a part of a
module or the last part of the first list is a function. -/
theorem resumes (h : Joins distance before ending second behind) {c c' e : Cursor} {parts : List Definition}
    (hc : c.tokens = before ++ [ending]) (hstart : c.index = 0) (hc' : c'.tokens = before ++ behind)
    (hstart' : c'.index = 0) (hrun : (collect definition).run c = .ok (parts, e))
    (hmeet : (∀ u ∈ behind.head?, u.EndsPart) ∨ ∀ last ∈ parts.getLast?, ∃ node, last = .function node) :
    (collect definition).run c' = .error .endless ∨ ∃ k parts' e', e'.tokens = before ++ behind ∧
      e'.index = before.length ∧ List.Forall₂ (Definition.LooksLike id) parts parts' ∧
      (collect definition).run c' =
        ((collectFor definition k).run e').map fun answer => (parts' ++ answer.1, answer.2) := by
  obtain ⟨hindex, hspelled⟩ := spelled_of_run_definitions hstart hc (fun t ht => (h.inner t ht).1) h.ends hrun
  have hindices : c'.index = c.index + 0 := by rw [hstart, hstart']
  rcases hmeet with hpart | hfunction
  · have hresumed := resumes_definitions (p := h.first _ (.inl ⟨rfl, hpart⟩)) (fun _ => True)
      (fun i t ht hk => Nat.lt_succ_of_lt (h.index_lt_of_ne_endOfInput ht hk))
      (fun hat hround _ => tracks_part hat hround (Nat.lt_succ_of_le (h.end_of_part hat.left hround).1))
      c.reach c'.reach ⟨hc, hc', hindices, Nat.zero_le _⟩ hrun fun _ _ => trivial
    exact hresumed.imp_right fun ⟨k, parts', e', hbeside, hsame, hrun'⟩ =>
      ⟨k, parts', e', hbeside.right, hbeside.index.trans hindex, hsame, hrun'⟩
  -- Nothing is known of what stands behind the last function, so the bound is the brace that closes it.
  · have hbrace : ∀ t ∈ before.getLast?, t.kind ≠ .name ∧ t.kind ≠ .dot := by
      intro t ht
      have hkind : t.kind = .rightBrace :=
        parts_le_endingIn_of_function hfunction hspelled t.word (by rw [List.getLast?_map, ht]; rfl)
      rw [hkind]
      exact ⟨TokenKind.noConfusion, TokenKind.noConfusion⟩
    have hresumed := resumes_definitions (p := h.first _ (.inr ⟨rfl, hbrace⟩))
      (fun a => ∃ node, a = .function node) (fun i t ht hk => h.index_lt_of_ne_endOfInput ht hk)
      (fun {_ _ _ d} hat hround hlast => ?_) c.reach c'.reach ⟨hc, hc', hindices, Nat.zero_le _⟩ hrun hfunction
    · exact hresumed.imp_right fun ⟨k, parts', e', hbeside, hsame, hrun'⟩ =>
        ⟨k, parts', e', hbeside.right, hbeside.index.trans hindex, hsame, hrun'⟩
    · obtain ⟨hle, hlt⟩ := h.end_of_part hat.left hround
      by_cases hk : d.current.kind = .endOfInput
      · obtain ⟨node, rfl⟩ := hlast hk
        exact closes_part hat hround hle
      · exact tracks_part hat hround (hlt hk)

/-- From the first token of the other list on, the whole list is read as the other list is. -/
theorem tracks_other (h : Joins distance before ending second behind) {c e : Cursor} (hc : c.tokens = second)
    (hstart : c.index = 0) (he : e.tokens = before ++ behind) (hindex : e.index = before.length) (k : Nat) :
    Tracks h.other (List.Forall₂ (Definition.LooksLike id)) (collect definition) (collectFor definition k) c e := by
  have hinside : c.index < second.length := hc ▸ c.index_lt
  have hat : h.other.At c e := ⟨⟨hc, he, by rw [hindex, hstart, Nat.zero_add]; rfl, Nat.zero_le _⟩, hinside⟩
  exact (follows_collectFor (fun hat => tracks_definition hat (hat.alike_of_strict h.strict_other)) c.reach k
    hat).congr rfl rfl

/-- The first token of a list with parts starts a part or ends the list. -/
theorem endsPart_behind (h : Joins distance before ending second behind) {c e : Cursor} {parts : List Definition}
    (hc : c.tokens = second) (hstart : c.index = 0) (hrun : (collect definition).run c = .ok (parts, e)) :
    ∀ u ∈ behind.head?, u.EndsPart := by
  have hrounds : (collectFor definition (c.after.length + 1 + 1)).run c = .ok (parts, e) := hrun
  obtain ⟨answer, d, hround, -⟩ := run_bind_eq_ok.mp hrounds
  have hpart := endsPart_of_run_definition hround
  have hfirst : second[0]? = some c.current := by rw [← hc, ← hstart, c.getElem?_index]
  obtain ⟨u, hu, htu⟩ := getElem?_of_forall₂ h.shifted hfirst
  intro v hv
  rw [List.head?_eq_getElem?, hu] at hv
  cases hv
  exact hpart.of_alike htu.toAlike

/-- Parts of both lists are parts of the whole one. -/
theorem partsOfTokens_whole (h : Joins distance before ending second behind) {parts₁ parts₂ : List Definition}
    (h₁ : partsOfTokens (before ++ [ending]) = .ok parts₁) (h₂ : partsOfTokens second = .ok parts₂) :
    ∃ parts, partsOfTokens (before ++ behind) = .ok parts ∧
      List.Forall₂ (Definition.LooksLike id) (parts₁ ++ parts₂) parts := by
  obtain ⟨c₁, hc₁, hstart₁, e₁, hrun₁⟩ := exists_run_of_partsOfTokens h₁
  obtain ⟨c₂, hc₂, hstart₂, e₂, hrun₂⟩ := exists_run_of_partsOfTokens h₂
  obtain ⟨c, hc, hstart, hcases⟩ := partsOfTokens_cases h.finished_whole
  have hne : (collect definition).run c ≠ .error .endless := by
    intro hendless
    rcases hcases with ⟨_, _, hrun, -⟩ | ⟨_, hrun, -⟩ <;>
    · rw [hrun] at hendless
      cases hendless
  rcases h.resumes hc₁ hstart₁ hc hstart hrun₁ (.inl (h.endsPart_behind hc₂ hstart₂ hrun₂)) with
    hendless | ⟨k, parts₁', e', he', hindex, hsame₁, hresumed⟩
  · exact absurd hendless hne
  -- The other list is tracked to its end: its bound is its length.
  have hinside : e₂.index < second.length := by
    have hforward : (collect definition).ForwardFrom c₂ :=
      (inferInstance : Forward _).forward (hc₂ ▸ h.finished.closed_list)
    rw [← hc₂, ← (hforward.answers hrun₂).1]
    exact e₂.index_lt
  rcases (h.tracks_other hc₂ hstart₂ he' hindex k).answers hrun₂ hinside with
    hendless | ⟨parts₂', d', hrun₂', -, hsame₂⟩
  · rw [hendless] at hresumed
    exact absurd hresumed hne
  · rw [hrun₂'] at hresumed
    rcases hcases with ⟨parts, d, hrun, hparts⟩ | ⟨_, hrun, -⟩
    · rw [hrun] at hresumed
      cases hresumed
      exact ⟨_, hparts, List.rel_append hsame₁ hsame₂⟩
    · rw [hrun] at hresumed
      cases hresumed

/-- If the first list ends with a function, the whole list has parts only if the other one has. -/
theorem partsOfTokens_other (h : Joins distance before ending second behind) {parts₁ parts : List Definition}
    (h₁ : partsOfTokens (before ++ [ending]) = .ok parts₁)
    (hfunction : ∀ last ∈ parts₁.getLast?, ∃ node, last = .function node)
    (hwhole : partsOfTokens (before ++ behind) = .ok parts) : ∃ parts₂, partsOfTokens second = .ok parts₂ := by
  obtain ⟨c₁, hc₁, hstart₁, e₁, hrun₁⟩ := exists_run_of_partsOfTokens h₁
  obtain ⟨c, hc, hstart, e, hrun⟩ := exists_run_of_partsOfTokens hwhole
  obtain ⟨c₂, hc₂, hstart₂, ⟨parts₂, -, -, h₂⟩ | ⟨f, hfault, hf, -⟩⟩ := partsOfTokens_cases h.finished
  · exact ⟨parts₂, h₂⟩
  exfalso
  rcases h.resumes hc₁ hstart₁ hc hstart hrun₁ (.inr hfunction) with
    hendless | ⟨k, parts₁', e', he', hindex, -, hresumed⟩
  · rw [hrun] at hendless
    cases hendless
  rw [hrun] at hresumed
  rcases (h.tracks_other hc₂ hstart₂ he' hindex k).faults h.strict_other hfault hf with hendless | ⟨f', hfault', -⟩
  · rw [hendless] at hresumed
    cases hresumed
  · rw [hfault'] at hresumed
    cases hresumed

end Joins

/-! ### Texts -/

/-- The tokens of a text and those of another text behind it and a line feed. -/
theorem joins_tokenize (cs ds : List Char) :
    Joins (cs.length + 1) ((scan .start cs).pieces.map Piece.token) (Token.ending (scan .start cs).stop) (tokenize ds)
      (scan (Place.start.after (cs ++ ['\n'])) ds).tokens := by
  have hoffset : (Place.start.after (cs ++ ['\n'])).offset = Place.start.offset + (cs.length + 1) := by
    rw [Place.offset_after, List.length_append, List.length_singleton]
  have hshifted := shifted_moved (cs.count '\n' + 1) (cs.length + 1) (tokenize ds)
  rw [tokenize, ← tokens_scan_moved, ← Place.start_after_feed] at hshifted
  refine ⟨fun t ht => ⟨kind_ne_endOfInput_of_mem_pieces ht, ?_⟩, rfl, finished_tokenize ds, hshifted,
    fun t ht u hu => ?_⟩
  · obtain ⟨piece, -, rfl⟩ := List.mem_map.mp ht
    rfl
  · have hleft := within_of_mem_scan .start cs t (List.mem_append_left _ ht)
    have hright := within_of_mem_scan _ ds u hu
    rw [hoffset] at hright
    omega

/-- The string literals of a module are closed: a text in which one is left open ends with an invalid token. -/
theorem flaw_ne_unclosedString {cs : List Char} {parts : List Grammar.Definition}
    (h : Grammar.partsOfTokens (tokenize cs) = .ok parts) :
    ∀ piece ∈ (scan .start cs).pieces, piece.lexeme.flaw ≠ some .unclosedString := by
  intro piece hpiece hflaw
  obtain ⟨last, hlast, hinvalid⟩ := invalid_of_unclosed hpiece hflaw
  obtain ⟨c, hc, hstart, d, hrun⟩ := Grammar.exists_run_of_partsOfTokens h
  obtain ⟨-, hspelled⟩ := Grammar.spelled_of_run_definitions hstart hc
    (fun t ht => kind_ne_endOfInput_of_mem_pieces ht) rfl hrun
  exact Grammar.parts_le_endingIn parts hspelled last.word (by rw [List.getLast?_map, hlast]; rfl) hinvalid

theorem Module.same_ofParts {parts parts' : List Grammar.Definition}
    (h : List.Forall₂ (Grammar.Definition.LooksLike id) parts parts') (anchor anchor' : Anchor) :
    (Module.ofParts anchor' parts').toNode.same (Module.ofParts anchor parts).toNode = true := by
  refine Node.same_of_outline_eq ?_
  rw [← Module.toNode_outline, ← Module.toNode_outline]
  simp only [Module.outline, Module.ofParts, outlineAll_eq (Grammar.Definition.functions_rel h),
    outlineAll_eq (Grammar.Definition.imports_rel h)]

/-- Two texts that are read as modules are read, with a line feed between them, as the module with the functions and the
imports of both, ascriptions included.  And behind a module whose last part is a function, or which has no parts, only a
text that is read as a module makes a module. -/
theorem Module.ofTokens_concatenated (cs ds : List Char) :
    (∀ m n, Module.ofTokens (tokenize cs) = .ok m → Module.ofTokens (tokenize ds) = .ok n →
      ∃ whole, Module.ofTokens (tokenize (cs ++ '\n' :: ds)) = .ok whole ∧
        whole.toNode.same (⟨m.anchor, m.functions ++ n.functions, m.imports ++ n.imports⟩ : Module).toNode = true) ∧
    (∀ m, Module.ofTokens (tokenize cs) = .ok m →
      ∃ parts, Grammar.partsOfTokens (tokenize cs) = .ok parts ∧ m = .ofParts m.anchor parts ∧
        ((∀ last ∈ parts.getLast?, ∃ node, last = .function node) →
          ∀ whole, Module.ofTokens (tokenize (cs ++ '\n' :: ds)) = .ok whole →
            ∃ n, Module.ofTokens (tokenize ds) = .ok n)) := by
  have hjoins := joins_tokenize cs ds
  constructor
  · intro m n hm hn
    obtain ⟨parts₁, h₁, hm'⟩ := Module.exists_parts hm
    obtain ⟨parts₂, h₂, hn'⟩ := Module.exists_parts hn
    obtain ⟨parts, hparts, hsame⟩ := hjoins.partsOfTokens_whole h₁ h₂
    rw [← tokens_scan_append_feed (flaw_ne_unclosedString h₁)] at hparts
    obtain ⟨anchor, hwhole⟩ := Module.ofTokens_of_parts hparts
    refine ⟨_, hwhole, ?_⟩
    rw [hm', hn']
    exact Module.ofParts_append m.anchor n.anchor parts₁ parts₂ ▸ Module.same_ofParts hsame m.anchor anchor
  · intro m hm
    obtain ⟨parts₁, h₁, hm'⟩ := Module.exists_parts hm
    refine ⟨parts₁, h₁, hm', fun hfunction whole hwhole => ?_⟩
    obtain ⟨parts, hparts, -⟩ := Module.exists_parts hwhole
    rw [tokenize, tokens_scan_append_feed (flaw_ne_unclosedString h₁)] at hparts
    obtain ⟨parts₂, h₂⟩ := hjoins.partsOfTokens_other h₁ hfunction hparts
    obtain ⟨anchor, hn⟩ := Module.ofTokens_of_parts h₂
    exact ⟨_, hn⟩

/-- An import with a comment up to the end of the text. -/
def importText : List Char :=
  "import a // b".toList

/-- A function whose parameter has an ascription. -/
def functionText : List Char :=
  "fn f(x: T) \x7bx\x7d".toList

/-- What the texts spell. -/
def importModule : Module :=
  ⟨⟨some 1, some 1⟩, [], [.importing ⟨some 1, some 1⟩ "a" none []]⟩

def functionModule : Module :=
  ⟨⟨some 1, some 1⟩,
    [.function ⟨some 1, some 1⟩ "f" .priv [.parameter ⟨some 1, some 6⟩ "x" none (some "T")]
      [.expression ⟨some 1, some 13⟩ (.var ⟨some 1, some 13⟩ "x")] none], []⟩

/-- The texts make a module in both orders, and what stands behind the function has to be a module. -/
theorem ofTokens_importText_functionText :
    Module.ofTokens (tokenize importText) = .ok importModule ∧
      Module.ofTokens (tokenize functionText) = .ok functionModule ∧
      (∃ whole, Module.ofTokens (tokenize (importText ++ '\n' :: functionText)) = .ok whole ∧
        whole.toNode.same (⟨importModule.anchor, functionModule.functions, importModule.imports⟩ : Module).toNode =
          true) ∧
      (∃ whole, Module.ofTokens (tokenize (functionText ++ '\n' :: importText)) = .ok whole) ∧
      ∃ n, Module.ofTokens (tokenize importText) = .ok n := by
  have himport : Module.ofTokens (tokenize importText) = .ok importModule := by
    have htokens : tokenize importText =
        [⟨.keyword, some "import", 1, 1, 0, 6⟩, ⟨.name, some "a", 1, 8, 7, 8⟩,
         ⟨.endOfInput, none, 1, 14, 13, 13⟩] := by decide +kernel
    rw [htokens]
    rfl
  have htokens : tokenize functionText =
      [⟨.keyword, some "fn", 1, 1, 0, 2⟩, ⟨.name, some "f", 1, 4, 3, 4⟩, ⟨.leftParen, some "(", 1, 5, 4, 5⟩,
       ⟨.name, some "x", 1, 6, 5, 6⟩, ⟨.colon, some ":", 1, 7, 6, 7⟩, ⟨.upName, some "T", 1, 9, 8, 9⟩,
       ⟨.rightParen, some ")", 1, 10, 9, 10⟩, ⟨.leftBrace, some "\x7b", 1, 12, 11, 12⟩,
       ⟨.name, some "x", 1, 13, 12, 13⟩, ⟨.rightBrace, some "\x7d", 1, 14, 13, 14⟩,
       ⟨.endOfInput, none, 1, 15, 14, 14⟩] := by decide +kernel
  have hfunction : Module.ofTokens (tokenize functionText) = .ok functionModule := by
    rw [htokens]
    rfl
  obtain ⟨whole, hwhole, -⟩ := (Module.ofTokens_concatenated functionText importText).1 _ _ hfunction himport
  obtain ⟨parts, hparts, -, hbehind⟩ := (Module.ofTokens_concatenated functionText importText).2 _ hfunction
  refine ⟨himport, hfunction, (Module.ofTokens_concatenated importText functionText).1 _ _ himport hfunction,
    ⟨whole, hwhole⟩, hbehind (fun last hlast => ?_) whole hwhole⟩
  have hone : Grammar.partsOfTokens (tokenize functionText) = .ok (functionModule.functions.map .function) := by
    rw [htokens]
    rfl
  rw [hone] at hparts
  cases hparts
  cases hlast
  exact ⟨_, rfl⟩

end ScopeLint
