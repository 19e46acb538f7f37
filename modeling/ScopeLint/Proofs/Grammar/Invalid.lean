import ScopeLint.Proofs.Grammar.AscriptionEnd
import ScopeLint.Proofs.Grammar.Composition
import ScopeLint.Proofs.Grammar.ModuleTracking
import ScopeLint.Proofs.Token.Concatenation

/-!
# Invalid tokens

The grammar has no place for an invalid token but in an ascription, whose words are not looked at.  So a text has a
fault, or it is read as a module and each of its invalid tokens lies in an ascription of that module
(`Module.ascribed_of_invalid`).  In an ascription an invalid token is not rejected (`invalid_ascription_accepted`).

* `Spelling.AscribedAt`: an ascription among the words of a language, told by its place: it stands behind a mark of the
  grammar and ends before a word that the mark has it end before, and any other ascription could stand there.
* `Spelling.Composed.guarded`: however a language is put together, it has invalid words in such ascriptions only.
* `Module.AscribesBetween`: the same for the tokens of a module, where the ascription ends as one that is read there.
-/

namespace ScopeLint

namespace Spelling

variable {first next : Set TokenKind} {l m : Language Word} {us vs ws : List Word} {k : Nat}

/-- In some words of a language, behind which stand words of the next kinds, an ascription stands in one of its places:
it ends before a word of a kind that belongs to the place, and words with any other ascription there are in the language
as well. -/
structure Ascribes (next : Set TokenKind) (l : Language Word) (before : List Word) (mark : Word)
    (stops : List TokenKind) (inside after : List Word) : Prop where
  place : (mark.kind, stops) ∈ ascriptionPlaces
  inside : inside ∈ ascription stops
  ends : Begins {kind | kind ∈ stops} next after
  free : ∀ other ∈ ascription stops, before ++ mark :: (other ++ after) ∈ l

/-- A word lies in an ascription that stands in its place. -/
def AscribedAt (next : Set TokenKind) (l : Language Word) (ws : List Word) (k : Nat) : Prop :=
  ∃ before mark stops inside after, ws = before ++ mark :: (inside ++ after) ∧
    Ascribes next l before mark stops inside after ∧ before.length < k ∧ k ≤ before.length + inside.length

namespace AscribedAt

theorem mono (h : AscribedAt next l ws k) (hle : l ≤ m) : AscribedAt next m ws k := by
  obtain ⟨before, mark, stops, inside, after, hws, hascribes, hfrom, hto⟩ := h
  have hm : Ascribes next m before mark stops inside after :=
    { hascribes with free := fun other hother => hle (hascribes.free other hother) }
  exact ⟨before, mark, stops, inside, after, hws, hm, hfrom, hto⟩

theorem append_right (h : AscribedAt first l us k) (hvs : vs ∈ m) (hbegins : Begins first next vs) :
    AscribedAt next (l * m) (us ++ vs) k := by
  obtain ⟨before, mark, stops, inside, after, rfl, hascribes, hfrom, hto⟩ := h
  refine ⟨before, mark, stops, inside, after ++ vs, by simp, ⟨hascribes.place, hascribes.inside, ?_, ?_⟩, hfrom, hto⟩
  · exact hascribes.ends.append hbegins
  · intro other hother
    simpa using Language.append_mem_mul (hascribes.free other hother) hvs

theorem append_left (h : AscribedAt next m vs k) (hus : us ∈ l) :
    AscribedAt next (l * m) (us ++ vs) (us.length + k) := by
  obtain ⟨before, mark, stops, inside, after, rfl, hascribes, hfrom, hto⟩ := h
  refine ⟨us ++ before, mark, stops, inside, after, by simp, { hascribes with free := ?_ }, ?_, ?_⟩
  · intro other hother
    rw [List.append_assoc]
    exact Language.append_mem_mul hus (hascribes.free other hother)
  · rw [List.length_append]
    omega
  · rw [List.length_append]
    omega

end AscribedAt

/-- The language has invalid words in ascriptions only. -/
def Guarded (next : Set TokenKind) (l : Language Word) : Prop :=
  ∀ ws ∈ l, ∀ k w, ws[k]? = some w → w.kind = .invalid → AscribedAt next l ws k

namespace Guarded

/-- A language without an invalid word. -/
private theorem of_valid (h : ∀ ws ∈ l, ∀ w ∈ ws, w.kind ≠ .invalid) : Guarded next l :=
  fun ws hws _ w hk hw => absurd hw (h ws hws w (List.mem_of_getElem? hk))

theorem one : Guarded next 1 := by
  refine of_valid fun ws hws w hw => ?_
  obtain rfl := hws
  cases hw

theorem anyOf {kind : TokenKind} (h : kind ≠ .invalid) : Guarded next (Spelling.anyOf kind) := by
  refine of_valid fun ws hws w hw => ?_
  obtain ⟨text, rfl⟩ := hws
  obtain rfl := List.mem_singleton.mp hw
  exact h

theorem only {kind : TokenKind} (h : kind ≠ .invalid) (text : String) : Guarded next (Spelling.only kind text) := by
  refine of_valid fun ws hws w hw => ?_
  obtain rfl := hws
  obtain rfl := List.mem_singleton.mp hw
  exact h

theorem mul (hl : Guarded first l) (hm : Guarded next m) (leads : Leads first next m) : Guarded next (l * m) := by
  intro ws hws k w hk hw
  obtain ⟨us, hus, vs, hvs, rfl⟩ := Language.mem_mul.mp hws
  by_cases hlt : k < us.length
  · rw [List.getElem?_append_left hlt] at hk
    exact (hl us hus k w hk hw).append_right hvs (leads vs hvs)
  · have hle : us.length ≤ k := Nat.le_of_not_lt hlt
    rw [List.getElem?_append_right hle] at hk
    have hat := (hm vs hvs _ w hk hw).append_left hus
    rwa [Nat.add_sub_cancel' hle] at hat

theorem union {ι : Type} {part : ι → Language Word} (h : ∀ i, Guarded next (part i)) : Guarded next (⨆ i, part i) := by
  intro ws hws k w hk hw
  obtain ⟨i, hi⟩ := Language.mem_iSup.mp hws
  exact (h i ws hi k w hk hw).mono (le_iSup part i)

theorem ascription {mark : TokenKind} {stops : List TokenKind} (place : (mark, stops) ∈ ascriptionPlaces)
    (ends : next ⊆ {kind | kind ∈ stops}) : Guarded next (Spelling.anyOf mark * Spelling.ascription stops) := by
  intro ws hws k w hk hw
  obtain ⟨_, ⟨text, rfl⟩, inside, hinside, rfl⟩ := Language.mem_mul.mp hws
  have hmem : [⟨mark, text⟩] ∈ Spelling.anyOf mark := ⟨text, rfl⟩
  have hbegins : Begins {kind | kind ∈ stops} next [] := ⟨fun w hw => absurd hw (by simp), fun _ => ends⟩
  refine ⟨[], ⟨mark, text⟩, stops, inside, [], by simp, ⟨place, hinside, hbegins, fun other hother => ?_⟩, ?_, ?_⟩
  · rw [List.append_nil]
    exact Language.mem_mul.mpr ⟨_, hmem, other, hother, rfl⟩
  · cases k with
    | zero =>
      obtain rfl : (⟨mark, text⟩ : Word) = w := by simpa using hk
      rcases mark_of_ascriptionPlaces place with rfl | rfl <;> cases hw
    | succ k => exact Nat.succ_pos k
  · have hlt := (List.getElem?_eq_some_iff.mp hk).1
    simp only [List.length_append, List.length_singleton] at hlt
    simp only [List.length_nil]
    omega

end Guarded

/-- However a language is put together, it has invalid words in ascriptions only. -/
theorem Composed.guarded (h : Composed next l) : Guarded next l := by
  induction h with
  | union _ ih => exact .union ih
  | one => exact .one
  | led _ _ leads hl hm => exact hl.mul hm leads
  | @only _ kind plain text =>
    refine .only ?_ text
    rintro rfl
    cases plain
  | @bracketed next opening closing l pair _ ih =>
    have hopening : opening ≠ .invalid := by
      rintro rfl
      cases pair
    have hclosing : closing ≠ .invalid := by
      rintro rfl
      cases opening <;> cases pair
    exact ((Guarded.anyOf hopening).mul ih .univ).mul (.anyOf hclosing) (.anyOf rfl)
  | ascription place ends => exact .ascription place ends

end Spelling

open Spelling

theorem dropLast_tokenize (text : List Char) :
    (tokenize text).dropLast = (scan .start text).pieces.map Piece.token :=
  List.dropLast_concat

/-- Only the last token of a text is the mark for the end of the input. -/
theorem getElem?_dropLast_tokenize {text : List Char} {k : Nat} {t : Token} (ht : (tokenize text)[k]? = some t)
    (hkind : t.kind ≠ .endOfInput) : (tokenize text).dropLast[k]? = some t := by
  rw [dropLast_tokenize]
  have hwhole : ((scan .start text).pieces.map Piece.token ++ [Token.ending (scan .start text).stop])[k]? = some t := ht
  rcases Nat.lt_or_ge k ((scan .start text).pieces.map Piece.token).length with hlt | hle
  · rwa [List.getElem?_append_left hlt] at hwhole
  · rw [List.getElem?_append_right hle] at hwhole
    obtain rfl := List.mem_singleton.mp (List.mem_of_getElem? hwhole)
    exact absurd rfl hkind

/-- A text that is read as a module spells it. -/
theorem Module.spelled_tokenize {text : List Char} {m : Module} (hm : Module.ofTokens (tokenize text) = .ok m) :
    m.Spelled ((tokenize text).dropLast.map Token.word) := by
  have hfinished := finished_tokenize text
  obtain ⟨t, ts, htokens⟩ := hfinished.exists_cons
  rw [htokens] at hfinished hm
  rw [Module.ofTokens_cons] at hm
  cases hrun : Grammar.wholeModule.run ⟨[], t, ts⟩ with
  | error failure => simp [hrun, Except.map] at hm
  | ok answer =>
    obtain ⟨m', d⟩ := answer
    obtain rfl : m' = m := by simpa [hrun, Except.map] using hm
    have hc : Cursor.Ended ReadFailure.IsFault ⟨[], t, ts⟩ := Cursor.ended_of_finished hfinished
    obtain ⟨⟨-, us, hahead, -, hinside, hspelled⟩, hkind⟩ := (Grammar.wholeModule_reads hc).of_run hrun
    -- The words passed over and the words of the pieces both go up to the first mark for the end of the input.
    have hpassed : (tokenize text).takeWhile (fun t => t.kind ≠ .endOfInput) = us := by
      rw [htokens, show t :: ts = us ++ d.ahead from hahead, List.takeWhile_append_of_pos (by simpa using hinside)]
      simp [Cursor.ahead, hkind]
    have hcut : (tokenize text).takeWhile (fun t => t.kind ≠ .endOfInput) = (tokenize text).dropLast := by
      rw [dropLast_tokenize, tokenize, Scanned.tokens, List.takeWhile_append_of_pos]
      · simp [Token.ending]
      · intro t ht
        simpa using kind_ne_endOfInput_of_mem_pieces ht
    rw [← hcut, hpassed]
    exact hspelled

/-- Among the tokens of a module an ascription goes from behind the first index up to the second one.  A mark of
ascriptions is at the first one.  The ascription ends as one that is read there does, before a token of a kind that
belongs to the mark.  With any other ascription in its place, the words of the tokens spell the module as well. -/
structure Module.AscribesBetween (m : Module) (tokens : List Token) (stops : List TokenKind) (i j : Nat) : Prop where
  mark : ∃ t ∈ tokens[i]?, (t.kind, stops) ∈ ascriptionPlaces
  ends : EndsAscription tokens stops (i + 1) j
  free : ∀ other ∈ ascription stops,
    m.Spelled ((tokens.take (i + 1)).map Token.word ++ other ++ (tokens.drop j).dropLast.map Token.word)

/-- An ascription among the words of a module is one among its tokens. -/
theorem Module.exists_ascribesBetween {m : Module} {ts : List Token} {t : Token} {k : Nat}
    (h : AscribedAt Set.univ {ws | m.Spelled ws} (ts.map Token.word) k) :
    ∃ stops i j, m.AscribesBetween (ts ++ [t]) stops i j ∧ i < k ∧ k < j := by
  obtain ⟨before, mark, stops, inside, after, hwords, hascribes, hfrom, hto⟩ := h
  obtain ⟨bs, rest, rfl, rfl, hmark⟩ := List.map_eq_append_iff.mp hwords
  obtain ⟨a, rest, rfl, rfl, hinside⟩ := List.map_eq_cons_iff.mp hmark
  obtain ⟨is, rest, rfl, rfl, rfl⟩ := List.map_eq_append_iff.mp hinside
  -- There is a word behind the ascription, since the ascription would not end before just any word.
  cases rest with
  | nil =>
    have hends := hascribes.ends.2 rfl (Set.mem_univ TokenKind.invalid)
    exact absurd hends (invalid_notMem_of_ascriptionPlaces hascribes.place)
  | cons u us =>
    have hstop : u.kind ∈ stops := hascribes.ends.1 u.word rfl
    have hnonempty : 0 < is.length :=
      List.length_pos_iff.mpr fun hnil => hascribes.inside.1 (by rw [hnil, List.map_nil])
    have hfrom : bs.length < k := by rwa [List.length_map] at hfrom
    have hto : k ≤ bs.length + is.length := by rwa [List.length_map, List.length_map] at hto
    have htokens : bs ++ a :: (is ++ u :: us) ++ [t] = (bs ++ [a]) ++ (is ++ u :: (us ++ [t])) := by simp
    have hlength : (bs ++ [a]).length = bs.length + 1 := List.length_append
    refine ⟨stops, bs.length, bs.length + 1 + is.length, ⟨⟨a, ?_, hascribes.place⟩, ?_, ?_⟩, hfrom, by omega⟩
    · simp
    · rw [htokens, ← hlength, Grammar.endsAscription_iff, List.drop_left]
      exact ⟨hnonempty, Grammar.endsBehind_of_bracketsClose hascribes.inside.2 hstop⟩
    · intro other hother
      have hspelled : m.Spelled (bs.map Token.word ++ a.word :: (other ++ (u :: us).map Token.word)) :=
        hascribes.free other hother
      rw [htokens, ← hlength, List.take_left, List.drop_length_add_append, List.drop_left, ← List.cons_append,
        List.dropLast_concat]
      simpa using hspelled

/-- A text has a fault, or it is read as a module and each of its invalid tokens lies in an ascription of that
module. -/
theorem Module.ascribed_of_invalid (text : List Char) :
    (∃ fault, Module.ofTokens (tokenize text) = .error (.fault fault)) ∨
      ∃ m, Module.ofTokens (tokenize text) = .ok m ∧
        ∀ k t, (tokenize text)[k]? = some t → t.kind = .invalid →
          ∃ stops i j, m.AscribesBetween (tokenize text) stops i j ∧ i < k ∧ k < j := by
  rcases Module.ofTokens_cases (finished_tokenize text) with hfault | ⟨m, -, hm, -⟩
  · exact .inl hfault
  · refine .inr ⟨m, hm, fun k t ht hinvalid => ?_⟩
    have hinner := getElem?_dropLast_tokenize ht (by simp [hinvalid])
    have hword : ((tokenize text).dropLast.map Token.word)[k]? = some t.word := by
      rw [List.getElem?_map, hinner, Option.map_some]
    have hat := m.composed_spelled.guarded _ (Module.spelled_tokenize hm) k t.word hword hinvalid
    rw [dropLast_tokenize] at hat
    exact Module.exists_ascribesBetween hat

/-- A stray character behind an ascription is not read. -/
example : (Module.ofTokens (tokenize "fn f() \x7b let x: Int = @ let y = 1 y \x7d".toList)).isOk = false := by
  decide +kernel

/-- A function with a stray character for the type of its parameter. -/
def strayTypeText : List Char :=
  "fn f(x: @) \x7b x \x7d".toList

/-- An invalid token in an ascription is not rejected. -/
theorem invalid_ascription_accepted :
    (∃ t ∈ tokenize strayTypeText, t.kind = .invalid) ∧ ∃ m, Module.ofTokens (tokenize strayTypeText) = .ok m := by
  constructor
  · decide +kernel
  · exact Module.exists_of_isSome (by decide +kernel)

end ScopeLint
