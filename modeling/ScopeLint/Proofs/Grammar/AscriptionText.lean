import ScopeLint.Proofs.Grammar.AscriptionEnd
import ScopeLint.Proofs.Grammar.Concatenation
import ScopeLint.Proofs.Token.Slices

/-!
# The texts of ascriptions

An ascription in a text is read up to its end, and fails if it has none.  Its answer is looked up among all tokens by
their ranges; since the tokens of a text stand in order (`Tiles.pairwise`), these are just the tokens passed over
(`textBetween_eq_gappedText`).
-/

namespace ScopeLint

/-! ### Tokens in a range -/

/-- The ranges of two neighbours meet if and only if nothing of the text stands between them. -/
theorem spacedText_eq_gappedText {text : List Char} {start : Int} {ts behind : List Token}
    (h : Tiles text start (ts ++ behind)) (hstart : 0 ≤ start) : spacedText ts = gappedText text ts := by
  induction ts generalizing start with
  | nil => rfl
  | cons t ts ih =>
    cases ts with
    | nil => rfl
    | cons u ts =>
      cases h with
      | token gap _ covers rest =>
        have hcovers := covers.nonempty
        have hbefore := gap.1
        obtain ⟨hle, -, -⟩ := rest.bounds u List.mem_cons_self
        have hbound : u.start ≤ text.length := by
          obtain ⟨-, hstop, hlength⟩ := rest.bounds u List.mem_cons_self
          omega
        have hmeet := stretch_eq_nil_iff (by omega) hle hbound
        have hrest := ih rest (by omega)
        rw [spacedText, gappedText, hrest]
        simp only [hmeet]

/-- The tokens of a text that lie between the start of one and the end of another are those from the one to the other.
-/
theorem textBetween_eq_gappedText {text : List Char} {t last : Token} {before ts behind : List Token}
    (h : Tiles text 0 (before ++ (t :: ts ++ behind))) (hinner : ∀ u ∈ t :: ts, u.kind ≠ .endOfInput)
    (hlast : (t :: ts).getLast? = some last) :
    textBetween (before ++ (t :: ts ++ behind)) t.start last.stop = gappedText text (t :: ts) := by
  obtain ⟨start, hstart, hrest⟩ := h.of_append (by simp)
  obtain ⟨-, hpairwise, hapart⟩ := List.pairwise_append.mp h.pairwise
  have hbefore : ∀ u ∈ before, u.start < t.start := by
    intro u hu
    have hut := hapart u hu t (List.mem_append_left _ List.mem_cons_self)
    omega
  have hbehind : ∀ u ∈ behind, last.stop < u.stop ∨ u.kind = .endOfInput := by
    intro u hu
    by_cases hkind : u.kind = .endOfInput
    · exact .inr hkind
    · left
      have hstops := (List.pairwise_append.mp hpairwise).2.2 last (List.mem_of_getLast? hlast) u hu
      have hcovers := hrest.start_lt_stop u (List.mem_append_right _ hu) hkind
      omega
  have hall : (t :: ts).filter (fun u => decide (t.start ≤ u.start ∧ u.stop ≤ last.stop ∧ u.kind ≠ .endOfInput)) =
      t :: ts := by
    refine List.filter_eq_self.mpr fun u hu => decide_eq_true ?_
    obtain ⟨hfirst, hstops⟩ := hrest.within hlast u hu
    exact ⟨hfirst, hstops, hinner u hu⟩
  rw [textBetween_append_left hbefore, textBetween_append_right hbehind, textBetween, hall,
    spacedText_eq_gappedText hrest hstart]

/-! ### String literals left open -/

/-- A string literal that is left open is invalid, and only a stray backslash can stand behind it. -/
theorem Token.StandsAt.behind_quote {text past rest : List Char} {t : Token} (h : t.StandsAt text past '\x22' rest)
    (hkind : t.kind ≠ .string) {q : Place} {u : Token} {us : List Token}
    (hbehind : u :: us = (scan q (('\x22' :: rest).drop (Lexeme.read '\x22' rest).spelling.length)).tokens) :
    t.kind = .invalid ∧ (u.kind = .endOfInput ∧ us = [] ∨ u.kind = .invalid ∧ ∀ v ∈ us, v.kind = .endOfInput) := by
  have hread : Lexeme.read '\x22' rest = Lexeme.string rest := rfl
  have hflaw : (Lexeme.read '\x22' rest).flaw = some .unclosedString := by
    rw [h.kind, hread] at hkind
    rw [hread]
    unfold Lexeme.string at hkind ⊢
    dsimp only at hkind ⊢
    split
    · next hclosed =>
      rw [if_pos hclosed] at hkind
      exact absurd rfl hkind
    · rfl
  obtain ⟨hinvalid, hdrop⟩ := Lexeme.of_unclosed hflaw
  refine ⟨h.kind.trans hinvalid, ?_⟩
  rcases hdrop with hdrop | hdrop
  · rw [hdrop, scan_nil rfl] at hbehind
    obtain ⟨rfl, rfl⟩ := List.cons.inj hbehind
    exact .inl ⟨rfl, rfl⟩
  · have hslash : (Lexeme.read '\\' []).kind = .invalid ∧ (['\\']).drop (Lexeme.read '\\' []).spelling.length = [] := by
      decide
    have hgap : trivia ([] ++ ['\\']) = [] := rfl
    have hnone : trivia [] = [] := rfl
    have htokens := tokens_scan_cons hgap q
    simp only [List.nil_append, hslash.2, scan_nil hnone] at htokens
    rw [hdrop, htokens] at hbehind
    obtain ⟨rfl, rfl⟩ := List.cons.inj hbehind
    right
    refine ⟨hslash.1, fun v hv => ?_⟩
    obtain rfl := List.mem_singleton.mp hv
    rfl

namespace Grammar

variable {stops : List TokenKind} {depth : Int} {t u : Token} {ts us : List Token}

/-- A token that is no bracket does not stand right before the end if it is of the kind that ends something. -/
private theorem EndsBehind.kind_ne (h : EndsBehind stops depth (ts ++ [t] ++ u :: us) (ts ++ [t]).length)
    (hopens : ¬ t.kind.opens = true) (hcloses : ¬ t.kind.closes = true) : u.kind ≠ t.kind := by
  intro hkind
  have hdepth := h.stop.1
  rw [List.take_left, bracketDepth_append, bracketDepth_of_neither hopens hcloses, add_zero] at hdepth
  have hearlier : StopsBehind stops depth (ts ++ [t] ++ u :: us) ts.length := by
    rw [List.append_assoc]
    refine ⟨by rwa [List.take_left], t, getElem?_length ts (u :: us) t, ?_⟩
    exact hkind ▸ h.kind_mem
  have hle := h.first _ hearlier
  rw [List.length_append, List.length_singleton] at hle
  omega

/-- On the way to its end, an ascription in a text passes over no string literal that is left open. -/
private theorem solid_of_endsBehind {text : List Char} {before : List Token}
    (htokens : tokenize text = before ++ (ts ++ u :: us)) (hstops : .endOfInput ∉ stops)
    (h : EndsBehind stops depth (ts ++ u :: us) ts.length) (hstring : ∀ t ∈ ts, t.kind ≠ .string) :
    ∀ t ∈ ts, t.Solid text := by
  have hend : u.kind ≠ .endOfInput := fun hend => hstops (hend ▸ h.kind_mem)
  intro t ht
  obtain ⟨front, back, rfl⟩ := List.append_of_mem ht
  have hinner : t.kind ≠ .endOfInput := h.kind_ne_endOfInput t ht
  have hsplit : tokenize text = (before ++ front) ++ t :: (back ++ u :: us) := by
    rw [htokens]
    simp
  obtain ⟨past, c, rest, hstands, q, hbehind⟩ := exists_standsAt hsplit hinner
  by_cases hquote : c = '\x22'
  · exfalso
    subst hquote
    cases back with
    | nil =>
      obtain ⟨hkind, hnext⟩ := hstands.behind_quote (hstring t ht) hbehind
      rcases hnext with ⟨hnext, -⟩ | ⟨hnext, -⟩
      · exact hend hnext
      · refine h.kind_ne ?_ ?_ (hnext.trans hkind.symm)
        · simp [hkind, TokenKind.opens]
        · simp [hkind, TokenKind.closes]
    | cons v back =>
      obtain ⟨-, hnext⟩ := hstands.behind_quote (hstring t ht) hbehind
      rcases hnext with ⟨-, hnil⟩ | ⟨-, hnext⟩
      · exact absurd hnil (by simp)
      · exact hend (hnext u (List.mem_append_right back List.mem_cons_self))
  · exact hstands.solid hquote

/-- Reading an ascription in a text, from any of its tokens on, up to stopping kinds without the mark for the end of the
input.  It fails with a fault if the ascription ends nowhere.  Else it goes on to the end and answers with the values of
the tokens passed over, with a space wherever the text has a gap between two of them; unless a string literal is among
them, that is the text that they cover with every run of blanks and comments in it made one space. -/
theorem ascription_skips {text : List Char} {c : Cursor} (hc : c.tokens = tokenize text)
    (hstops : .endOfInput ∉ stops) :
    match (ascription stops).run c with
    | .ok (answer, d) =>
      EndsAscription c.tokens stops c.index d.index ∧ d.tokens = c.tokens ∧
        answer = gappedText text (tokensBetween c.tokens c.index d.index) ∧
        ((∀ t ∈ tokensBetween c.tokens c.index d.index, t.kind ≠ .string) →
          answer.toList = collapsed (stretch text c.current.start d.previous.stop))
    | .error failure => failure.IsFault ∧ ∀ j, ¬ EndsAscription c.tokens stops c.index j := by
  have hended : c.Ended ReadFailure.IsFault := Cursor.ended_of_finished (hc ▸ finished_tokenize text)
  have hruns := ascription_ends hstops hended.closed
  have hdrop : c.tokens.drop c.index = c.ahead := by
    rw [Cursor.tokens, Cursor.index, ← List.length_reverse, List.drop_left]
    rfl
  cases hrun : (ascription stops).run c with
  | error failure =>
    rw [hrun] at hruns
    refine ⟨hruns.1, fun j hj => ?_⟩
    obtain ⟨m, rfl⟩ := Nat.exists_eq_add_of_le (Nat.le_of_lt hj.nonempty)
    obtain ⟨hpos, hends⟩ := endsAscription_iff.mp hj
    exact hruns.2 m hpos (hdrop ▸ hends)
  | ok result =>
    obtain ⟨answer, d⟩ := result
    rw [hrun] at hruns
    obtain ⟨t, ts, u, us, hahead, hends, hdahead, hdbefore, hanswer⟩ := hruns
    obtain ⟨last, hlast⟩ := Option.isSome_iff_exists.mp (List.getLast?_isSome.mpr (List.cons_ne_nil t ts))
    have hcurrent : c.current = t := (List.cons.inj hahead).1
    have hprevious : d.previous = last := by
      rw [Cursor.previous, hdbefore, List.head?_append, List.head?_reverse, hlast]
      rfl
    have hindex : d.index = c.index + (t :: ts).length := by
      rw [Cursor.index, hdbefore, List.length_append, List.length_reverse, Nat.add_comm, Cursor.index]
    have hbetween : tokensBetween c.tokens c.index d.index = t :: ts := by
      rw [hindex, tokensBetween_add, hdrop, hahead, List.take_left]
    have htokens : c.tokens = c.before.reverse ++ (t :: ts ++ u :: us) := by rw [← hahead, Cursor.tokens, Cursor.ahead]
    have htiles : Tiles text 0 (c.before.reverse ++ (t :: ts ++ u :: us)) := by
      rw [← htokens, hc]
      exact tiles_scan [] text rfl
    have htext : answer = gappedText text (t :: ts) := by
      rw [hanswer, htokens, hcurrent, hprevious]
      exact textBetween_eq_gappedText htiles hends.kind_ne_endOfInput hlast
    refine ⟨?_, ?_, ?_, fun hstring => ?_⟩
    · rw [hindex]
      exact endsAscription_iff.mpr ⟨Nat.succ_pos _, by rwa [hdrop, hahead]⟩
    · rw [htokens, Cursor.tokens, hdbefore, List.reverse_append, List.reverse_reverse, List.append_assoc]
      exact congrArg _ (congrArg _ hdahead)
    · rw [htext, hbetween]
    · rw [hbetween] at hstring
      have hsolid := solid_of_endsBehind (hc ▸ htokens) hstops hends hstring
      obtain ⟨start, -, hrest⟩ := htiles.of_append (by simp)
      rw [htext, hcurrent, hprevious]
      exact toList_gappedText hrest hends.kind_ne_endOfInput hsolid hlast

/-- A name with an ascription, in which a comment has a bracket in it, and the bracket behind that. -/
def pairText : List Char :=
  "x: #(Int,\t\n// ) \n  b . C) )".toList

/-- The tokens of the ascription are ahead. -/
def pairCursor : Cursor :=
  ⟨[⟨.colon, some ":", 1, 2, 1, 2⟩, ⟨.name, some "x", 1, 1, 0, 1⟩], ⟨.hash, some "#", 1, 4, 3, 4⟩,
    [⟨.leftParen, some "(", 1, 5, 4, 5⟩, ⟨.upName, some "Int", 1, 6, 5, 8⟩, ⟨.comma, some ",", 1, 9, 8, 9⟩,
     ⟨.name, some "b", 3, 3, 19, 20⟩, ⟨.dot, some ".", 3, 5, 21, 22⟩, ⟨.upName, some "C", 3, 7, 23, 24⟩,
     ⟨.rightParen, some ")", 3, 8, 24, 25⟩, ⟨.rightParen, some ")", 3, 10, 26, 27⟩,
     ⟨.endOfInput, none, 3, 11, 27, 27⟩]⟩

/-- The bracket at the end stops the ascription, though it closes one. -/
theorem ascription_pairCursor :
    pairCursor.tokens = tokenize pairText ∧ .endOfInput ∉ [TokenKind.comma, .rightParen] ∧
      EndsAscription pairCursor.tokens [.comma, .rightParen] 2 10 ∧
      ∃ d, (ascription [.comma, .rightParen]).run pairCursor = .ok ("#(Int, b . C)", d) ∧
        "#(Int, b . C)".toList = collapsed (stretch pairText 3 25) := by
  have htokens : pairCursor.tokens = tokenize pairText := by decide +kernel
  have hstops : .endOfInput ∉ [TokenKind.comma, .rightParen] := by decide
  have hskips := ascription_skips htokens hstops
  have hrun : ∃ d, (ascription [.comma, .rightParen]).run pairCursor = .ok ("#(Int, b . C)", d) ∧ d.index = 10 ∧
      d.previous.stop = 25 := ⟨_, rfl, rfl, rfl⟩
  obtain ⟨d, hd, hindex, hstop⟩ := hrun
  rw [hd] at hskips
  obtain ⟨hends, -, -, hslice⟩ := hskips
  rw [hindex] at hends hslice
  rw [hstop] at hslice
  exact ⟨htokens, hstops, hends, d, hd, hslice (by decide)⟩

end Grammar

end ScopeLint
