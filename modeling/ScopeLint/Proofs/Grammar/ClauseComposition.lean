import ScopeLint.Proofs.Grammar.CaseReading
import ScopeLint.Proofs.Grammar.Concatenation

/-!
# Clauses one behind the other

A clause that may stand alone in a case expression may stand behind other clauses, too, and means the same there
(`CaseFrame.readsChoice_append`).  Two things are asked for: the clauses before it close their own brackets and no
others, since the braces that are written around them have to be those of the case expression, and it does not start
with a minus sign, which would go on with the clause before it (`clauses_not_composed`).

The list with all clauses is read side by side with two lists: with the one that has the clauses before up to the end of
those, and from there on with the one that has the clauses behind.
-/

namespace ScopeLint

open Spelling

/-! ### Lists that start alike, and lists that end alike -/

namespace Twins

/-- Two lists that start alike, if nothing that a rule looks for behind the last token they have in common is there. -/
def ofStart (start rest rest' : List Token) (view : String → String) (hclosed : Closed (start ++ rest))
    (hclosed' : Closed (start ++ rest'))
    (hnext : ∀ t ∈ start.getLast?, ∀ kind ∈ t.kind.sought, ∀ u, u ∈ rest.head? ∨ u ∈ rest'.head? → u.kind ≠ kind)
    (htext : ∀ t ∈ start, ∀ place,
      view (textBetween (start ++ rest) place t.stop) = view (textBetween (start ++ rest') place t.stop)) : Twins where
  left := start ++ rest
  right := start ++ rest'
  shift := 0
  first := 0
  bound := start.length
  view := view
  leftClosed := hclosed
  rightClosed := hclosed'
  echo {i t} _ hi ht := by
    rw [List.getElem?_append_left hi] at ht
    exact ⟨t, by rw [Nat.add_zero, List.getElem?_append_left hi, ht], .inl (.refl t)⟩
  next {i t} _ hi ht hk := by
    have hne : t.kind ≠ .endOfInput := by rcases hk with hk | hk <;> rw [hk] <;> decide
    have hsame : (start ++ rest')[i]? = some t := by
      rw [List.getElem?_append_left hi] at ht ⊢
      exact ht
    obtain ⟨t', ht'⟩ := hclosed.getElem?_succ ht hne
    obtain ⟨u', hu'⟩ := hclosed'.getElem?_succ hsame hne
    refine ⟨t', u', ht', hu', fun kind hkind => ?_⟩
    rcases Nat.lt_or_ge (i + 1) start.length with hinside | hlast
    · rw [List.getElem?_append_left hinside] at ht' hu'
      rw [ht'] at hu'
      cases hu'
      rfl
    · obtain hlength : i + 1 = start.length := Nat.le_antisymm hi hlast
      have hgetLast : t ∈ start.getLast? := by
        rw [List.getLast?_eq_getElem?, ← hlength, Nat.add_sub_cancel, ← List.getElem?_append_left hi, ht]
        rfl
      have hhead : ∀ {us : List Token} {u : Token}, (start ++ us)[i + 1]? = some u → u ∈ us.head? := by
        intro us u hu
        rw [List.getElem?_append_right hlast, hlength, Nat.sub_self] at hu
        rw [List.head?_eq_getElem?, hu]
        rfl
      have hnone : ∀ {u : Token}, u.kind ≠ kind → u.is kind none = false := fun hu =>
        Bool.eq_false_iff.mpr (Token.is_none_iff.not.mpr hu)
      rw [hnone (hnext t hgetLast kind hkind t' (.inl (hhead ht'))),
        hnone (hnext t hgetLast kind hkind u' (.inr (hhead hu')))]
  text {i j t t' u u'} _ hij hj ht ht' hu hu' := by
    have hsame : ∀ {k v w}, k < start.length → (start ++ rest)[k]? = some v → (start ++ rest')[k]? = some w →
        v = w ∧ v ∈ start := by
      intro k v w hk hv hw
      rw [List.getElem?_append_left hk] at hv hw
      rw [hv] at hw
      cases hw
      exact ⟨rfl, List.mem_of_getElem? hv⟩
    have hend : j < start.length := Nat.lt_of_succ_lt hj
    obtain ⟨rfl, -⟩ := hsame (Nat.lt_of_le_of_lt hij hend) ht hu
    obtain ⟨rfl, hmem⟩ := hsame hend ht' hu'
    exact htext _ hmem _

private theorem getElem?_ofEnd {start middle rest : List Token} {i : Nat} (hi : start.length ≤ i) :
    (start ++ middle ++ rest)[i + middle.length]? = (start ++ rest)[i]? := by
  rw [List.append_assoc, List.getElem?_append_right (by omega), List.getElem?_append_right (by omega),
    List.getElem?_append_right hi]
  exact congrArg _ (by omega)

/-- Two lists that end alike, the second one of which has some more tokens before their common end. -/
def ofEnd (start middle rest : List Token) (ending : Token) (view : String → String)
    (hclosed : Closed (start ++ (rest ++ [ending]))) (hclosed' : Closed (start ++ middle ++ (rest ++ [ending])))
    (htext : ∀ t ∈ rest, ∀ place, view (textBetween (start ++ (rest ++ [ending])) t.start place) =
      view (textBetween (start ++ middle ++ (rest ++ [ending])) t.start place)) : Twins where
  left := start ++ (rest ++ [ending])
  right := start ++ middle ++ (rest ++ [ending])
  shift := middle.length
  first := start.length
  bound := start.length + rest.length
  view := view
  leftClosed := hclosed
  rightClosed := hclosed'
  echo {i t} hfirst _ ht := ⟨t, (getElem?_ofEnd hfirst).trans ht, .inl (.refl t)⟩
  next {i t} hfirst hi ht hk := by
    have hne : t.kind ≠ .endOfInput := by rcases hk with hk | hk <;> rw [hk] <;> decide
    obtain ⟨u, hu⟩ := hclosed.getElem?_succ ht hne
    exact ⟨u, u, hu, (getElem?_ofEnd (Nat.le_succ_of_le hfirst)).trans hu, fun _ _ => rfl⟩
  text {i j t t' u u'} hfirst hij hj ht ht' hu hu' := by
    rw [getElem?_ofEnd hfirst, ht] at hu
    rw [getElem?_ofEnd (Nat.le_trans hfirst hij), ht'] at hu'
    cases hu
    cases hu'
    refine htext t ?_ _
    rw [List.getElem?_append_right hfirst, List.getElem?_append_left (by omega)] at ht
    exact List.mem_of_getElem? ht

theorem strict_ofStart {start rest rest' : List Token} {view : String → String} {hclosed : Closed (start ++ rest)}
    {hclosed' : Closed (start ++ rest')} {hnext} {htext} :
    (ofStart start rest rest' view hclosed hclosed' hnext htext).Strict := by
  intro i t u _ hi ht hu
  have ht : (start ++ rest)[i]? = some t := ht
  have hu : (start ++ rest')[i]? = some u := hu
  rw [List.getElem?_append_left hi] at ht hu
  rw [ht] at hu
  cases hu
  exact .refl t

end Twins

/-! ### Case expressions -/

/-- The tokens of a case expression that is all there is, but for its clauses. -/
structure CaseFrame where
  word : Token
  subjects : List Token
  opening : Token
  closing : Token
  ending : Token
  isCase : word.is .keyword (some "case") = true
  opens : opening.kind = .leftBrace
  closes : closing.kind = .rightBrace
  ends : ending.kind = .endOfInput

/-- The subjects and the clauses of the case expression that is read from all tokens before the last one. -/
def caseOf? (tokens : List Token) : Option (List Node × List Node) :=
  match (Grammar.expression.onTokens tokens).value with
  | .ok (.choice _ subjects clauses, d) => if d.after.isEmpty then some (subjects, clauses) else none
  | _ => none

/-- A case expression with subjects and clauses that look alike is read from all tokens before the last one. -/
def ReadsCase (view : String → String) (tokens : List Token) (subjects clauses : List Node) : Prop :=
  ∃ subjects' clauses', caseOf? tokens = some (subjects', clauses') ∧
    outlineAll view subjects' = outlineAll view subjects ∧ outlineAll view clauses' = outlineAll view clauses

theorem caseOf?_eq_some {tokens : List Token} {subjects clauses : List Node} :
    caseOf? tokens = some (subjects, clauses) ↔ ∃ anchor d,
      (Grammar.expression.onTokens tokens).value = .ok (.choice anchor subjects clauses, d) ∧ d.after = [] := by
  unfold caseOf?
  constructor
  · intro h
    split at h
    · next anchor subjects' clauses' d hrun =>
      obtain ⟨hafter, hanswer⟩ := Option.ite_none_right_eq_some.mp h
      cases hanswer
      exact ⟨anchor, d, hrun, List.isEmpty_iff.mp hafter⟩
    · cases h
  · rintro ⟨anchor, d, hrun, hafter⟩
    simp only [hrun, hafter, List.isEmpty_nil, if_true]

theorem readsCase_of_eq {tokens : List Token} {subjects clauses : List Node}
    (h : caseOf? tokens = some (subjects, clauses)) (view : String → String) :
    ReadsCase view tokens subjects clauses :=
  ⟨subjects, clauses, h, rfl, rfl⟩

/-- Of two tokens, the one further on starts and stops further on. -/
def InOrder (tokens : List Token) : Prop :=
  tokens.Pairwise fun t u => t.start < u.start ∧ t.stop < u.stop

namespace CaseFrame

/-- The tokens before the clauses. -/
def before (f : CaseFrame) : List Token :=
  f.word :: (f.subjects ++ [f.opening])

/-- The tokens of the case expression with some clauses. -/
def around (f : CaseFrame) (clauses : List Token) : List Token :=
  f.before ++ (clauses ++ [f.closing])

/-- The whole list. -/
def tokens (f : CaseFrame) (clauses : List Token) : List Token :=
  f.around clauses ++ [f.ending]

/-- The cursor at the first token of the list. -/
def cursor (f : CaseFrame) (clauses : List Token) : Cursor :=
  ⟨[], f.word, f.subjects ++ f.opening :: clauses ++ [f.closing, f.ending]⟩

variable (f : CaseFrame) {clauses : List Token}

theorem tokens_cursor (clauses : List Token) : (f.cursor clauses).tokens = f.tokens clauses := by
  simp [cursor, Cursor.tokens, tokens, around, before]

theorem onTokens_tokens (clauses : List Token) :
    (Grammar.expression.onTokens (f.tokens clauses)).value = Grammar.expression.run (f.cursor clauses) := by
  rw [← f.tokens_cursor]
  rfl

theorem closed_tokens (clauses : List Token) : Closed (f.tokens clauses) := by
  intro last hlast
  rw [tokens, List.getLast?_concat] at hlast
  cases hlast
  exact f.ends

theorem length_tokens (clauses : List Token) :
    (f.tokens clauses).length = f.before.length + clauses.length + 2 := by
  simp only [tokens, around, List.length_append, List.length_singleton]
  omega

open Grammar Reading

/-- A cursor at which nothing is ahead is at the mark for the end of the input. -/
private theorem kind_of_after_eq_nil {d : Cursor} (htokens : d.tokens = f.tokens clauses) (hafter : d.after = []) :
    d.current.kind = .endOfInput := by
  refine f.closed_tokens clauses d.current ?_
  rw [← htokens, Cursor.tokens, hafter, List.getLast?_concat]
  rfl

private theorem length_tokens_cursor (c : Cursor) : c.tokens.length = c.index + c.after.length + 1 := by
  simp only [Cursor.tokens, Cursor.index, List.length_append, List.length_reverse, List.length_cons]
  omega

/-- A brace that is the last token but one. -/
private theorem advance_closing {d : Cursor} (htokens : d.tokens = f.tokens clauses)
    (hbrace : d.current.kind = .rightBrace) :
    d.advance.after = [] ↔ d.index = f.before.length + clauses.length := by
  have hnext : d.next? ≠ none := Cursor.next?_ne_none (htokens ▸ f.closed_tokens clauses) (by simp [hbrace])
  have hlength := length_tokens_cursor d.advance
  rw [d.tokens_advance, htokens, f.length_tokens, Cursor.index_advance hnext] at hlength
  rw [← List.length_eq_zero_iff]
  omega

/-- A case expression that is read from the whole list is read part by part, and its clauses end where the last brace
is. -/
theorem exists_caseRead {view : String → String} {subjects nodes : List Node}
    (h : ReadsCase view (f.tokens clauses) subjects nodes) :
    ∃ subjects' nodes' opening closing, CaseRead (f.cursor clauses) subjects' nodes' opening closing ∧
      closing.index = f.before.length + clauses.length ∧ outlineAll view subjects' = outlineAll view subjects ∧
      outlineAll view nodes' = outlineAll view nodes := by
  obtain ⟨subjects', nodes', hcase, hsubjects, hnodes⟩ := h
  obtain ⟨anchor, d, hrun, hafter⟩ := caseOf?_eq_some.mp hcase
  rw [f.onTokens_tokens] at hrun
  have hclosed : Closed (f.cursor clauses).tokens := f.tokens_cursor clauses ▸ f.closed_tokens clauses
  have hd : d.tokens = f.tokens clauses :=
    (((inferInstance : Forward Grammar.expression).forward hclosed).answers hrun).1.trans (f.tokens_cursor clauses)
  have hend := f.kind_of_after_eq_nil hd hafter
  obtain ⟨_, _, opening, closing, hread, hnode, rfl⟩ :=
    run_choice_eq_ok.mp ((run_expression_eq_choice hclosed f.isCase hend).mp hrun)
  cases hnode
  refine ⟨subjects', nodes', opening, closing, hread, ?_, hsubjects, hnodes⟩
  exact (f.advance_closing (closing.tokens_advance.symm.trans hd) hread.closes).mp hafter

/-- Conversely, a case expression that is read part by part is read from the whole list if its clauses end there. -/
theorem readsCase_of_caseRead {view : String → String} {subjects subjects' nodes nodes' : List Node}
    {opening closing : Cursor} (h : CaseRead (f.cursor clauses) subjects' nodes' opening closing)
    (htokens : closing.tokens = f.tokens clauses) (hindex : closing.index = f.before.length + clauses.length)
    (hsubjects : outlineAll view subjects' = outlineAll view subjects)
    (hnodes : outlineAll view nodes' = outlineAll view nodes) : ReadsCase view (f.tokens clauses) subjects nodes := by
  have hclosed : Closed (f.cursor clauses).tokens := f.tokens_cursor clauses ▸ f.closed_tokens clauses
  have hafter := (f.advance_closing htokens h.closes).mpr hindex
  have hend := f.kind_of_after_eq_nil (closing.tokens_advance.trans htokens) hafter
  refine ⟨subjects', nodes', caseOf?_eq_some.mpr ⟨f.word.anchor, closing.advance, ?_, hafter⟩, hsubjects, hnodes⟩
  rw [f.onTokens_tokens, run_expression_eq_choice hclosed f.isCase hend]
  exact run_choice_eq_ok.mpr ⟨subjects', nodes', opening, closing, h, rfl, rfl⟩

/-- If the clauses close their own brackets and no others, the subjects end where the frame has its opening brace. -/
theorem index_opening {subjects nodes : List Node} {opening closing : Cursor}
    (h : CaseRead (f.cursor clauses) subjects nodes opening closing)
    (hindex : closing.index = f.before.length + clauses.length)
    (hnested : BracketsClose [] 0 (clauses.map Token.word)) :
    opening.index + 1 = f.before.length ∧ ∀ t ∈ clauses.getLast?, t.kind ≠ .dot := by
  have hclosed : Closed (f.cursor clauses).tokens := f.tokens_cursor clauses ▸ f.closed_tokens clauses
  have hk : (f.cursor clauses).current.kind ≠ .endOfInput := by
    rw [show (f.cursor clauses).current.kind = .keyword from (Token.is_some_iff.mp f.isCase).1]
    exact TokenKind.noConfusion
  obtain ⟨us, vs, hafter, ⟨hopening, -⟩, ⟨-, htokens⟩, hinner, hlast⟩ := h.exists_tokens hclosed hk
  -- The two tokens at the end are the closing brace and the mark, on both sides.
  have hahead : closing.ahead.length = [f.closing, f.ending].length := by
    have hlength := length_tokens_cursor closing
    rw [htokens, f.tokens_cursor, f.length_tokens, hindex] at hlength
    simp only [Cursor.ahead, List.length_cons, List.length_nil]
    omega
  have hfront : f.subjects ++ f.opening :: clauses = us ++ opening.current :: vs :=
    (List.append_inj' hafter hahead.symm).1
  obtain ⟨rfl, -, rfl⟩ := opening_unique hfront (by rw [f.opens]; rfl) (by rw [h.opens]; rfl) hnested hinner
  refine ⟨?_, hlast⟩
  rw [hopening, before, List.length_cons, List.length_append]
  show 0 + 1 + f.subjects.length + 1 = f.subjects.length + 1 + 1
  omega

variable {more : List Token}

/-- Behind the word of the case expression, both lists are inside the bound of two lists with a frame in common. -/
private theorem at_advance {p : Twins} (hleft : p.left = f.tokens clauses) (hright : p.right = f.tokens more)
    (hshift : p.shift = 0) (hfirst : p.first = 0) (hbound : f.before.length ≤ p.bound) :
    p.At (f.cursor clauses).advance (f.cursor more).advance := by
  have hlength : f.before.length = f.subjects.length + 2 := by
    rw [before, List.length_cons, List.length_append]
    rfl
  have hat : p.At (f.cursor clauses) (f.cursor more) := by
    refine ⟨⟨?_, ?_, ?_, ?_⟩, ?_⟩
    · rw [f.tokens_cursor, hleft]
    · rw [f.tokens_cursor, hright]
    · rw [hshift]
      rfl
    · rw [hfirst]
      exact Nat.zero_le _
    · show 0 < p.bound
      omega
  have hk : (f.cursor clauses).current.kind ≠ .endOfInput := by
    rw [show (f.cursor clauses).current.kind = .keyword from (Token.is_some_iff.mp f.isCase).1]
    exact TokenKind.noConfusion
  obtain ⟨hbeside, hindex, -⟩ := hat.advance hk
  refine ⟨hbeside, ?_⟩
  rw [hindex]
  show 0 + 1 < p.bound
  omega

private theorem tracks_subjects {p : Twins} {c c' : Cursor} (hat : p.At c c') :
    Tracks p (List.Forall₂ (Node.LooksLike p.view))
      (Reading.separated Grammar.expression (accepts .comma) Grammar.expression)
      (Reading.separated Grammar.expression (accepts .comma) Grammar.expression) c c' :=
  follows_separated follows_expression (fun hat => tracks_accepts hat rfl) follows_expression hat

/-- Where the subjects end does not depend on the clauses. -/
theorem index_opening_eq {subjects subjects' nodes nodes' : List Node} {opening opening' closing closing' : Cursor}
    (h : CaseRead (f.cursor clauses) subjects nodes opening closing)
    (h' : CaseRead (f.cursor more) subjects' nodes' opening' closing')
    (hindex : opening.index + 1 = f.before.length) :
    opening'.index = opening.index ∧ opening'.tokens = f.tokens more := by
  have hclosed : ∀ {clauses : List Token}, Closed (f.before ++ (clauses ++ [f.closing] ++ [f.ending])) := by
    intro clauses
    have := f.closed_tokens clauses
    rwa [tokens, around, List.append_assoc] at this
  have hnone : ∀ t ∈ f.before.getLast?, t.kind.sought = [] := by
    intro t ht
    have hlast : f.before.getLast? = some f.opening := by rw [before, ← List.cons_append, List.getLast?_concat]
    rw [hlast] at ht
    cases ht
    rw [f.opens]
    rfl
  let p : Twins := .ofStart f.before (clauses ++ [f.closing] ++ [f.ending]) (more ++ [f.closing] ++ [f.ending])
    (fun _ => "") hclosed hclosed (fun t ht kind hkind => by rw [hnone t ht] at hkind; cases hkind) fun _ _ _ => rfl
  have hat : p.At (f.cursor clauses).advance (f.cursor more).advance :=
    f.at_advance (by rw [tokens, around, List.append_assoc]; rfl) (by rw [tokens, around, List.append_assoc]; rfl)
      rfl rfl (Nat.le_refl _)
  rcases (tracks_subjects hat).answers h.subjects_read (show opening.index < f.before.length by omega) with
    hendless | ⟨_, _, hrun, hat', -⟩
  · rw [h'.subjects_read] at hendless
    cases hendless
  · rw [h'.subjects_read] at hrun
    cases hrun
    refine ⟨hat'.index, hat'.right.trans ?_⟩
    rw [tokens, around, List.append_assoc]
    rfl

/-- The first token of clauses is the first token of a clause. -/
theorem exists_first {subjects nodes : List Node} {opening closing : Cursor}
    (h : CaseRead (f.cursor more) subjects nodes opening closing) (hindex : opening.index + 1 = f.before.length)
    (htokens : opening.tokens = f.tokens more) (hminus : ∀ t ∈ more.head?, t.is .operator (some "-") = false) :
    ∃ first rest, more = first :: rest ∧ first.kind.startsClause = true := by
  have hnext : opening.next? ≠ none := Cursor.next?_ne_none (htokens ▸ f.closed_tokens more) (by simp [h.opens])
  have hcurrent : (f.tokens more)[f.before.length]? = some opening.advance.current := by
    rw [← hindex, ← Cursor.index_advance hnext, ← htokens, ← opening.tokens_advance, Cursor.getElem?_index]
  rw [tokens, around, List.append_assoc, List.getElem?_append_right (Nat.le_refl _), Nat.sub_self] at hcurrent
  cases more with
  | nil =>
    have hcurrent : opening.advance.current = f.closing := by simpa using hcurrent.symm
    have hother : f.closing.is .operator (some "-") = false := by rw [Token.is, f.closes]; rfl
    have hstarts := startsClause_of_run_clauses h.nonempty h.clauses_read (hcurrent ▸ hother)
    rw [hcurrent, f.closes] at hstarts
    cases hstarts
  | cons first rest =>
    have hcurrent : opening.advance.current = first := by simpa using hcurrent.symm
    refine ⟨first, rest, rfl, ?_⟩
    rw [← hcurrent]
    exact startsClause_of_run_clauses h.nonempty h.clauses_read (hcurrent ▸ hminus first rfl)

/-! ### The list with all clauses -/

private theorem apart (h : InOrder (f.around (clauses ++ more))) :
    ∀ t ∈ f.before ++ clauses, ∀ u ∈ more ++ [f.closing], t.start < u.start ∧ t.stop < u.stop := by
  have hsplit : f.around (clauses ++ more) = f.before ++ clauses ++ (more ++ [f.closing]) := by simp [around]
  rw [hsplit] at h
  exact (List.pairwise_append.mp h).2.2

variable {view : String → String}

/-- The list with the clauses before and the list with all clauses fork behind the clauses before. -/
private theorem exists_fork (hview : (∀ text text', view text = view text') ∨ InOrder (f.around (clauses ++ more)))
    (hdot : ∀ t ∈ clauses.getLast?, t.kind ≠ .dot) {first : Token} {rest : List Token} (hmore : more = first :: rest)
    (hstarts : first.kind.startsClause = true) :
    ∃ p : Twins, p.left = f.tokens clauses ∧ p.right = f.tokens (clauses ++ more) ∧ p.shift = 0 ∧ p.first = 0 ∧
      p.bound = f.before.length + clauses.length ∧ p.view = view ∧ p.Forks := by
  have hleft : f.tokens clauses = f.before ++ clauses ++ [f.closing, f.ending] := by simp [tokens, around]
  have hright : f.tokens (clauses ++ more) = f.before ++ clauses ++ (more ++ [f.closing, f.ending]) := by
    simp [tokens, around]
  have hlast : ∀ t ∈ (f.before ++ clauses).getLast?, t.kind ≠ .dot := by
    intro t ht
    cases hclauses : clauses.getLast? with
    | none =>
      rw [List.getLast?_append, hclauses, Option.none_or, before, ← List.cons_append, List.getLast?_concat] at ht
      cases ht
      rw [f.opens]
      exact TokenKind.noConfusion
    | some last =>
      rw [List.getLast?_append, hclauses, Option.some_or] at ht
      cases ht
      exact hdot _ hclauses
  have hnext : ∀ t ∈ (f.before ++ clauses).getLast?, ∀ kind ∈ t.kind.sought, ∀ u,
      u ∈ [f.closing, f.ending].head? ∨ u ∈ (more ++ [f.closing, f.ending]).head? → u.kind ≠ kind := by
    rintro t ht kind hkind u hu rfl
    -- Behind a name a colon is looked for, with which no clause starts.
    have hcolon : u.kind = .colon := by
      rcases TokenKind.mem_sought hkind with ⟨-, hcolon⟩ | ⟨hdot, -⟩
      · exact hcolon
      · exact absurd hdot (hlast t ht)
    rcases hu with hu | hu
    · cases hu
      rw [f.closes] at hcolon
      cases hcolon
    · rw [hmore] at hu
      cases hu
      rw [hcolon] at hstarts
      cases hstarts
  have htext : ∀ t ∈ f.before ++ clauses, ∀ place,
      view (textBetween (f.before ++ clauses ++ [f.closing, f.ending]) place t.stop) =
        view (textBetween (f.before ++ clauses ++ (more ++ [f.closing, f.ending])) place t.stop) := by
    intro t ht place
    rcases hview with hall | horder
    · exact hall _ _
    · have happart := f.apart horder t ht
      have hnone : ∀ u ∈ more ++ [f.closing, f.ending], t.stop < u.stop ∨ u.kind = .endOfInput := by
        intro u hu
        rw [← List.singleton_append, ← List.append_assoc] at hu
        rcases List.mem_append.mp hu with hu | hu
        · exact .inl (happart u hu).2
        · exact .inr (List.mem_singleton.mp hu ▸ f.ends)
      rw [textBetween_append_right fun u hu => hnone u (List.mem_append_right more hu), textBetween_append_right hnone]
  have hclosed : Closed (f.before ++ clauses ++ [f.closing, f.ending]) := hleft ▸ f.closed_tokens clauses
  have hclosed' : Closed (f.before ++ clauses ++ (more ++ [f.closing, f.ending])) :=
    hright ▸ f.closed_tokens (clauses ++ more)
  refine ⟨.ofStart _ _ _ view hclosed hclosed' hnext htext, hleft.symm, hright.symm, rfl, rfl, ?_, rfl,
    Twins.strict_ofStart, ⟨f.closing, ?_, f.closes⟩, ⟨first, ?_, hstarts⟩⟩
  · exact List.length_append
  · show (f.before ++ clauses ++ [f.closing, f.ending])[(f.before ++ clauses).length]? = _
    rw [List.getElem?_append_right (Nat.le_refl _), Nat.sub_self]
    rfl
  · show (f.before ++ clauses ++ (more ++ [f.closing, f.ending]))[(f.before ++ clauses).length + 0]? = _
    rw [Nat.add_zero, List.getElem?_append_right (Nat.le_refl _), Nat.sub_self, hmore]
    rfl

/-- The list with the clauses behind and the list with all clauses end alike. -/
private theorem exists_end (hview : (∀ text text', view text = view text') ∨ InOrder (f.around (clauses ++ more))) :
    ∃ p : Twins, p.left = f.tokens more ∧ p.right = f.tokens (clauses ++ more) ∧ p.shift = clauses.length ∧
      p.first = f.before.length ∧ p.bound = f.before.length + more.length + 1 ∧ p.view = view := by
  have hleft : f.tokens more = f.before ++ (more ++ [f.closing] ++ [f.ending]) := by simp [tokens, around]
  have hright : f.tokens (clauses ++ more) = f.before ++ clauses ++ (more ++ [f.closing] ++ [f.ending]) := by
    simp [tokens, around]
  have htext : ∀ t ∈ more ++ [f.closing], ∀ place,
      view (textBetween (f.before ++ (more ++ [f.closing] ++ [f.ending])) t.start place) =
        view (textBetween (f.before ++ clauses ++ (more ++ [f.closing] ++ [f.ending])) t.start place) := by
    intro t ht place
    rcases hview with hall | horder
    · exact hall _ _
    · have happart := fun u hu => (f.apart horder u hu t ht).1
      rw [textBetween_append_left fun u hu => happart u (List.mem_append_left clauses hu),
        textBetween_append_left happart]
  refine ⟨.ofEnd f.before clauses (more ++ [f.closing]) f.ending view (hleft ▸ f.closed_tokens more)
    (hright ▸ f.closed_tokens (clauses ++ more)) htext, hleft.symm, hright.symm, rfl, rfl, ?_, rfl⟩
  show f.before.length + (more ++ [f.closing]).length = _
  rw [List.length_append]
  rfl

private theorem tracks_clauses {p : Twins} {c c' : Cursor} (hat : p.At c c') (n n' : Nat) :
    Tracks p (List.Forall₂ (Node.LooksLike p.view))
      (collectFor (roundToBrace .clausesUnfinished (clause Grammar.expression)) n)
      (collectFor (roundToBrace .clausesUnfinished (clause Grammar.expression)) n') c c' :=
  follows_collectFor (fun hat => follows_roundToBrace (follows_clause follows_expression) _ hat) n n' hat

private theorem rounds_read {c opening closing : Cursor} {subjects nodes : List Node}
    (h : CaseRead c subjects nodes opening closing) :
    (collectFor (roundToBrace .clausesUnfinished (clause Grammar.expression)) opening.advance.reach).run
      opening.advance = .ok (nodes, closing) :=
  (run_upToBrace _ _ _).symm.trans h.clauses_read

/-- From the list with all clauses, the subjects and the clauses before are read as from the list with the clauses before
only, and reading goes on behind them. -/
private theorem exists_resumed {p : Twins} (hleft : p.left = f.tokens clauses)
    (hright : p.right = f.tokens (clauses ++ more)) (hshift : p.shift = 0) (hfirst : p.first = 0)
    (hbound : p.bound = f.before.length + clauses.length) (hp : p.Forks) {subjects nodes : List Node}
    {opening closing : Cursor} (h : CaseRead (f.cursor clauses) subjects nodes opening closing)
    (hopening : opening.index + 1 = f.before.length)
    (hclosing : closing.index = f.before.length + clauses.length) :
    ∃ subjects' opening' nodes' e k,
      (Reading.separated Grammar.expression (accepts .comma) Grammar.expression).run
        (f.cursor (clauses ++ more)).advance = .ok (subjects', opening') ∧
      opening'.current.kind = .leftBrace ∧
      (List.Forall₂ (Node.LooksLike p.view) subjects subjects' ∧ List.Forall₂ (Node.LooksLike p.view) nodes nodes') ∧
      (e.tokens = f.tokens (clauses ++ more) ∧ e.index = closing.index) ∧
      (collectFor (roundToBrace .clausesUnfinished (clause Grammar.expression)) k).run e ≠ .error .endless ∧
      (upToBrace .clausesUnfinished (clause Grammar.expression)).run opening'.advance =
        ((collectFor (roundToBrace .clausesUnfinished (clause Grammar.expression)) k).run e).map fun answer =>
          (nodes' ++ answer.1, answer.2) := by
  have hat := f.at_advance hleft hright hshift hfirst (hbound ▸ Nat.le_add_right _ _)
  have hclosed : Closed p.right := p.rightClosed
  rcases (tracks_subjects hat).answers h.subjects_read (by omega) with
    hendless | ⟨subjects', opening', hsubjects', hat', hsubjects⟩
  · exact absurd rfl ((subjects_reads (Cursor.ended_of_closed (hat.right ▸ hclosed))).of_error hendless)
  have hopens : opening.current.kind ≠ .endOfInput := by simp [h.opens]
  have halike := hat'.alike hopens
  obtain ⟨hbeside, -, -⟩ := hat'.advance hopens
  have hends : (upToBrace .clausesUnfinished (clause Grammar.expression)).run opening'.advance ≠ .error .endless :=
    fun hendless => (clauses_reads (Cursor.ended_of_closed (hbeside.right ▸ hclosed))).of_error hendless rfl
  rw [run_upToBrace] at hends
  rcases resumes_clauses hp opening.advance.reach opening'.advance.reach hbeside (rounds_read h) (by omega) with
    hendless | ⟨k, nodes', e, he, hnodes, hresumed⟩
  · exact absurd hendless hends
  refine ⟨subjects', opening', nodes', e, k, hsubjects', halike.kind ▸ h.opens, ⟨hsubjects, hnodes⟩,
    ⟨he.right.trans hright, ?_⟩, fun hendless => hends ?_, (run_upToBrace _ _ _).trans hresumed⟩
  · rw [he.index, hshift, Nat.add_zero]
  · rw [hendless] at hresumed
    exact hresumed

/-- Clauses may stand behind clauses that close their own brackets and no others, if they do not start with a minus sign,
and all of them mean the same there. -/
theorem readsCase_append {subjects nodes nodes' : List Node}
    (hnested : BracketsClose [] 0 (clauses.map Token.word))
    (hminus : ∀ t ∈ more.head?, t.is .operator (some "-") = false)
    (hview : (∀ text text', view text = view text') ∨ InOrder (f.around (clauses ++ more)))
    (h : ReadsCase view (f.tokens clauses) subjects nodes) (h' : ReadsCase view (f.tokens more) subjects nodes') :
    ReadsCase view (f.tokens (clauses ++ more)) subjects (nodes ++ nodes') := by
  obtain ⟨subjects₁, nodes₁, opening₁, closing₁, hread₁, hindex₁, hsubjects, hnodes⟩ := f.exists_caseRead h
  obtain ⟨subjects₂, nodes₂, opening₂, closing₂, hread₂, hindex₂, -, hnodes'⟩ := f.exists_caseRead h'
  obtain ⟨hopening₁, hdot⟩ := f.index_opening hread₁ hindex₁ hnested
  obtain ⟨hopening₂, htokens₂⟩ := f.index_opening_eq hread₁ hread₂ hopening₁
  obtain ⟨first, rest, hmore, hstarts⟩ := f.exists_first hread₂ (hopening₂ ▸ hopening₁) htokens₂ hminus
  -- The clauses before are read as from the first list.
  obtain ⟨p, hleft, hright, hshift, hfirst, hbound, hpview, hp⟩ := f.exists_fork hview hdot hmore hstarts
  obtain ⟨subjects₃, opening₃, nodes₃, e, k, hread₃, hopens₃, ⟨hlike, hlike'⟩, ⟨htokens, hindex⟩, hends, hresumed⟩ :=
    f.exists_resumed hleft hright hshift hfirst hbound hp hread₁ hopening₁ hindex₁
  -- The clauses behind are read as from the second list.
  obtain ⟨q, hleft', hright', hshift', hfirst', hbound', hqview⟩ := f.exists_end hview
  have hnext₂ : opening₂.next? ≠ none :=
    Cursor.next?_ne_none (htokens₂ ▸ f.closed_tokens more) (by simp [hread₂.opens])
  have hadvance₂ := Cursor.index_advance hnext₂
  have hat : q.At opening₂.advance e := by
    refine ⟨⟨?_, ?_, ?_, ?_⟩, ?_⟩
    · rw [opening₂.tokens_advance, htokens₂, hleft']
    · rw [htokens, hright']
    all_goals omega
  rcases (tracks_clauses hat opening₂.advance.reach k).answers (rounds_read hread₂) (by omega) with
    hendless | ⟨nodes₄, closing₃, hrun, hat', hlike''⟩
  · exact absurd hendless hends
  rw [hrun] at hresumed
  have hcloses₃ : closing₃.current.kind = .rightBrace := (hat'.alike (by simp [hread₂.closes])).kind ▸ hread₂.closes
  have hne : nodes₃ ++ nodes₄ ≠ [] := by
    cases hlike'' with
    | nil => exact absurd rfl hread₂.nonempty
    | cons => simp
  rw [hpview] at hlike hlike'
  rw [hqview] at hlike''
  refine f.readsCase_of_caseRead ⟨hread₃, hopens₃, hresumed, hcloses₃, hne⟩ (hat'.right.trans hright') ?_ ?_ ?_
  · rw [hat'.index, hindex₂, hshift', List.length_append]
    omega
  · exact (outlineAll_eq hlike).symm.trans hsubjects
  · calc
      outlineAll view (nodes₃ ++ nodes₄) = outlineAll view nodes₃ ++ outlineAll view nodes₄ := outlineAll_append _ _
      _ = outlineAll view nodes ++ outlineAll view nodes' := by
        rw [← outlineAll_eq hlike', ← outlineAll_eq hlike'', hnodes, hnodes']
      _ = outlineAll view (nodes ++ nodes') := (outlineAll_append _ _).symm

end CaseFrame

/-! ### Samples -/

/-- A token of the first line of a text. -/
def Token.inLine (kind : TokenKind) (text : String) (start : Nat) : Token :=
  ⟨kind, some text, 1, start + 1, start, start + text.length⟩

/-- A case expression from the start of a line on. -/
def lineFrame (subjects : List Token) (opening closing : Nat) : CaseFrame where
  word := .inLine .keyword "case" 0
  subjects := subjects
  opening := .inLine .leftBrace "\x7b" opening
  closing := .inLine .rightBrace "\x7d" closing
  ending := ⟨.endOfInput, none, 1, closing + 2, closing + 1, closing + 1⟩
  isCase := by decide
  opens := rfl
  closes := rfl
  ends := rfl

/-- The tokens of a clause with a name and a number. -/
def numberClause (name number : String) (start : Nat) : List Token :=
  [.inLine .name name start, .inLine .rightArrow "->" (start + 2), .inLine .integer number (start + 5)]

/-- The clause with a name and a number. -/
def numberNode (name number : String) (start : Nat) : Node :=
  .clause ⟨some 1, some (start + 1)⟩ [[.patName ⟨some 1, some (start + 1)⟩ name]] none
    (.int ⟨some 1, some (start + 6)⟩ number)

/-- A clause with a number behind another one. -/
theorem readsCase_twoClauses :
    ReadsCase id ((lineFrame [.inLine .name "x" 5] 7 23).tokens (numberClause "a" "1" 9 ++ numberClause "b" "2" 16))
      [.var ⟨some 1, some 6⟩ "x"] ([numberNode "a" "1" 9] ++ [numberNode "b" "2" 16]) := by
  have hbefore : caseOf? ((lineFrame [.inLine .name "x" 5] 7 23).tokens (numberClause "a" "1" 9)) =
      some ([.var ⟨some 1, some 6⟩ "x"], [numberNode "a" "1" 9]) := by rfl
  have hbehind : caseOf? ((lineFrame [.inLine .name "x" 5] 7 23).tokens (numberClause "b" "2" 16)) =
      some ([.var ⟨some 1, some 6⟩ "x"], [numberNode "b" "2" 16]) := by rfl
  refine CaseFrame.readsCase_append _ ?_ ?_ (.inr ?_) (readsCase_of_eq hbefore id) (readsCase_of_eq hbehind id)
  · decide
  · decide
  · unfold InOrder
    decide

/-! ### Clauses that do not compose -/

/-- With the clauses before and with those behind, if a case expression is read from both lists, one with all of them is
read from the list with both. -/
def CaseFrame.Composes (f : CaseFrame) (clauses more : List Token) : Prop :=
  ∀ subjects nodes nodes', ReadsCase id (f.tokens clauses) subjects nodes → ReadsCase id (f.tokens more) subjects nodes' →
    ReadsCase id (f.tokens (clauses ++ more)) subjects (nodes ++ nodes')

theorem CaseFrame.not_composes {f : CaseFrame} {clauses more : List Token} {subjects nodes nodes' : List Node}
    (h : caseOf? (f.tokens clauses) = some (subjects, nodes)) (h' : caseOf? (f.tokens more) = some (subjects, nodes'))
    (hother : (caseOf? (f.tokens (clauses ++ more))).all fun answer =>
      !(Node.block .nowhere answer.2).same (.block .nowhere (nodes ++ nodes'))) : ¬ f.Composes clauses more := by
  intro hall
  obtain ⟨_, all, hcase, -, hnodes⟩ := hall _ _ _ (readsCase_of_eq h id) (readsCase_of_eq h' id)
  have hsame : (Node.block .nowhere all).same (.block .nowhere (nodes ++ nodes')) = true :=
    Node.same_of_outline_eq (by rw [Node.outline, Node.outline, hnodes])
  simp [hcase, hsame] at hother

/-- The tokens of a variable, a clause with a case expression, and the subject of that. -/
def nestedSubjects : List Token :=
  [.inLine .name "x" 5, .inLine .leftBrace "\x7b" 7, .inLine .name "a" 9, .inLine .rightArrow "->" 11,
    .inLine .keyword "case" 14, .inLine .name "y" 19]

/-- The clause with a case expression of one clause. -/
def nestedNode (clause : Node) : Node :=
  .clause ⟨some 1, some 10⟩ [[.patName ⟨some 1, some 10⟩ "a"]] none
    (.choice ⟨some 1, some 15⟩ [.var ⟨some 1, some 20⟩ "y"] [clause])

/-- The brace that closes the case expression in the clause is one of the clauses before. -/
private theorem nested_not_composed :
    ¬ (lineFrame nestedSubjects 21 41).Composes (numberClause "b" "2" 23 ++ [.inLine .rightBrace "\x7d" 30])
      (numberClause "c" "3" 32 ++ [.inLine .rightBrace "\x7d" 39]) := by
  have hbefore : caseOf? ((lineFrame nestedSubjects 21 41).tokens
      (numberClause "b" "2" 23 ++ [.inLine .rightBrace "\x7d" 30])) =
        some ([.var ⟨some 1, some 6⟩ "x"], [nestedNode (numberNode "b" "2" 23)]) := by rfl
  have hbehind : caseOf? ((lineFrame nestedSubjects 21 41).tokens
      (numberClause "c" "3" 32 ++ [.inLine .rightBrace "\x7d" 39])) =
        some ([.var ⟨some 1, some 6⟩ "x"], [nestedNode (numberNode "c" "3" 32)]) := by rfl
  exact CaseFrame.not_composes hbefore hbehind (by decide +kernel)

/-- The tokens of a clause with a negative number. -/
def minusClause : List Token :=
  [.inLine .operator "-" 16, .inLine .integer "1" 17, .inLine .rightArrow "->" 19, .inLine .integer "2" 22]

/-- The minus sign goes on with the clause before. -/
private theorem minus_not_composed :
    ¬ (lineFrame [.inLine .name "x" 5] 7 24).Composes (numberClause "a" "1" 9) minusClause := by
  have hbefore : caseOf? ((lineFrame [.inLine .name "x" 5] 7 24).tokens (numberClause "a" "1" 9)) =
      some ([.var ⟨some 1, some 6⟩ "x"], [numberNode "a" "1" 9]) := by rfl
  have hbehind : caseOf? ((lineFrame [.inLine .name "x" 5] 7 24).tokens minusClause) =
      some ([.var ⟨some 1, some 6⟩ "x"], [.clause ⟨some 1, some 17⟩ [[.patInt ⟨some 1, some 17⟩ "-1"]] none
        (.int ⟨some 1, some 23⟩ "2")]) := by rfl
  exact CaseFrame.not_composes hbefore hbehind (by decide +kernel)

/-- A token that covers nothing of a text. -/
def Token.unplaced (kind : TokenKind) (text : String) : Token :=
  ⟨kind, some text, 1, 1, 0, 0⟩

/-- The tokens of a clause with a block that binds a name, none of them at a place of its own. -/
def bindingClause : List Token :=
  [.unplaced .name "a", .unplaced .rightArrow "->", .unplaced .leftBrace "\x7b", .unplaced .keyword "let",
    .unplaced .name "y", .unplaced .colon ":", .unplaced .upName "T", .unplaced .equal "=", .unplaced .integer "1",
    .unplaced .rightBrace "\x7d"]

/-- The text of the ascription is that of all tokens at its place. -/
private theorem unplaced_not_composed :
    ¬ (lineFrame [.inLine .name "x" 5] 7 24).Composes bindingClause
      [.unplaced .name "b", .unplaced .rightArrow "->", .unplaced .integer "2"] := by
  have hbefore : caseOf? ((lineFrame [.inLine .name "x" 5] 7 24).tokens bindingClause) =
      some ([.var ⟨some 1, some 6⟩ "x"], [.clause ⟨some 1, some 1⟩ [[.patName ⟨some 1, some 1⟩ "a"]] none
        (.block ⟨some 1, some 1⟩ [.assignment ⟨some 1, some 1⟩ (.patName ⟨some 1, some 1⟩ "y")
          (.int ⟨some 1, some 1⟩ "1") false (some "a->\x7blety:T=1\x7d")])]) := by rfl
  have hbehind : caseOf? ((lineFrame [.inLine .name "x" 5] 7 24).tokens
      [.unplaced .name "b", .unplaced .rightArrow "->", .unplaced .integer "2"]) =
        some ([.var ⟨some 1, some 6⟩ "x"], [.clause ⟨some 1, some 1⟩ [[.patName ⟨some 1, some 1⟩ "b"]] none
          (.int ⟨some 1, some 1⟩ "2")]) := by rfl
  exact CaseFrame.not_composes hbefore hbehind (by decide +kernel)

/-- Clauses do not compose where the ones before close a brace that they have not opened, where the ones behind start
with a minus sign, or, as to the texts of ascriptions, where the tokens are not in order. -/
theorem clauses_not_composed :
    ¬ (lineFrame nestedSubjects 21 41).Composes (numberClause "b" "2" 23 ++ [.inLine .rightBrace "\x7d" 30])
      (numberClause "c" "3" 32 ++ [.inLine .rightBrace "\x7d" 39]) ∧
    ¬ (lineFrame [.inLine .name "x" 5] 7 24).Composes (numberClause "a" "1" 9) minusClause ∧
    ¬ (lineFrame [.inLine .name "x" 5] 7 24).Composes bindingClause
      [.unplaced .name "b", .unplaced .rightArrow "->", .unplaced .integer "2"] :=
  ⟨nested_not_composed, minus_not_composed, unplaced_not_composed⟩

end ScopeLint
