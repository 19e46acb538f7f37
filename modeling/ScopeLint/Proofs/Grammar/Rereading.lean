import Mathlib.Data.List.Forall2
import ScopeLint.Grammar.Definition
import ScopeLint.Proofs.Grammar.Word
import ScopeLint.Proofs.Tree.Printing

/-!
# Reading words

What a reading does on a token list of which only the words are known.  `r.Leads ws vs good` says that from every cursor
that says `ws` the reading `r` answers, from a cursor that says `vs`, with an answer that is good.  Each small reading
has a law here, so that a rule is followed word by word.
-/

namespace ScopeLint

/-- A token says a word, with a value unless it ends the input. -/
structure Token.Says (t : Token) (w : Word) : Prop where
  kind : t.kind = w.kind
  text : t.text = w.text
  value : w.kind ≠ .endOfInput → t.value = some w.text

/-- Whether a token is of a kind and has a value is seen from the word. -/
theorem Token.Says.is_some {t : Token} {w : Word} (h : t.Says w) {kind : TokenKind} (hkind : kind ≠ .endOfInput)
    (value : String) : t.is kind (some value) = decide (w = ⟨kind, value⟩) := by
  obtain ⟨kind', text⟩ := w
  by_cases hk : kind' = kind
  · subst hk
    have hvalue := h.value hkind
    simp [Token.is, h.kind, hvalue, Bool.beq_eq_decide_eq]
  · simp [Token.is, h.kind, hk]

/-- The words that a cursor has ahead. -/
def Cursor.Says (c : Cursor) (ws : List Word) : Prop :=
  List.Forall₂ Token.Says (c.current :: c.after) ws

/-- Words that are not all read: a reading that advances over the word before them has somewhere to stand. -/
class Stand (ws : List Word) : Prop where
  ne_nil : ws ≠ []

instance {w : Word} {ws : List Word} : Stand (w :: ws) :=
  ⟨List.cons_ne_nil w ws⟩

instance {us vs : List Word} [Stand vs] : Stand (us ++ vs) :=
  ⟨List.append_ne_nil_of_right_ne_nil us Stand.ne_nil⟩

-- Unification meets the append of two lists unfolded when it peels the first word off them.
instance {us vs : List Word} [Stand vs] : Stand (us.append vs) :=
  ⟨List.append_ne_nil_of_right_ne_nil us Stand.ne_nil⟩

theorem Cursor.Says.length {c : Cursor} {ws : List Word} (h : c.Says ws) : c.after.length + 1 = ws.length :=
  List.Forall₂.length_eq h

namespace Reading

variable {α β : Type} {r : Reading α} {f : α → Reading β} {w v : Word} {ws vs us : List Word}

/-- From words to words, with a good answer. -/
def Leads (r : Reading α) (ws vs : List Word) (good : α → Prop) : Prop :=
  ∀ c : Cursor, c.Says ws → ∃ a d, r.run c = .ok (a, d) ∧ d.Says vs ∧ good a

theorem Leads.mono {good good' : α → Prop} (h : r.Leads ws vs good) (hgood : ∀ a, good a → good' a) :
    r.Leads ws vs good' := by
  intro c hc
  obtain ⟨a, d, hrun, hd, ha⟩ := h c hc
  exact ⟨a, d, hrun, hd, hgood a ha⟩

theorem Leads.bind {g : α → Prop} {good : β → Prop} (h : r.Leads ws vs g) (hf : ∀ a, g a → (f a).Leads vs us good) :
    (r >>= f).Leads ws us good := by
  intro c hc
  obtain ⟨a, d, hrun, hd, ha⟩ := h c hc
  obtain ⟨b, e, hrun', he, hb⟩ := hf a ha d hd
  refine ⟨b, e, ?_, he, hb⟩
  rw [run_bind, hrun]
  exact hrun'

theorem leads_pure {a : α} {good : α → Prop} (h : good a) : (pure a : Reading α).Leads ws ws good :=
  fun c hc => ⟨a, c, rfl, hc, h⟩

theorem leads_congr {r' : Reading α} {good : α → Prop} (h : ∀ c, r.run c = r'.run c) :
    r.Leads ws vs good ↔ r'.Leads ws vs good := by
  simp only [Leads, h]

@[simp] theorem leads_traced (rule : Rule) (product : α → Product) (good : α → Prop) :
    (traced rule product r).Leads ws vs good ↔ r.Leads ws vs good :=
  leads_congr (run_traced rule product r)

/-! ### The small readings -/

variable {good : α → Prop} {good' : β → Prop}

theorem leads_note {event : ReadEvent} {f : Unit → Reading β} (h : (f ()).Leads ws vs good') :
    (note event >>= f).Leads ws vs good' :=
  Leads.bind (g := fun _ => True) (fun c hc => ⟨(), c, rfl, hc, trivial⟩) fun _ _ => h

theorem leads_cursor {f : Cursor → Reading β} (h : ∀ c : Cursor, c.after.length + 1 = ws.length → (f c).Leads ws vs good') :
    (cursor >>= f).Leads ws vs good' :=
  Leads.bind (g := fun c : Cursor => c.after.length + 1 = ws.length) (fun c hc => ⟨c, c, rfl, hc, hc.length⟩) h

theorem leads_current {f : Token → Reading β} (h : ∀ t : Token, t.Says w → (f t).Leads (w :: ws) vs good') :
    (current >>= f).Leads (w :: ws) vs good' := by
  refine Leads.bind (g := fun t : Token => t.Says w) (fun c hc => ⟨c.current, c, rfl, hc, ?_⟩) h
  cases hc with
  | cons ht _ => exact ht

theorem leads_current_any {f : Token → Reading β} (h : ∀ t : Token, (f t).Leads ws vs good') :
    (current >>= f).Leads ws vs good' :=
  Leads.bind (g := fun _ => True) (fun c hc => ⟨c.current, c, rfl, hc, trivial⟩) fun t _ => h t

theorem leads_advance_token (hws : ws ≠ []) : advance.Leads (w :: ws) ws fun t => t.Says w := by
  intro c hc
  refine ⟨c.current, c.advance, rfl, ?_⟩
  obtain ⟨before, t, after⟩ := c
  cases hc with
  | cons ht hafter =>
    cases hafter with
    | nil => exact absurd rfl hws
    | cons hnext hafter => exact ⟨List.Forall₂.cons hnext hafter, ht⟩

theorem leads_advance [Stand ws] {f : Token → Reading β} (h : ∀ t : Token, t.Says w → (f t).Leads ws vs good') :
    (advance >>= f).Leads (w :: ws) vs good' :=
  (leads_advance_token Stand.ne_nil).bind h

theorem leads_sees {kind : TokenKind} {f : Bool → Reading β} (h : (f (w.kind == kind)).Leads (w :: ws) vs good') :
    (sees kind >>= f).Leads (w :: ws) vs good' := by
  refine Leads.bind (g := fun b => b = (w.kind == kind)) (fun c hc => ⟨c.current.is kind none, c, rfl, hc, ?_⟩)
    fun b hb => hb ▸ h
  cases hc with
  | cons ht _ => simp [Token.is, ht.kind]

theorem leads_seesNext {kind : TokenKind} {f : Bool → Reading β}
    (h : (f (v.kind == kind)).Leads (w :: v :: ws) vs good') : (seesNext kind >>= f).Leads (w :: v :: ws) vs good' := by
  refine Leads.bind (g := fun b => b = (v.kind == kind))
    (fun c hc => ⟨c.next?.any fun t => t.is kind none, c, rfl, hc, ?_⟩) fun b hb => hb ▸ h
  obtain ⟨before, t, after⟩ := c
  cases hc with
  | cons ht hafter =>
    cases hafter with
    | cons hnext _ => simp [Cursor.next?, Token.is, hnext.kind]

theorem leads_seesNext_any {kind : TokenKind} {f : Bool → Reading β} (h : ∀ b, (f b).Leads ws vs good') :
    (seesNext kind >>= f).Leads ws vs good' :=
  Leads.bind (g := fun _ => True) (fun c hc => ⟨_, c, rfl, hc, trivial⟩) fun b _ => h b

theorem leads_accepts_true {kind : TokenKind} (hw : w.kind = kind) (hws : ws ≠ []) :
    (accepts kind).Leads (w :: ws) ws fun seen => seen = true := by
  refine leads_sees ?_
  rw [hw, beq_self_eq_true, if_pos rfl]
  exact (leads_advance_token hws).bind fun _ _ => leads_pure rfl

theorem leads_accepts_false {kind : TokenKind} (hw : w.kind ≠ kind) :
    (accepts kind).Leads (w :: ws) (w :: ws) fun seen => seen = false := by
  refine leads_sees ?_
  rw [beq_false_of_ne hw, if_neg Bool.false_ne_true]
  exact leads_pure rfl

theorem leads_accepts [Stand ws] {kind : TokenKind} {f : Bool → Reading β} (hw : w.kind = kind)
    (h : (f true).Leads ws vs good') : (accepts kind >>= f).Leads (w :: ws) vs good' :=
  (leads_accepts_true hw Stand.ne_nil).bind fun _ hseen => hseen ▸ h

theorem leads_accepts_not {kind : TokenKind} {f : Bool → Reading β} (hw : w.kind ≠ kind)
    (h : (f false).Leads (w :: ws) vs good') : (accepts kind >>= f).Leads (w :: ws) vs good' :=
  (leads_accepts_false hw).bind fun _ hseen => hseen ▸ h

private theorem leads_seesWord {kind : TokenKind} {value : String} {f : Bool → Reading β} (hkind : kind ≠ .endOfInput)
    (h : (f (w = ⟨kind, value⟩)).Leads (w :: ws) vs good') : (seesWord kind value >>= f).Leads (w :: ws) vs good' := by
  refine Leads.bind (g := fun b => b = decide (w = ⟨kind, value⟩)) ?_ fun b hb => hb ▸ h
  exact leads_current fun t ht => leads_pure (ht.is_some hkind value)

theorem leads_acceptsWord_true {kind : TokenKind} {value : String} (hkind : kind ≠ .endOfInput) (hws : ws ≠ []) :
    (acceptsWord kind value).Leads (⟨kind, value⟩ :: ws) ws fun seen => seen = true := by
  refine leads_seesWord hkind ?_
  rw [decide_eq_true rfl, if_pos rfl]
  exact (leads_advance_token hws).bind fun _ _ => leads_pure rfl

theorem leads_acceptsWord_false {kind : TokenKind} {value : String} (hkind : kind ≠ .endOfInput)
    (hw : w ≠ ⟨kind, value⟩) : (acceptsWord kind value).Leads (w :: ws) (w :: ws) fun seen => seen = false := by
  refine leads_seesWord hkind ?_
  rw [decide_eq_false hw, if_neg Bool.false_ne_true]
  exact leads_pure rfl

theorem leads_acceptsWord [Stand ws] {kind : TokenKind} {value : String} {f : Bool → Reading β}
    (hkind : kind ≠ .endOfInput) (h : (f true).Leads ws vs good') :
    (acceptsWord kind value >>= f).Leads (⟨kind, value⟩ :: ws) vs good' :=
  (leads_acceptsWord_true hkind Stand.ne_nil).bind fun _ hseen => hseen ▸ h

theorem leads_acceptsWord_not {kind : TokenKind} {value : String} {f : Bool → Reading β} (hkind : kind ≠ .endOfInput)
    (hw : w ≠ ⟨kind, value⟩) (h : (f false).Leads (w :: ws) vs good') :
    (acceptsWord kind value >>= f).Leads (w :: ws) vs good' :=
  (leads_acceptsWord_false hkind hw).bind fun _ hseen => hseen ▸ h

/-- A word that may be left out is accepted if it is there. -/
theorem leads_acceptsWord_if {kind : TokenKind} {value : String} {f : Bool → Reading β} (hkind : kind ≠ .endOfInput)
    (b : Bool) (hw : w ≠ ⟨kind, value⟩) (h : (f b).Leads (w :: ws) vs good') :
    (acceptsWord kind value >>= f).Leads ((if b then [⟨kind, value⟩] else []) ++ w :: ws) vs good' := by
  cases b with
  | false => exact leads_acceptsWord_not hkind hw h
  | true => exact leads_acceptsWord hkind h

theorem leads_expect_token {e : Expectation} (hkind : w.kind = e.kind)
    (hvalue : ∀ value, e.value = some value → w.text = value) (hws : ws ≠ []) :
    (expect e).Leads (w :: ws) ws fun t => t.Says w := by
  refine leads_current fun t ht => ?_
  have hinvalid : t.kind ≠ .invalid := by
    rw [ht.kind, hkind]
    cases e <;> decide
  have hend : w.kind ≠ .endOfInput := by
    rw [hkind]
    cases e <;> decide
  have his : t.is e.kind e.value = true := by
    have hv := ht.value hend
    cases he : e.value with
    | none => simp [Token.is, ht.kind, hkind]
    | some value => simp [Token.is, ht.kind, hkind, hv, hvalue value he]
  rw [if_neg hinvalid, if_pos his]
  exact leads_advance_token hws

theorem leads_expect [Stand ws] {e : Expectation} {f : Token → Reading β} (hkind : w.kind = e.kind)
    (hvalue : ∀ value, e.value = some value → w.text = value)
    (h : ∀ t : Token, t.Says w → (f t).Leads ws vs good') : (expect e >>= f).Leads (w :: ws) vs good' :=
  (leads_expect_token hkind hvalue Stand.ne_nil).bind h

/-- Where only the kind of a token is expected. -/
theorem leads_expectAny [Stand ws] {e : Expectation} {f : Token → Reading β} (hkind : w.kind = e.kind)
    (hvalue : e.value = none) (h : ∀ t : Token, t.Says w → (f t).Leads ws vs good') :
    (expect e >>= f).Leads (w :: ws) vs good' :=
  leads_expect hkind (fun value hsome => by simp [hvalue] at hsome) h

theorem leads_behind_not {r : Reading α} {kind : TokenKind} {f : Option α → Reading β} (hw : w.kind ≠ kind)
    (h : (f none).Leads (w :: ws) vs good') : (behind (accepts kind) r >>= f).Leads (w :: ws) vs good' := by
  refine Leads.bind (g := fun a => a = none) (leads_accepts_not hw ?_) fun a ha => ha ▸ h
  rw [if_neg Bool.false_ne_true]
  exact leads_pure rfl

theorem leads_behindWord_not {r : Reading α} {value : String} {good : Option α → Prop} (hw : w ≠ ⟨.keyword, value⟩)
    (h : good none) : (behind (acceptsWord .keyword value) r).Leads (w :: ws) (w :: ws) good := by
  refine leads_acceptsWord_not TokenKind.noConfusion hw ?_
  rw [if_neg Bool.false_ne_true]
  exact leads_pure h

theorem leads_behindWord [Stand ws] {r : Reading α} {value : String} {good : Option α → Prop}
    (h : r.Leads ws vs fun a => good (some a)) :
    (behind (acceptsWord .keyword value) r).Leads (⟨.keyword, value⟩ :: ws) vs good := by
  refine leads_acceptsWord TokenKind.noConfusion ?_
  rw [if_pos rfl]
  exact h.bind fun a ha => leads_pure ha

theorem leads_valueOf {t : Token} (ht : t.Says w) (hw : w.kind ≠ .endOfInput) {f : String → Reading β}
    (h : (f w.text).Leads ws vs good') : (valueOf t >>= f).Leads ws vs good' := by
  refine Leads.bind (g := fun value => value = w.text) ?_ fun value hvalue => hvalue ▸ h
  rw [valueOf, ht.value hw]
  exact leads_pure rfl

/-! ### Repeated readings -/

/-- The rounds of a repeated reading, each of which makes the words ahead fewer. -/
inductive Rounds (round : Reading (Round α)) : List Word → List Word → (List α → Prop) → Prop where
  | stop {ws vs : List Word} {good : List α → Prop}
      (h : round.Leads ws vs fun answer => answer = .stop) (hgood : good []) : Rounds round ws vs good
  | last {ws vs : List Word} {good : List α → Prop}
      (h : round.Leads ws vs fun answer => ∃ a, answer = .last a ∧ good [a]) : Rounds round ws vs good
  | more {ws us : List Word} {good : List α → Prop} (vs : List Word) (fits : α → Prop)
      (h : round.Leads ws vs fun answer => ∃ a, answer = .more a ∧ fits a) (hless : vs.length < ws.length)
      (hrest : ∀ a, fits a → Rounds round vs us fun as => good (a :: as)) : Rounds round ws us good

theorem leads_collectFor {round : Reading (Round α)} {good : List α → Prop} (h : Rounds round ws vs good)
    (rounds : Nat) (hrounds : ws.length < rounds) : (collectFor round rounds).Leads ws vs good := by
  induction h generalizing rounds with
  | stop h hgood =>
    obtain ⟨rounds, rfl⟩ := Nat.exists_eq_succ_of_ne_zero (Nat.ne_zero_of_lt hrounds)
    refine h.bind ?_
    rintro _ rfl
    exact leads_pure hgood
  | last h =>
    obtain ⟨rounds, rfl⟩ := Nat.exists_eq_succ_of_ne_zero (Nat.ne_zero_of_lt hrounds)
    refine h.bind ?_
    rintro _ ⟨a, rfl, ha⟩
    exact leads_pure ha
  | more vs fits h hless _ ih =>
    obtain ⟨rounds, rfl⟩ := Nat.exists_eq_succ_of_ne_zero (Nat.ne_zero_of_lt hrounds)
    refine h.bind ?_
    rintro _ ⟨a, rfl, ha⟩
    exact (ih a ha rounds (by omega)).bind fun as has => leads_pure has

theorem Rounds.mono {round : Reading (Round α)} {good good' : List α → Prop} (h : Rounds round ws vs good)
    (hgood : ∀ as, good as → good' as) : Rounds round ws vs good' := by
  induction h generalizing good' with
  | stop h hnil => exact .stop h (hgood [] hnil)
  | last h => exact .last (h.mono fun _ ⟨a, ha, hsingle⟩ => ⟨a, ha, hgood [a] hsingle⟩)
  | more vs fits h hless _ ih => exact .more vs fits h hless fun a ha => ih a ha fun as has => hgood (a :: as) has

theorem Rounds.leads {round : Reading (Round α)} {good : List α → Prop} (h : Rounds round ws vs good) :
    (collect round).Leads ws vs good :=
  leads_cursor fun c hc => leads_collectFor h _ (by simp only [Cursor.reach]; omega)

/-! ### Lists -/

/-- Items with commas between them are read up to the closing word. -/
theorem leads_commaList {item : Reading β} {closing : TokenKind} (hclosing : closing ≠ .comma) {words : α → List Word}
    {good : α → β → Prop} {n : Nat} {as : List α}
    (hitem : ∀ a ∈ as, ∀ w ws, w.kind = .comma ∨ w.kind = closing → (words a ++ w :: ws).length ≤ n →
      item.Leads (words a ++ w :: ws) (w :: ws) (good a))
    (hstart : ∀ a ∈ as, ∃ w ws, words a = w :: ws ∧ w.kind ≠ closing) (hv : v.kind = closing)
    (hn : (joined (.mark .comma) (as.map words) ++ v :: vs).length ≤ n) :
    (commaList item closing).Leads (joined (.mark .comma) (as.map words) ++ v :: vs) (v :: vs)
      (List.Forall₂ good as) := by
  refine Rounds.leads ?_
  induction as with
  | nil =>
    refine .stop (leads_sees ?_) .nil
    rw [hv, beq_self_eq_true, if_pos rfl]
    exact leads_pure rfl
  | cons a as ih =>
    obtain ⟨w, ws, hw, hne⟩ := hstart a List.mem_cons_self
    -- The item is read whether a comma or the closing word stands behind it.
    have hread : ∀ (u : Word) (us : List Word), u.kind = .comma ∨ u.kind = closing → (words a ++ u :: us).length ≤ n →
        ∀ {fits : Round β → Prop} {us' : List Word},
          (∀ b, good a b → (accepts .comma >>= fun seen => if seen = true then (return .more b) else return .last b :
            Reading (Round β)).Leads (u :: us) us' fits) →
          (do if ← sees closing then return .stop
              else
                let a ← item
                if ← accepts .comma then return .more a else return .last a : Reading (Round β)).Leads
            (words a ++ u :: us) us' fits := by
      intro u us hu hlen fits us' h
      rw [hw, List.cons_append]
      refine leads_sees ?_
      rw [beq_false_of_ne hne, if_neg Bool.false_ne_true, ← List.cons_append, ← hw]
      exact (hitem a List.mem_cons_self u us hu hlen).bind h
    cases as with
    | nil =>
      refine .last (hread v vs (.inr hv) hn fun b hb => ?_)
      refine leads_accepts_not (by rw [hv]; exact hclosing) ?_
      rw [if_neg Bool.false_ne_true]
      exact leads_pure ⟨b, rfl, .cons hb .nil⟩
    | cons a' as =>
      rw [List.map_cons, joined_cons _ (by simp), List.append_assoc, List.cons_append] at hn ⊢
      have hrest := ih (fun b hb => hitem b (List.mem_cons_of_mem a hb)) (fun b hb => hstart b (List.mem_cons_of_mem a hb))
        (by simp only [List.length_append, List.length_cons] at hn ⊢; omega)
      refine .more (joined (.mark .comma) ((a' :: as).map words) ++ v :: vs) (good a)
        (hread _ _ (.inl rfl) hn fun b hb => ?_) ?_ fun b hb => ?_
      · refine leads_accepts rfl ?_
        rw [if_pos rfl]
        exact leads_pure ⟨b, rfl, hb⟩
      · simp only [List.length_append, List.length_cons]
        omega
      · exact hrest.mono fun bs hbs => .cons hb hbs

/-- Items with separators between them are read up to a word that is no separator. -/
theorem leads_separated {first item : Reading β} {mark : Reading Bool} {separator : Word} {words : α → List Word}
    {good : α → β → Prop} {n : Nat} {a : α} {as : List α}
    (hmark : ∀ us, us ≠ [] → mark.Leads (separator :: us) us fun seen => seen = true)
    (hstop : mark.Leads (v :: vs) (v :: vs) fun seen => seen = false)
    (hfirst : ∀ w ws, w = separator ∨ w = v → (words a ++ w :: ws).length ≤ n →
      first.Leads (words a ++ w :: ws) (w :: ws) (good a))
    (hitem : ∀ b ∈ as, ∀ w ws, w = separator ∨ w = v → (words b ++ w :: ws).length ≤ n →
      item.Leads (words b ++ w :: ws) (w :: ws) (good b))
    (hn : (joined separator ((a :: as).map words) ++ v :: vs).length ≤ n) :
    (separated first mark item).Leads (joined separator ((a :: as).map words) ++ v :: vs) (v :: vs)
      (List.Forall₂ good (a :: as)) := by
  rw [List.map_cons, joined_eq_flatMap, List.append_assoc] at hn ⊢
  -- Behind the first item, each separator leads to one more item.
  have hrest : Rounds (do if ← mark then return .more (← item) else return .stop : Reading (Round β))
      (((as.map words).flatMap fun vs => separator :: vs) ++ v :: vs) (v :: vs) (List.Forall₂ good as) := by
    have hlen : ((((as.map words).flatMap fun vs => separator :: vs) ++ v :: vs)).length ≤ n := by
      rw [List.length_append] at hn
      omega
    clear hn hfirst
    induction as with
    | nil =>
      refine .stop (hstop.bind fun seen hseen => ?_) .nil
      rw [hseen, if_neg Bool.false_ne_true]
      exact leads_pure rfl
    | cons b bs ih =>
      rw [List.map_cons, List.flatMap_cons, List.cons_append, List.cons_append, List.append_assoc] at hlen ⊢
      have hnext : ∃ w ws, (w = separator ∨ w = v) ∧
          ((bs.map words).flatMap fun vs => separator :: vs) ++ v :: vs = w :: ws := by
        cases bs with
        | nil => exact ⟨v, vs, .inr rfl, rfl⟩
        | cons b' bs => exact ⟨separator, _, .inl rfl, rfl⟩
      obtain ⟨w, ws, hw, hws⟩ := hnext
      simp only [List.length_cons, List.length_append] at hlen
      have hread := hitem b List.mem_cons_self w ws hw (by
        rw [← hws]
        simp only [List.length_cons, List.length_append]
        omega)
      rw [← hws] at hread
      refine .more _ (good b) (?_ : Leads _ _ (((bs.map words).flatMap fun vs => separator :: vs) ++ v :: vs) _) ?_ fun c hc => ?_
      · refine (hmark _ (by simp)).bind fun seen hseen => ?_
        rw [hseen, if_pos rfl]
        exact hread.bind fun c hc => leads_pure ⟨c, rfl, hc⟩
      · simp only [List.length_cons, List.length_append]
        omega
      · exact (ih (fun b' hb' => hitem b' (List.mem_cons_of_mem b hb'))
          (by simp only [List.length_cons, List.length_append]; omega)).mono fun cs hcs => .cons hc hcs
  have hnext : ∃ w ws, (w = separator ∨ w = v) ∧
      ((as.map words).flatMap fun vs => separator :: vs) ++ v :: vs = w :: ws := by
    cases as with
    | nil => exact ⟨v, vs, .inr rfl, rfl⟩
    | cons b bs => exact ⟨separator, _, .inl rfl, rfl⟩
  obtain ⟨w, ws, hw, hws⟩ := hnext
  rw [hws] at hn hrest ⊢
  exact (hfirst w ws hw hn).bind fun b hb => hrest.leads.bind fun bs hbs => leads_pure (.cons hb hbs)

/-- The entries of a list are read up to its closing bracket. -/
theorem leads_entries {element : Reading Node} {tail : Token → Reading Node} {words : α → List Word}
    {good : α → Node → Prop} {tailWords : β → List Word} {tailGood : β → Node → Prop} {n : Nat} {as : List α}
    {last : Option β}
    (helement : ∀ a ∈ as, ∀ w ws, w.kind = .comma ∨ w.kind = .rightBracket → (words a ++ w :: ws).length ≤ n →
      element.Leads (words a ++ w :: ws) (w :: ws) (good a))
    (hstart : ∀ a ∈ as, ∃ w ws, words a = w :: ws ∧ w.kind ≠ .rightBracket ∧ w.kind ≠ .dotDot)
    (htail : ∀ b ∈ last, ∀ t w ws, w.kind = .rightBracket → (tailWords b ++ w :: ws).length ≤ n →
      (tail t).Leads (tailWords b ++ w :: ws) (w :: ws) (tailGood b))
    (hv : v.kind = .rightBracket) (hn : (entryWords (as.map words) (last.map tailWords) ++ v :: vs).length ≤ n) :
    (Grammar.entries element tail).Leads (entryWords (as.map words) (last.map tailWords) ++ v :: vs) (v :: vs)
      fun es => List.Forall₂ good as (Grammar.Entry.elements es) ∧
        Option.Rel tailGood last (Grammar.Entry.tail? es) := by
  refine Rounds.leads ?_
  induction as with
  | nil =>
    cases last with
    | none =>
      refine .stop (leads_sees ?_) ⟨.nil, .none⟩
      rw [hv, beq_self_eq_true, if_pos rfl]
      exact leads_pure rfl
    | some b =>
      simp only [Option.map_some, entryWords, List.map_nil, List.nil_append, joined, List.cons_append] at hn ⊢
      refine .last (leads_sees ?_)
      rw [beq_false_of_ne (by decide : (Word.mark .dotDot).kind ≠ .rightBracket), if_neg Bool.false_ne_true]
      refine leads_current fun t _ => leads_accepts rfl ?_
      rw [if_pos rfl]
      refine (htail b rfl t v vs hv ?_).bind fun node hnode => leads_accepts_not (by rw [hv]; decide) ?_
      · simp only [List.length_cons] at hn
        omega
      · exact leads_pure ⟨_, rfl, .nil, .some hnode⟩
  | cons a as ih =>
    obtain ⟨w, ws, hw, hbracket, hdots⟩ := hstart a List.mem_cons_self
    -- An element is told from the closing bracket and from a tail by its first word.
    have hround : ∀ {vs' : List Word} {fits : Round Grammar.Entry → Prop} {u : Word} {us : List Word},
        u.kind = .comma ∨ u.kind = .rightBracket → (words a ++ u :: us).length ≤ n →
          (∀ node, good a node → (do
              if ← accepts .comma then return .more (.element node) else return .last (.element node) :
              Reading (Round Grammar.Entry)).Leads (u :: us) vs' fits) →
            (do
              if ← sees .rightBracket then return .stop
              else
                let t ← current
                if ← accepts .dotDot then
                  let node ← tail t
                  let _ ← accepts .comma
                  return .last (.tail node)
                else
                  let node ← element
                  if ← accepts .comma then return .more (.element node) else return .last (.element node) :
              Reading (Round Grammar.Entry)).Leads (words a ++ u :: us) vs' fits := by
      intro vs' fits u us hu hlen h
      rw [hw, List.cons_append]
      refine leads_sees ?_
      rw [beq_false_of_ne hbracket, if_neg Bool.false_ne_true]
      refine leads_current fun t _ => leads_accepts_not hdots ?_
      rw [if_neg Bool.false_ne_true, ← List.cons_append, ← hw]
      exact (helement a List.mem_cons_self u us hu hlen).bind h
    by_cases hlast : as = [] ∧ last = none
    · obtain ⟨rfl, rfl⟩ := hlast
      refine .last (hround (.inr hv) hn fun node hnode => leads_accepts_not (by rw [hv]; decide) ?_)
      rw [if_neg Bool.false_ne_true]
      exact leads_pure ⟨_, rfl, .cons hnode .nil, .none⟩
    · have hwords : entryWords ((a :: as).map words) (last.map tailWords) =
          words a ++ .mark .comma :: entryWords (as.map words) (last.map tailWords) := by
        cases last with
        | none =>
          refine joined_cons _ fun hnil => hlast ⟨?_, rfl⟩
          simpa using hnil
        | some b => exact joined_cons _ (by simp)
      rw [hwords, List.append_assoc, List.cons_append] at hn ⊢
      have hrest := ih (fun b hb => helement b (List.mem_cons_of_mem a hb))
        (fun b hb => hstart b (List.mem_cons_of_mem a hb))
        (by simp only [List.length_append, List.length_cons] at hn ⊢; omega)
      refine .more (entryWords (as.map words) (last.map tailWords) ++ v :: vs) (fun entry => ∃ node, entry = .element node ∧ good a node)
        (hround (.inl rfl) hn fun node hnode => leads_accepts rfl ?_) ?_ ?_
      · rw [if_pos rfl]
        exact leads_pure ⟨_, rfl, node, rfl, hnode⟩
      · simp only [List.length_append, List.length_cons]
        omega
      · rintro _ ⟨node, rfl, hnode⟩
        exact hrest.mono fun es hes => ⟨.cons hnode hes.1, hes.2⟩

end Reading

end ScopeLint
