import ScopeLint.Proofs.Grammar.ExpressionReprinting
import ScopeLint.Proofs.Grammar.ModuleReprinting
import ScopeLint.Proofs.Token.DottedWords

/-!
# Chains of fields

A name and labels behind it, with a dot before each label and no spaces, are read as the fields of fields of the name,
unless two neighbouring labels are numbers: the dot between those makes a fraction of them, and no fraction is a label
(`Module.ofTokens_chainText`).

* `Reading.Comes`: to what a reading comes from some words, to an answer or to a fault.  Each rule on the way to a chain
  is stated once with it, for the chains that are read and for those that are not.
-/

namespace ScopeLint

namespace Reading

variable {α β : Type} {r : Reading α} {f : α → Reading β} {w : Word} {ws vs mid : List Word}
  {good other : List Word → α → Prop} {good' : List Word → β → Prop} {bad worse : FaultCause → Word → Prop}

/-- From words to a good answer with other words ahead, or to a bad fault at a token that says a word. -/
def Comes (r : Reading α) (ws : List Word) (good : List Word → α → Prop) (bad : FaultCause → Word → Prop) : Prop :=
  ∀ c : Cursor, c.Says ws → (∃ a d us, r.run c = .ok (a, d) ∧ d.Says us ∧ good us a) ∨
    ∃ cause t index w, r.run c = .error (.fault ⟨cause, t, index⟩) ∧ t.Says w ∧ bad cause w

/-- Behind a fault nothing is read. -/
theorem Comes.bind (h : r.Comes ws good bad) (hf : ∀ us a, good us a → (f a).Comes us good' bad) :
    (r >>= f).Comes ws good' bad := by
  intro c hc
  rcases h c hc with ⟨a, d, us, hrun, hd, ha⟩ | ⟨cause, t, index, w, hrun, ht, hbad⟩
  · rw [run_bind, hrun]
    exact hf us a ha d hd
  · refine .inr ⟨cause, t, index, w, ?_, ht, hbad⟩
    rw [run_bind, hrun]
    rfl

theorem Comes.mono (h : r.Comes ws good bad) (hgood : ∀ us a, good us a → other us a)
    (hbad : ∀ cause w, bad cause w → worse cause w) : r.Comes ws other worse := by
  intro c hc
  rcases h c hc with ⟨a, d, us, hrun, hd, ha⟩ | ⟨cause, t, index, w, hrun, ht, hw⟩
  · exact .inl ⟨a, d, us, hrun, hd, hgood us a ha⟩
  · exact .inr ⟨cause, t, index, w, hrun, ht, hbad cause w hw⟩

theorem Leads.comes {fits : α → Prop} (h : r.Leads ws vs fits) (hgood : ∀ a, fits a → good vs a) :
    r.Comes ws good bad := by
  intro c hc
  obtain ⟨a, d, hrun, hd, ha⟩ := h c hc
  exact .inl ⟨a, d, vs, hrun, hd, hgood a ha⟩

theorem Leads.bind_comes {fits : α → Prop} (h : r.Leads ws vs fits) (hf : ∀ a, fits a → (f a).Comes vs good' bad) :
    (r >>= f).Comes ws good' bad := by
  have hcomes : r.Comes ws (fun us a => us = vs ∧ fits a) bad := h.comes fun a ha => ⟨rfl, ha⟩
  refine hcomes.bind ?_
  rintro _ a ⟨rfl, ha⟩
  exact hf a ha

theorem comes_pure {a : α} (h : good ws a) : (pure a : Reading α).Comes ws good bad :=
  fun c hc => .inl ⟨a, c, ws, rfl, hc, h⟩

theorem comes_fail {cause : FaultCause} (h : bad cause w) : (fail cause : Reading α).Comes (w :: ws) good bad := by
  intro c hc
  cases hc with
  | cons ht _ => exact .inr ⟨cause, c.current, c.index, w, rfl, ht, h⟩

@[simp] theorem comes_traced (rule : Rule) (product : α → Product) :
    (traced rule product r).Comes ws good bad ↔ r.Comes ws good bad := by
  simp only [Comes, run_traced]

theorem comes_cursor {f : Cursor → Reading β}
    (h : ∀ c : Cursor, c.after.length + 1 = ws.length → (f c).Comes ws good' bad) :
    (cursor >>= f).Comes ws good' bad :=
  fun c hc => h c hc.length c hc

/-- One item, and what a repeated reading reads behind it. -/
theorem comes_collect {round : Reading (Round α)} {fits : α → Prop} {all : List α → Prop}
    (h : round.Comes ws (fun us answer => us = mid ∧ ∃ a, answer = .more a ∧ fits a) bad)
    (hless : mid.length < ws.length) (hrest : ∀ a, fits a → Rounds round mid vs fun as => all (a :: as)) :
    (collect round).Comes ws (fun us as => us = vs ∧ all as) bad := by
  refine comes_cursor fun c hlength => Comes.bind h ?_
  rintro us _ ⟨rfl, a, rfl, ha⟩
  have hrounds : us.length < c.after.length + 1 := by omega
  exact (leads_collectFor (hrest a ha) _ hrounds).bind_comes fun as has => comes_pure ⟨rfl, has⟩

theorem leads_current_self : current.Leads (w :: ws) (w :: ws) fun t => t.Says w := by
  intro c hc
  refine ⟨c.current, c, rfl, hc, ?_⟩
  cases hc with
  | cons ht _ => exact ht

theorem leads_sees_self (kind : TokenKind) :
    (sees kind).Leads (w :: ws) (w :: ws) fun seen => seen = (w.kind == kind) :=
  leads_current_self.bind fun t ht => leads_pure (by simp [Token.is, ht.kind])

end Reading

namespace Grammar

open Reading

variable {w v : Word} {ws vs : List Word} {bad : FaultCause → Word → Prop} {name : String} {good : Node → Prop}

/-! ### Around the body of a function -/

/-- The words before the body of a function without parameters. -/
def headWords : List Word :=
  [⟨.keyword, "fn"⟩, ⟨.name, "f"⟩, .mark .leftParen, .mark .rightParen, .mark .leftBrace]

private theorem leads_noParameters : (commaList parameter .rightParen).Leads (.mark .rightParen :: ws)
    (.mark .rightParen :: ws) fun parameters => parameters = [] := by
  refine Rounds.leads (.stop (leads_sees ?_) rfl)
  rw [show ((Word.mark .rightParen).kind == TokenKind.rightParen) = true from rfl, if_pos rfl]
  exact leads_pure rfl

private theorem leads_noAscription [Stand ws] {stops : List TokenKind} :
    (ascriptionBehind .rightArrow stops).Leads (.mark .leftBrace :: ws) (.mark .leftBrace :: ws)
      fun text => text = none := by
  refine leads_accepts_not TokenKind.noConfusion ?_
  rw [if_neg Bool.false_ne_true]
  exact leads_pure rfl

/-- A mark that is expected is there. -/
private theorem leads_mark [Stand ws] {e : Expectation} (hkind : w.kind = e.kind) (hvalue : e.value = none) :
    (expect e).Leads (w :: ws) ws fun t => t.Says w :=
  leads_expect_token hkind (fun value hsome => by simp [hvalue] at hsome) Stand.ne_nil

/-- A statement that starts with a name is an expression. -/
private theorem comes_statement {expression : Reading Node}
    (h : expression.Comes (⟨.name, name⟩ :: ws) (fun us e => us = vs ∧ good e) bad) :
    (statement expression).Comes (⟨.name, name⟩ :: ws)
      (fun us s => us = vs ∧ ∃ anchor e, s = .expression anchor e ∧ good e) bad := by
  refine leads_current_self.bind_comes fun t ht => ?_
  rw [ht.is_some TokenKind.noConfusion, ht.is_some TokenKind.noConfusion, decide_eq_false (by simp),
    decide_eq_false (by simp), if_neg Bool.false_ne_true, if_neg Bool.false_ne_true]
  exact h.bind fun us e he => comes_pure ⟨he.1, _, e, rfl, he.2⟩

/-- What one round of reading a block does where neither the closing brace nor the end of the input stands. -/
private theorem comes_blockRound {item : Reading Node}
    (h : item.Comes (⟨.name, name⟩ :: ws) (fun us node => us = vs ∧ good node) bad) :
    (do
      if ← sees .rightBrace then return .stop
      else if ← sees .endOfInput then fail .blockUnfinished
      else return .more (← item) : Reading (Round Node)).Comes (⟨.name, name⟩ :: ws)
        (fun us answer => us = vs ∧ ∃ node, answer = .more node ∧ good node) bad := by
  refine (leads_sees_self _).bind_comes fun seen hseen => ?_
  rw [hseen, beq_false_of_ne (by simp), if_neg Bool.false_ne_true]
  refine (leads_sees_self _).bind_comes fun seen hseen => ?_
  rw [hseen, beq_false_of_ne (by simp), if_neg Bool.false_ne_true]
  exact h.bind fun us node hnode => comes_pure ⟨hnode.1, node, rfl, hnode.2⟩

/-- A block with one expression that starts with a name. -/
private theorem comes_block
    (h : expression.Comes (⟨.name, name⟩ :: ws) (fun us e => us = .mark .rightBrace :: v :: vs ∧ good e) bad)
    (hless : vs.length + 1 < ws.length) :
    (block expression).Comes (.mark .leftBrace :: ⟨.name, name⟩ :: ws)
      (fun us statements => us = v :: vs ∧ ∃ anchor e, statements = [.expression anchor e] ∧ good e) bad := by
  have hbody : (upToBrace .blockUnfinished (statement expression)).Comes (⟨.name, name⟩ :: ws)
      (fun us statements => us = .mark .rightBrace :: v :: vs ∧
        ∃ anchor e, statements = [.expression anchor e] ∧ good e) bad := by
    refine comes_collect (comes_blockRound (comes_statement h)) (by simpa using hless) ?_
    rintro _ ⟨anchor, e, rfl, he⟩
    refine .stop (leads_sees ?_) ⟨anchor, e, rfl, he⟩
    rw [show ((Word.mark .rightBrace).kind == TokenKind.rightBrace) = true from rfl, if_pos rfl]
    exact leads_pure rfl
  refine (comes_traced _ _).mpr ((leads_mark rfl rfl).bind_comes fun _ _ => hbody.bind ?_)
  rintro _ statements ⟨rfl, hstatements⟩
  exact (leads_mark rfl rfl).bind_comes fun _ _ => comes_pure ⟨rfl, hstatements⟩

/-- A function without parameters with one expression in its body. -/
private theorem comes_function
    (h : expression.Comes (⟨.name, name⟩ :: ws) (fun us e => us = .mark .rightBrace :: v :: vs ∧ good e) bad)
    (hless : vs.length + 1 < ws.length) :
    function.Comes (headWords ++ ⟨.name, name⟩ :: ws) (fun us node => us = v :: vs ∧ ∃ anchor anchor' e,
      node = .function anchor "f" .priv [] [.expression anchor' e] none ∧ good e) bad := by
  refine (comes_traced _ _).mpr (leads_current_self.bind_comes fun t _ => ?_)
  refine (leads_acceptsWord_false TokenKind.noConfusion (by decide)).bind_comes ?_
  rintro _ rfl
  refine Leads.bind_comes (leads_expect_token rfl (fun _ hv => Option.some.inj hv) Stand.ne_nil) fun _ _ => ?_
  refine (leads_mark rfl rfl).bind_comes fun u hu => (leads_mark rfl rfl).bind_comes fun _ _ => ?_
  refine leads_noParameters.bind_comes ?_
  rintro _ rfl
  refine (leads_mark rfl rfl).bind_comes fun _ _ => leads_noAscription.bind_comes ?_
  rintro _ rfl
  refine (comes_block h hless).bind ?_
  rintro _ _ ⟨rfl, anchor, e, rfl, he⟩
  refine comes_pure ⟨rfl, t.anchor, anchor, e, ?_, he⟩
  rw [hu.text, if_neg Bool.false_ne_true]

/-- A part of a module that starts with the word for functions is a function. -/
private theorem comes_definition
    (h : function.Comes (⟨.keyword, "fn"⟩ :: ws) (fun us node => us = vs ∧ good node) bad) :
    definition.Comes (⟨.keyword, "fn"⟩ :: ws)
      (fun us answer => us = vs ∧ ∃ a, answer = .more a ∧ ∃ node, a = .function node ∧ good node) bad := by
  refine leads_current_self.bind_comes fun t ht => ?_
  rw [if_neg (by rw [ht.kind]; exact TokenKind.noConfusion), ht.is_some TokenKind.noConfusion,
    if_neg (by simp), ht.is_some TokenKind.noConfusion, ht.is_some TokenKind.noConfusion, if_pos (by simp)]
  exact h.bind fun us node hnode => comes_pure ⟨hnode.1, _, rfl, node, rfl, hnode.2⟩

/-- A module with one function, which has no parameters and one expression in its body. -/
theorem comes_wholeModule
    (h : expression.Comes (⟨.name, name⟩ :: ws)
      (fun us e => us = [.mark .rightBrace, ⟨.endOfInput, ""⟩] ∧ good e) bad) (hws : 2 ≤ ws.length) :
    wholeModule.Comes (headWords ++ ⟨.name, name⟩ :: ws)
      (fun us m => us = [⟨.endOfInput, ""⟩] ∧ ∃ anchor anchor' anchor'' e,
        m = ⟨anchor, [.function anchor' "f" .priv [] [.expression anchor'' e] none], []⟩ ∧ good e) bad := by
  have hdefinitions : (collect definition).Comes (headWords ++ ⟨.name, name⟩ :: ws)
      (fun us as => us = [⟨.endOfInput, ""⟩] ∧ ∃ anchor anchor' e,
        as = [.function (.function anchor "f" .priv [] [.expression anchor' e] none)] ∧ good e) bad := by
    refine comes_collect (comes_definition (comes_function h hws)) (by simp [headWords]) ?_
    rintro _ ⟨_, rfl, anchor, anchor', e, rfl, he⟩
    refine .stop (leads_current fun t ht => ?_) ⟨anchor, anchor', e, rfl, he⟩
    rw [if_pos ht.kind]
    exact leads_pure rfl
  refine (comes_traced _ _).mpr (leads_current_self.bind_comes fun t _ => hdefinitions.bind ?_)
  rintro _ _ ⟨rfl, anchor, anchor', e, rfl, he⟩
  exact Leads.comes (leads_note (leads_pure ⟨_, anchor, anchor', e, rfl, he⟩)) fun _ hm => ⟨rfl, hm⟩

/-! ### Chains -/

/-- The words of labels with a dot before each. -/
def dottedWords (labels : List String) : List Word :=
  labels.flatMap fun label => [.mark .dot, fieldWord label]

private theorem text_fieldWord (label : String) : (fieldWord label).text = label := by
  unfold fieldWord
  split <;> rfl

/-- The word is of a kind that a label may have. -/
def IsFieldWord (w : Word) : Prop :=
  w.kind = .name ∨ w.kind = .upName ∨ w.kind = .integer

-- What is known of the labels where the fields end: nothing can be where a fault comes up for certain.
variable {inner : Reading Node} {apart : Prop}

/-- A word where a label has to stand is the label, or it is of none of the kinds that a label may have. -/
private theorem comes_fieldLabel (hws : IsFieldWord w → ws ≠ []) :
    fieldLabel.Comes (w :: ws) (fun us found => IsFieldWord w ∧ us = ws ∧ found = w.text)
      fun cause u => ¬ IsFieldWord w ∧ cause = .noFieldLabel ∧ u = w := by
  refine leads_current_self.bind_comes fun t ht => ?_
  by_cases h : IsFieldWord w
  · have hkinds : w.kind = .name ∨ w.kind = .upName ∨ w.kind = .integer := h
    rw [ht.kind]
    rcases hkinds with hkind | hkind | hkind <;> rw [hkind] <;>
      exact (leads_advance_token (hws h)).bind_comes fun _ _ => comes_pure ⟨h, rfl, ht.text⟩
  · split
    · next hkind => exact absurd (.inl (ht.kind.symm.trans hkind)) h
    · next hkind => exact absurd (.inr (.inl (ht.kind.symm.trans hkind))) h
    · next hkind => exact absurd (.inr (.inr (ht.kind.symm.trans hkind))) h
    · exact comes_fail ⟨h, rfl, rfl⟩

/-- A dot and a label are one more field, and there is a fault at any other word behind the dot. -/
private theorem comes_suffix (hws : IsFieldWord w → ws ≠ []) :
    (suffix inner).Comes (.mark .dot :: w :: ws)
      (fun us answer => IsFieldWord w ∧ us = ws ∧ ∃ anchor, answer = .more (.field anchor w.text))
      fun cause u => ¬ IsFieldWord w ∧ cause = .noFieldLabel ∧ u = w := by
  have hdot : (accepts .dot).Leads (.mark .dot :: w :: ws) (w :: ws) fun seen => seen = true :=
    leads_accepts_true rfl Stand.ne_nil
  refine leads_current_self.bind_comes fun t _ => (leads_accepts_false TokenKind.noConfusion).bind_comes ?_
  rintro _ rfl
  rw [if_neg Bool.false_ne_true]
  refine hdot.bind_comes ?_
  rintro _ rfl
  rw [if_pos rfl]
  refine (comes_fieldLabel hws).bind ?_
  rintro _ _ ⟨h, rfl, rfl⟩
  exact comes_pure ⟨h, rfl, t.anchor, rfl⟩

/-- No field stands before a closing brace. -/
private theorem leads_suffix_stop (hv : v.kind = .rightBrace) :
    (suffix inner).Leads (v :: vs) (v :: vs) fun answer => answer = .stop := by
  refine leads_current fun t _ => leads_accepts_not (by rw [hv]; exact TokenKind.noConfusion) ?_
  rw [if_neg Bool.false_ne_true]
  refine leads_accepts_not (by rw [hv]; exact TokenKind.noConfusion) ?_
  rw [if_neg Bool.false_ne_true]
  exact leads_pure rfl

/-- Fields are read as long as there are dots with labels. -/
private theorem comes_suffixesFor {labels : List String} (h : ∀ label ∈ labels, IsFieldWord (fieldWord label))
    (hrest : (suffix inner).Comes (w :: ws) (fun us answer => us = vs ∧ apart ∧ answer = .stop) bad) {rounds : Nat}
    (hrounds : labels.length < rounds) :
    (collectFor (suffix inner) rounds).Comes (dottedWords labels ++ w :: ws)
      (fun us suffixes => us = vs ∧ apart ∧
        List.Forall₂ (fun label s => ∃ anchor, s = Suffix.field anchor label) labels suffixes) bad := by
  induction labels generalizing rounds with
  | nil =>
    obtain ⟨rounds, rfl⟩ := Nat.exists_eq_succ_of_ne_zero (Nat.ne_zero_of_lt hrounds)
    refine Comes.bind hrest ?_
    rintro _ _ ⟨rfl, hapart, rfl⟩
    exact comes_pure ⟨rfl, hapart, .nil⟩
  | cons label labels ih =>
    obtain ⟨hlabel, hlabels⟩ := List.forall_mem_cons.mp h
    obtain ⟨rounds, rfl⟩ := Nat.exists_eq_succ_of_ne_zero (Nat.ne_zero_of_lt hrounds)
    have hsuffix : (suffix inner).Comes (dottedWords (label :: labels) ++ w :: ws)
        (fun us answer => us = dottedWords labels ++ w :: ws ∧ ∃ anchor, answer = .more (.field anchor label)) bad :=
      (comes_suffix fun _ => Stand.ne_nil).mono (fun _ _ hgood => text_fieldWord label ▸ hgood.2)
        fun _ _ hbad => absurd hlabel hbad.1
    refine hsuffix.bind ?_
    rintro _ _ ⟨rfl, anchor, rfl⟩
    refine (ih hlabels (Nat.lt_of_succ_lt_succ hrounds)).bind ?_
    rintro _ suffixes ⟨rfl, hapart, hsuffixes⟩
    exact comes_pure ⟨rfl, hapart, .cons ⟨anchor, rfl⟩ hsuffixes⟩

private theorem comes_suffixes {labels : List String} (h : ∀ label ∈ labels, IsFieldWord (fieldWord label))
    (hrest : (suffix inner).Comes (w :: ws) (fun us answer => us = vs ∧ apart ∧ answer = .stop) bad) :
    (collect (suffix inner)).Comes (dottedWords labels ++ w :: ws)
      (fun us suffixes => us = vs ∧ apart ∧
        List.Forall₂ (fun label s => ∃ anchor, s = Suffix.field anchor label) labels suffixes) bad := by
  refine comes_cursor fun c hlength => comes_suffixesFor h hrest ?_
  have hdotted : labels.length ≤ (dottedWords labels).length := by
    simp [dottedWords, Nat.le_mul_of_pos_right]
  simp only [Cursor.reach, List.length_append] at hlength ⊢
  omega

private theorem leads_signs {name : String} :
    (collect sign).Leads (⟨.name, name⟩ :: ws) (⟨.name, name⟩ :: ws) fun signs => signs = [] := by
  refine Rounds.leads (.stop (leads_current fun t _ => ?_) rfl)
  refine leads_acceptsWord_not TokenKind.noConfusion (by simp) ?_
  rw [if_neg Bool.false_ne_true]
  refine leads_accepts_not TokenKind.noConfusion ?_
  rw [if_neg Bool.false_ne_true]
  exact leads_pure rfl

private theorem leads_variable {name : String} (hws : ws ≠ []) :
    (primary inner).Leads (⟨.name, name⟩ :: ws) ws fun node => ∃ anchor, node = .var anchor name := by
  refine (leads_traced _ _ _).mpr (leads_current fun t ht => ?_)
  rw [ht.kind]
  exact (leads_advance_token hws).bind fun _ _ => leads_pure ⟨t.anchor, by rw [ht.text]⟩

/-- The fields of fields of a variable, the first label innermost. -/
def fieldChain (name : String) (labels : List String) : Node :=
  labels.foldl (fun container label => .field .nowhere container label) (.var .nowhere name)

private theorem unplaced_fields {labels : List String} {suffixes : List Suffix}
    (h : List.Forall₂ (fun label s => ∃ anchor, s = Suffix.field anchor label) labels suffixes) {p q : Node}
    (hp : p.unplaced = q) :
    (suffixes.foldl Suffix.applyTo p).unplaced =
      labels.foldl (fun container label => .field .nowhere container label) q := by
  induction h generalizing p q with
  | nil => exact hp
  | cons hs _ ih =>
    obtain ⟨anchor, rfl⟩ := hs
    refine ih ?_
    rw [Suffix.applyTo, Node.unplaced, hp]

/-- A name with labels behind it is read as an expression up to where no more fields are, if that is where a block
ends. -/
private theorem comes_expressionWithin {labels : List String} (h : ∀ label ∈ labels, IsFieldWord (fieldWord label))
    (hrest : ∀ inner, (suffix inner).Comes (w :: ws) (fun us answer => us = v :: vs ∧ apart ∧ answer = .stop) bad)
    (hv : v.kind = .rightBrace) (depth : Nat) (least : Int) :
    (expressionWithin (depth + 1) least).Comes (⟨.name, name⟩ :: (dottedWords labels ++ w :: ws))
      (fun us e => us = v :: vs ∧ apart ∧ e.unplaced = fieldChain name labels) bad := by
  have hfields : (operand (expressionWithin depth loosest)).Comes
      (⟨.name, name⟩ :: (dottedWords labels ++ w :: ws))
      (fun us e => us = v :: vs ∧ apart ∧ e.unplaced = fieldChain name labels) bad := by
    refine leads_signs.bind_comes ?_
    rintro _ rfl
    refine (leads_variable Stand.ne_nil).bind_comes ?_
    rintro _ ⟨anchor, rfl⟩
    refine (comes_suffixes h (hrest _)).bind ?_
    rintro _ suffixes ⟨rfl, hapart, hsuffixes⟩
    exact comes_pure ⟨rfl, hapart, unplaced_fields hsuffixes (by rw [Node.unplaced])⟩
  have hstop : (operation (expressionWithin depth) least).Leads (v :: vs) (v :: vs) fun answer => answer = .stop := by
    refine leads_operation_stop fun tightness htightness => ?_
    rw [tightnessOf, hv, if_neg TokenKind.noConfusion] at htightness
    cases htightness
  have hnone : (collect (operation (expressionWithin depth) least)).Leads (v :: vs) (v :: vs)
      fun operations => operations = [] := Rounds.leads (.stop hstop rfl)
  refine hfields.bind ?_
  rintro _ first ⟨rfl, hfirst⟩
  refine hnone.bind_comes ?_
  rintro _ rfl
  exact comes_pure ⟨rfl, hfirst⟩

theorem comes_expression {labels : List String} (h : ∀ label ∈ labels, IsFieldWord (fieldWord label))
    (hrest : ∀ inner, (suffix inner).Comes (w :: ws) (fun us answer => us = v :: vs ∧ apart ∧ answer = .stop) bad)
    (hv : v.kind = .rightBrace) :
    expression.Comes (⟨.name, name⟩ :: (dottedWords labels ++ w :: ws))
      (fun us e => us = v :: vs ∧ apart ∧ e.unplaced = fieldChain name labels) bad :=
  comes_cursor fun _ _ => comes_expressionWithin h hrest hv _ loosest

end Grammar

open Reading Grammar

/-! ### Texts -/

/-- The text of a function that has a name with labels behind it as its body. -/
def chainText (name : List Char) (labels : List (List Char)) : List Char :=
  "fn f() \x7b ".toList ++ (name ++ (dotted labels ++ " \x7d".toList))

/-- What the text is read as, without its places. -/
def chainModule (name : List Char) (labels : List (List Char)) : Module :=
  ⟨.nowhere, [.function .nowhere "f" .priv []
    [.expression .nowhere (fieldChain (String.ofList name) (labels.map String.ofList))] none], []⟩

private theorem words_head (rest : List Char) :
    textWords ("fn f() \x7b ".toList ++ rest) = headWords ++ textWords rest := by
  have hword : IsName .keyword 'f' ['n'] := ⟨by decide, List.all_eq_true.mp (by decide), by decide⟩
  have hname : IsName .name 'f' [] := ⟨by decide, List.forall_mem_nil _, by decide⟩
  have hend : ∀ {b : Char} {behind : List Char}, isNamePart b = false →
      ∀ d ∈ (b :: behind).head?, isNamePart d = false := fun hb d hd => Option.some.inj hd ▸ hb
  have hopen : textWords ('(' :: ')' :: ' ' :: '\x7b' :: ' ' :: rest) =
      .mark .leftParen :: textWords (')' :: ' ' :: '\x7b' :: ' ' :: rest) :=
    textWords_alone (by decide) (by decide) rfl
  have hclose : textWords (')' :: ' ' :: '\x7b' :: ' ' :: rest) =
      .mark .rightParen :: textWords (' ' :: '\x7b' :: ' ' :: rest) :=
    textWords_alone (by decide) (by decide) rfl
  have hbrace : textWords ('\x7b' :: ' ' :: rest) = .mark .leftBrace :: textWords (' ' :: rest) :=
    textWords_alone (by decide) (by decide) rfl
  calc
    textWords ("fn f() \x7b ".toList ++ rest)
    _ = textWords ('f' :: (['n'] ++ ' ' :: 'f' :: ([] ++ '(' :: ')' :: ' ' :: '\x7b' :: ' ' :: rest))) := rfl
    _ = headWords ++ textWords rest := by
      rw [words_name hword (hend (by decide)), textWords_blank (by decide), words_name hname (hend (by decide)), hopen,
        hclose, textWords_blank (by decide), hbrace, textWords_blank (by decide)]
      rfl

private theorem words_tail : textWords " \x7d".toList = [.mark .rightBrace, ⟨.endOfInput, ""⟩] := by
  decide +kernel

private theorem words_chainText {name : List Char} (hname : IsWord .name name) (labels : List (List Char)) :
    textWords (chainText name labels) =
      headWords ++ ⟨.name, String.ofList name⟩ :: textWords (dotted labels ++ " \x7d".toList) := by
  obtain ⟨c, tail, rfl, hparts⟩ := hname.isName (.inl rfl)
  have hhead := head_dotted labels (b := ' ') rfl ['\x7d']
  exact (words_head _).trans (congrArg (headWords ++ ·) (words_name hparts hhead))

/-- A text is read as its words are. -/
private theorem exists_run_wholeModule (text : List Char) :
    ∃ c : Cursor, c.Says (textWords text) ∧
      Module.ofTokens (tokenize text) = (wholeModule.run c).map Prod.fst := by
  have hsays := forall₂_says_word (finished_tokenize text)
  have hne : tokenize text ≠ [] := by simp [tokenize, Scanned.tokens]
  obtain ⟨t, ts, htokens⟩ := List.exists_cons_of_ne_nil hne
  refine ⟨⟨[], t, ts⟩, ?_, by rw [htokens, Module.ofTokens_cons]⟩
  rwa [Cursor.Says, ← htokens]

private theorem isFieldWord_of_isLabel {labels : List (List Char)} (h : ∀ l ∈ labels, IsLabel l) :
    ∀ label ∈ labels.map String.ofList, IsFieldWord (fieldWord label) := by
  intro label hlabel
  obtain ⟨l, hl, rfl⟩ := List.mem_map.mp hlabel
  exact (h l hl).kind_fieldWord

/-- A name with labels behind it is read as an expression before a closing brace, unless two neighbouring labels are
numbers. -/
private theorem comes_chain (name : String) {labels : List (List Char)} (hlabels : ∀ l ∈ labels, IsLabel l) :
    2 ≤ (textWords (dotted labels ++ " \x7d".toList)).length ∧
      expression.Comes (⟨.name, name⟩ :: textWords (dotted labels ++ " \x7d".toList))
        (fun us e => us = [.mark .rightBrace, ⟨.endOfInput, ""⟩] ∧
          (labels.IsChain fun l l' => ¬ (IsIndex l ∧ IsIndex l')) ∧
          e.unplaced = fieldChain name (labels.map String.ofList))
        fun cause u => ¬ (labels.IsChain fun l l' => ¬ (IsIndex l ∧ IsIndex l')) ∧
          cause = .noFieldLabel ∧ u.kind = .float := by
  have hdotted : ∀ before : List (List Char),
      (before.flatMap fun l => [Word.mark .dot, fieldWord (String.ofList l)]) =
        dottedWords (before.map String.ofList) :=
    fun before => by rw [dottedWords, List.flatMap_map]
  by_cases hapart : labels.IsChain fun l l' => ¬ (IsIndex l ∧ IsIndex l')
  · have hwords := words_dotted hlabels hapart (b := ' ') rfl ['\x7d']
    rw [show textWords [' ', '\x7d'] = [.mark .rightBrace, ⟨.endOfInput, ""⟩] from words_tail, hdotted] at hwords
    rw [show textWords (dotted labels ++ " \x7d".toList) = _ from hwords]
    refine ⟨by simp, comes_expression (isFieldWord_of_isLabel hlabels) (fun _ => ?_) rfl⟩
    exact (leads_suffix_stop rfl).comes fun _ hstop => ⟨rfl, hapart, hstop⟩
  · obtain ⟨before, w, ws, hbefore, hfloat, hwords⟩ := exists_float_of_dotted hlabels hapart (b := ' ') rfl ['\x7d']
    rw [hdotted] at hwords
    rw [show textWords (dotted labels ++ " \x7d".toList) = _ from hwords]
    have hfields := isFieldWord_of_isLabel fun l hl => hlabels l (hbefore.subset hl)
    have hfield : ¬ IsFieldWord w := by simp [IsFieldWord, hfloat]
    have hrest : ∀ inner, (suffix inner).Comes (.mark .dot :: w :: ws)
        (fun us answer => us = [.mark .rightBrace, ⟨.endOfInput, ""⟩] ∧ False ∧ answer = .stop)
        fun cause u => ¬ IsFieldWord w ∧ cause = .noFieldLabel ∧ u = w :=
      fun _ => (comes_suffix fun h => absurd h hfield).mono (fun _ _ h => absurd h.1 hfield) fun _ _ h => h
    refine ⟨?_, (comes_expression hfields hrest rfl).mono (fun _ _ h => h.2.1.elim) ?_⟩
    · simp only [List.length_append, List.length_cons]
      omega
    · rintro _ _ ⟨-, rfl, rfl⟩
      exact ⟨hapart, rfl, hfloat⟩

/-- A name and labels behind it, with a dot before each, are read as the fields of fields of the name, unless two
neighbouring labels are numbers.  Then the first two of those and the dot between them are a fraction, which is found
where a label has to stand. -/
theorem Module.ofTokens_chainText (name : List Char) (labels : List (List Char)) (hname : IsWord .name name)
    (hlabels : ∀ l ∈ labels, IsLabel l) :
    ((labels.IsChain fun l l' => ¬ (IsIndex l ∧ IsIndex l')) →
      ∃ m, Module.ofTokens (tokenize (chainText name labels)) = .ok m ∧
        m.toNode.unplaced = (chainModule name labels).toNode) ∧
    (¬ (labels.IsChain fun l l' => ¬ (IsIndex l ∧ IsIndex l')) →
      ∃ t index, Module.ofTokens (tokenize (chainText name labels)) = .error (.fault ⟨.noFieldLabel, t, index⟩) ∧
        t.kind = .float) := by
  obtain ⟨c, hsays, hread⟩ := exists_run_wholeModule (chainText name labels)
  rw [words_chainText hname labels] at hsays
  obtain ⟨hlength, hchain⟩ := comes_chain (String.ofList name) hlabels
  rw [hread]
  rcases comes_wholeModule hchain hlength c hsays with
    ⟨m, d, us, hrun, -, -, anchor, anchor', anchor'', e, rfl, hapart, he⟩ |
    ⟨_, t, index, w, hrun, ht, hnumbers, rfl, hfloat⟩
  · refine ⟨fun _ => ⟨_, by rw [hrun]; rfl, ?_⟩, fun hnumbers => absurd hapart hnumbers⟩
    simp only [Module.toNode, chainModule, Node.unplaced, unplacedAll, he]
  · exact ⟨fun hapart => absurd hapart hnumbers, fun _ => ⟨t, index, by rw [hrun]; rfl, ht.kind.trans hfloat⟩⟩

/-- A chain in which a number stands between two names. -/
theorem ofTokens_mixedChain :
    (IsWord .name ['x'] ∧ (∀ l ∈ [['a'], ['0', '1'], ['B', 'c']], IsLabel l)) ∧
      ∃ m, Module.ofTokens (tokenize "fn f() \x7b x.a.01.Bc \x7d".toList) = .ok m ∧
        m.toNode.unplaced = (chainModule ['x'] [['a'], ['0', '1'], ['B', 'c']]).toNode := by
  have hname : IsWord .name ['x'] := by decide +kernel
  have hlabels : ∀ l ∈ [['a'], ['0', '1'], ['B', 'c']], IsLabel l := by decide +kernel
  have hapart : [['a'], ['0', '1'], ['B', 'c']].IsChain fun l l' => ¬ (IsIndex l ∧ IsIndex l') := by decide +kernel
  exact ⟨⟨hname, hlabels⟩, (Module.ofTokens_chainText ['x'] _ hname hlabels).1 hapart⟩

/-- Two numbers as labels one behind the other are not read. -/
theorem indexPair_not_read :
    (IsWord .name ['x'] ∧ ∀ l ∈ [['0'], ['1']], IsLabel l) ∧
      ∀ m, Module.ofTokens (tokenize (chainText ['x'] [['0'], ['1']])) ≠ .ok m := by
  have hnone : (Module.ofTokens (tokenize (chainText ['x'] [['0'], ['1']]))).toOption.isSome = false := by
    decide +kernel
  refine ⟨by decide +kernel, fun m hm => ?_⟩
  rw [hm] at hnone
  cases hnone

end ScopeLint
