import ScopeLint.Proofs.Grammar.ModuleReading
import ScopeLint.Proofs.Token.Positions

/-!
# Nodes and their tokens

A node of a tree that was read has its own stretch of the token list: the tokens that were passed over for it.  They
spell the node, the nodes right below it have their stretches in them, one behind the other, and the node stands at one
of them (`Node.Stands`).  Readings keep that: what a rule passes over gathers the nodes that it answers with
(`Cursor.Gathers`, `Cursor.Holds`).
-/

namespace ScopeLint

open Spelling

/-- Each item has its own stretch of a token list, in the order of the items; other tokens may stand before, between and
behind the stretches. -/
inductive Spread {α : Type} (own : α → List Token → Prop) : List α → List Token → Prop where
  | nothing (ts : List Token) : Spread own [] ts
  | next {a : α} {as : List α} {us vs : List Token} (gap : List Token) (head : own a us) (rest : Spread own as vs) :
      Spread own (a :: as) (gap ++ (us ++ vs))

/-- The nodes right below a node, in the order in which they are written. -/
def Node.children : Node → List Node
  | .patTuple _ elements | .tuple _ elements => elements
  | .patList _ elements tail | .list _ elements tail => elements ++ tail.toList
  | .patAlias _ inner _ | .minus _ inner | .not _ inner | .argument _ inner _ | .field _ inner _
  | .expression _ inner => [inner]
  | .patConstructor _ _ arguments => arguments
  | .block _ statements => statements
  | .call _ called arguments => called :: arguments
  | .binary _ _ left right => [left, right]
  | .clause _ alternatives guard body => alternatives.flatten ++ guard.toList ++ [body]
  | .choice _ subjects clauses => subjects ++ clauses
  | .lambda _ parameters body => parameters ++ body
  | .todo _ message | .panic _ message => message.toList
  | .assignment _ pattern value _ _ => [pattern, value]
  | .use _ patterns called => patterns ++ [called]
  | .function _ _ _ parameters body _ => parameters ++ body
  | .wholeModule _ functions imports => functions ++ imports
  | _ => []

/-- The node stands at a token behind its first part, not at its first token. -/
def Node.standsInside : Node → Bool
  | .call .. | .field .. | .binary .. => true
  | _ => false

/-- The node stands over the tokens: they spell it, the nodes right below it stand over stretches of them in order, and
its place is that of its first token; of a call that of the parenthesis behind the function, of a field that of the dot
behind the container, and of an operation that of the operator behind the left operand.  The tail of a list pattern
without a pattern stands over its two dots. -/
inductive Node.Stands : Node → List Token → Prop where
  | first {node : Node} {t : Token} {ts : List Token} (spelled : (t :: ts).map Token.word ∈ node.spelling)
      (outside : node.standsInside = false) (anchored : node.anchor = t.anchor)
      (inside : Spread Node.Stands node.children (t :: ts)) : Node.Stands node (t :: ts)
  | call {function : Node} {arguments : List Node} {us vs : List Token} {t : Token}
      (spelled : (us ++ t :: vs).map Token.word ∈ (Node.call t.anchor function arguments).spelling)
      (kind : t.kind = .leftParen) (head : function.Stands us) (inside : Spread Node.Stands arguments vs) :
      Node.Stands (.call t.anchor function arguments) (us ++ t :: vs)
  | field {container : Node} {label : String} {us vs : List Token} {t : Token}
      (spelled : (us ++ t :: vs).map Token.word ∈ (Node.field t.anchor container label).spelling)
      (kind : t.kind = .dot) (head : container.Stands us) :
      Node.Stands (.field t.anchor container label) (us ++ t :: vs)
  | binary {left right : Node} {us vs : List Token} {t : Token}
      (spelled : (us ++ t :: vs).map Token.word ∈ (Node.binary t.anchor t.text left right).spelling)
      (kind : t.kind = .operator) (head : left.Stands us) (inside : right.Stands vs) :
      Node.Stands (.binary t.anchor t.text left right) (us ++ t :: vs)
  | bareTail {t : Token} (kind : t.kind = .dotDot) : Node.Stands (.patDiscard t.anchor "") [t]

/-! ### Stretches -/

namespace Spread

variable {α : Type} {own : α → List Token → Prop} {as bs : List α} {ts us : List Token}

theorem before (gap : List Token) (h : Spread own as ts) : Spread own as (gap ++ ts) := by
  cases h with
  | nothing => exact .nothing _
  | next gap' head rest =>
    rw [← List.append_assoc]
    exact .next _ head rest

theorem append (h : Spread own as ts) (h' : Spread own bs us) : Spread own (as ++ bs) (ts ++ us) := by
  induction h with
  | nothing ts => exact h'.before ts
  | next gap head _ ih =>
    rw [List.append_assoc, List.append_assoc]
    exact .next gap head ih

theorem single {a : α} (h : own a ts) : Spread own [a] ts := by
  have hspread : Spread own [a] ([] ++ (ts ++ [])) := .next [] h (.nothing [])
  rwa [List.nil_append, List.append_nil] at hspread

/-- The stretch of each item is a part of the list. -/
theorem exists_stretch (h : Spread own as ts) {a : α} (ha : a ∈ as) :
    ∃ before us behind, ts = before ++ us ++ behind ∧ own a us := by
  induction h with
  | nothing => cases ha
  | @next b bs us vs gap head rest ih =>
    rcases List.mem_cons.mp ha with rfl | ha
    · exact ⟨gap, us, vs, by rw [List.append_assoc], head⟩
    · obtain ⟨before, ws, behind, rfl, hws⟩ := ih ha
      exact ⟨gap ++ us ++ before, ws, behind, by simp only [List.append_assoc], hws⟩

/-- Of two items, the tokens of the one stand before those of the other. -/
theorem pairwise {R : α → α → Prop} {P : Token → Token → Prop} (h : Spread own as ts) (hts : ts.Pairwise P)
    (hR : ∀ {a b us vs}, own a us → own b vs → (∀ t ∈ us, ∀ u ∈ vs, P t u) → R a b) : as.Pairwise R := by
  induction h with
  | nothing => exact .nil
  | @next a as us vs gap head rest ih =>
    obtain ⟨husvs, -⟩ := (List.pairwise_append.mp hts).2
    obtain ⟨-, hvs, hapart⟩ := List.pairwise_append.mp husvs
    refine List.pairwise_cons.mpr ⟨fun b hb => ?_, ih hvs⟩
    obtain ⟨before, ws, behind, rfl, hws⟩ := rest.exists_stretch hb
    refine hR head hws fun t ht u hu => hapart t ht u ?_
    exact List.mem_append_left _ (List.mem_append_right _ hu)

end Spread

/-! ### Places of nodes -/

/-- Both places are known, and the first one is in an earlier line than the second one or before it in the same
line. -/
def Anchor.Precedes (a b : Anchor) : Prop :=
  ∃ line column line' column', a = ⟨some line, some column⟩ ∧ b = ⟨some line', some column'⟩ ∧
    (line < line' ∨ (line = line' ∧ column < column'))

namespace Node.Stands

variable {node child : Node} {ts : List Token}

/-- A node stands at one of its tokens. -/
theorem exists_anchor (h : node.Stands ts) : ∃ t ∈ ts, node.anchor = t.anchor := by
  cases h with
  | first _ _ anchored => exact ⟨_, List.mem_cons_self, anchored⟩
  | call | field | binary => exact ⟨_, List.mem_append_right _ List.mem_cons_self, rfl⟩
  | bareTail => exact ⟨_, List.mem_cons_self, rfl⟩

/-- The nodes right below a node stand over stretches of its tokens, in order. -/
theorem spread_children (h : node.Stands ts) : Spread Node.Stands node.children ts := by
  cases h with
  | first _ _ _ inside => exact inside
  | call _ _ head inside => exact (Spread.single head).append (inside.before [_])
  | field _ _ head => exact (Spread.single head).append (.nothing _)
  | binary _ _ head inside => exact (Spread.single head).append ((Spread.single inside).before [_])
  | bareTail => exact .nothing _

/-- So do the nodes further below. -/
theorem exists_stretch (h : node.Stands ts) (hbelow : Relation.ReflTransGen (fun a b => b ∈ a.children) node child) :
    ∃ before us behind, ts = before ++ us ++ behind ∧ child.Stands us := by
  induction hbelow with
  | refl => exact ⟨[], ts, [], by simp, h⟩
  | tail _ hchild ih =>
    obtain ⟨before, us, behind, rfl, hus⟩ := ih
    obtain ⟨before', vs, behind', rfl, hvs⟩ := hus.spread_children.exists_stretch hchild
    exact ⟨before ++ before', vs, behind' ++ behind, by simp only [List.append_assoc], hvs⟩

/-- Nodes that stand over tokens one behind the other stand one behind the other. -/
theorem precedes {a b : Node} {us vs : List Token} (ha : a.Stands us) (hb : b.Stands vs)
    (h : ∀ t ∈ us, ∀ u ∈ vs, t.Precedes u) : a.anchor.Precedes b.anchor := by
  obtain ⟨t, ht, hat⟩ := ha.exists_anchor
  obtain ⟨u, hu, hbu⟩ := hb.exists_anchor
  exact ⟨_, _, _, _, hat, hbu, h t ht u hu⟩

end Node.Stands

/-! ### Passing over the tokens of nodes -/

namespace Cursor

variable {c d e : Cursor} {l : Language Word} {nodes others : List Node} {node : Node}

/-- A cursor is moved to another one over tokens in which the nodes have their stretches, in order. -/
structure Gathers (c : Cursor) (nodes : List Node) (d : Cursor) : Prop where
  ended : d.Ended AnyFailure
  passed : ∃ ts : List Token, c.ahead = ts ++ d.ahead ∧ Spread Node.Stands nodes ts

/-- A cursor is moved to another one over the tokens of a node. -/
structure Holds (c : Cursor) (node : Node) (d : Cursor) : Prop where
  ended : d.Ended AnyFailure
  passed : ∃ ts : List Token, c.ahead = ts ++ d.ahead ∧ node.Stands ts

/-- A node that stands at the cursor, whose parts are gathered up to another cursor. -/
structure Starts (c : Cursor) (node : Node) (d : Cursor) : Prop where
  outside : node.standsInside = false
  anchored : node.anchor = c.current.anchor
  inside : c.Gathers node.children d

theorem Reaches.gathers (h : c.Reaches AnyFailure l d) : c.Gathers [] d := by
  obtain ⟨hd, ts, hahead, -⟩ := h
  exact ⟨hd, ts, hahead, .nothing ts⟩

theorem Gathers.start (h : c.Ended AnyFailure) : c.Gathers [] c :=
  (Reaches.start h).gathers

theorem Gathers.trans (h : c.Gathers nodes d) (h' : d.Gathers others e) : c.Gathers (nodes ++ others) e := by
  obtain ⟨-, ts, hahead, hts⟩ := h
  obtain ⟨he, us, hahead', hus⟩ := h'
  exact ⟨he, ts ++ us, by rw [hahead, hahead', List.append_assoc], hts.append hus⟩

theorem Gathers.length_le (h : c.Gathers nodes d) : d.after.length ≤ c.after.length := by
  obtain ⟨-, ts, hahead, -⟩ := h
  have := congrArg List.length hahead
  simp only [ahead, List.length_cons, List.length_append] at this
  omega

/-- Passing over tokens of no node. -/
theorem Gathers.over (h : c.Gathers nodes d) (h' : d.Reaches AnyFailure l e) : c.Gathers nodes e := by
  simpa only [List.append_nil] using h.trans h'.gathers

theorem Holds.gathers (h : c.Holds node d) : c.Gathers [node] d := by
  obtain ⟨hd, ts, hahead, hts⟩ := h
  exact ⟨hd, ts, hahead, .single hts⟩

/-- Passing over the current token. -/
theorem Ended.advance (h : c.Ended AnyFailure) {kind : TokenKind} (hk : c.current.kind = kind)
    (hne : kind ≠ .endOfInput) :
    c.Gathers [] c.advance ∧ c.ahead = c.current :: c.advance.ahead ∧ c.advance.after.length < c.after.length := by
  have hpast := (Reaches.start h).advance hk hne
  refine ⟨hpast.gathers, ?_, hpast.lt (by simp)⟩
  obtain ⟨before, current, after⟩ := c
  cases after with
  | nil => exact absurd (h.closed current rfl) (hk ▸ hne)
  | cons next after => rfl

/-- The tokens that were passed over are those of the node, if they spell it. -/
theorem Starts.holds {fits : Node → Bool} (hstarts : c.Starts node d)
    (h : c.Reaches AnyFailure (node.spellingAs fits) d) : c.Holds node d := by
  obtain ⟨hd, ts, hahead, -, -, hspelled⟩ := h
  obtain ⟨houtside, hanchored, -, us, hahead', hinside⟩ := hstarts
  obtain rfl : us = ts := List.append_cancel_right (hahead'.symm.trans hahead)
  cases us with
  | nil => exact absurd hspelled (node.nil_notMem_spellingAs fits)
  | cons t ts =>
    obtain ⟨rfl, -⟩ := List.cons.inj (show c.current :: c.after = t :: (ts ++ d.ahead) from hahead)
    exact ⟨hd, _, hahead, .first (mem_provided.mp hspelled).2 houtside hanchored hinside⟩

/-- The tokens of the head of a node, the token where the node stands, and the tokens of the rest. -/
private theorem Holds.split {b : Cursor} {head : Node} {P : List Token → Prop} (h : b.Holds head c)
    (hahead : c.ahead = c.current :: c.advance.ahead) (hrest : ∃ vs, c.advance.ahead = vs ++ d.ahead ∧ P vs)
    (hspelled : b.Reaches AnyFailure l d) :
    ∃ us vs, b.ahead = us ++ c.current :: vs ++ d.ahead ∧ (us ++ c.current :: vs).map Token.word ∈ l ∧
      head.Stands us ∧ P vs := by
  obtain ⟨-, us, hus, hhead⟩ := h
  obtain ⟨vs, hvs, hinside⟩ := hrest
  obtain ⟨-, ts, hts, -, -, hmem⟩ := hspelled
  have hall : b.ahead = us ++ c.current :: vs ++ d.ahead := by
    rw [hus, hahead, hvs, List.append_assoc, List.cons_append]
  obtain rfl : us ++ c.current :: vs = ts := List.append_cancel_right (hall.symm.trans hts)
  exact ⟨us, vs, hall, hmem, hhead, hinside⟩

theorem Holds.call {b : Cursor} {called : Node} {fits : Node → Bool} (h : b.Holds called c)
    (hahead : c.ahead = c.current :: c.advance.ahead) (hk : c.current.kind = .leftParen)
    (harguments : c.advance.Gathers others d)
    (hspelled : b.Reaches AnyFailure ((Node.call c.current.anchor called others).spellingAs fits) d) :
    b.Holds (.call c.current.anchor called others) d := by
  obtain ⟨us, vs, hall, hmem, hhead, hinside⟩ := h.split hahead harguments.passed hspelled
  exact ⟨hspelled.ended, _, hall, .call (mem_provided.mp hmem).2 hk hhead hinside⟩

theorem Holds.field {b : Cursor} {container : Node} {label : String} {fits : Node → Bool} (h : b.Holds container c)
    (hahead : c.ahead = c.current :: c.advance.ahead) (hk : c.current.kind = .dot) (hlabel : c.advance.Gathers [] d)
    (hspelled : b.Reaches AnyFailure ((Node.field c.current.anchor container label).spellingAs fits) d) :
    b.Holds (.field c.current.anchor container label) d := by
  obtain ⟨us, vs, hall, hmem, hhead, -⟩ := h.split hahead hlabel.passed hspelled
  exact ⟨hspelled.ended, _, hall, .field (mem_provided.mp hmem).2 hk hhead⟩

theorem Holds.binary {b : Cursor} {left right : Node} (h : b.Holds left c)
    (hahead : c.ahead = c.current :: c.advance.ahead) (hk : c.current.kind = .operator)
    (hright : c.advance.Holds right d)
    (hspelled : b.Reaches AnyFailure (Node.binary c.current.anchor c.current.text left right).spelling d) :
    b.Holds (.binary c.current.anchor c.current.text left right) d := by
  obtain ⟨us, vs, hall, hmem, hhead, hinside⟩ := h.split hahead hright.passed hspelled
  exact ⟨hspelled.ended, _, hall, .binary hmem hk hhead hinside⟩

end Cursor

namespace Reading

variable {α : Type} {c d : Cursor} {n : Nat}

/-- A reading gathers the nodes of its answers wherever fewer tokens than a bound are ahead. -/
def GathersWithin (n : Nat) (r : Reading α) (nodes : α → List Node) : Prop :=
  ∀ c, c.Ended AnyFailure → c.after.length < n → r.Ensures AnyFailure c fun a d => c.Gathers (nodes a) d

/-- A reading holds the nodes that it answers with wherever fewer tokens than a bound are ahead. -/
def HoldsWithin (n : Nat) (r : Reading Node) : Prop :=
  ∀ c, c.Ended AnyFailure → c.after.length < n → r.Ensures AnyFailure c c.Holds

variable {nodes : List Node} {r : Reading α} {own : α → List Node}

theorem HoldsWithin.gathersWithin {r : Reading Node} (h : r.HoldsWithin n) : r.GathersWithin n fun node => [node] :=
  fun c hc hn => (h c hc hn).mono fun _ _ hnode => hnode.gathers

theorem GathersWithin.behind (hr : r.GathersWithin n own) (h : c.Gathers nodes d) (hn : d.after.length < n) :
    r.Ensures AnyFailure d fun a e => c.Gathers (nodes ++ own a) e :=
  (hr d h.ended hn).mono fun _ _ ha => h.trans ha

theorem HoldsWithin.behind {r : Reading Node} (hr : r.HoldsWithin n) (h : c.Gathers nodes d) (hn : d.after.length < n) :
    r.Ensures AnyFailure d fun node e => c.Gathers (nodes ++ [node]) e :=
  hr.gathersWithin.behind h hn

/-- What is read is no node. -/
theorem Reads.over {spelling : α → Language Word} (hr : r.Reads AnyFailure spelling d) (h : c.Gathers nodes d) :
    r.Ensures AnyFailure d fun _ e => c.Gathers nodes e :=
  hr.mono fun _ _ ha => h.over ha

theorem expect_over (h : c.Gathers nodes d) (e : Expectation) :
    (expect e).Ensures AnyFailure d fun _ d' => c.Gathers nodes d' :=
  (expect_behind (.start h.ended) e.kind rfl).mono fun _ _ ht => h.over ht

/-- A rule holds the node that it answers with, if that stands where the rule has started. -/
theorem Reads.holds {r : Reading Node} {fits : Node → Bool} (hr : r.Reads AnyFailure (Node.spellingAs fits) c)
    (h : r.Ensures AnyFailure c c.Starts) : r.Ensures AnyFailure c c.Holds :=
  (hr.and h).mono fun _ _ hboth => hboth.2.holds hboth.1

/-! ### Repeated readings -/

theorem commaList_gathersWithin {item : Reading Node} (hitem : item.GathersWithin n fun node => [node])
    (closing : TokenKind) : (commaList item closing).GathersWithin n id := by
  intro c hc hn
  refine ensures_collect (P := Cursor.Gathers) (I := fun c => c.Ended AnyFailure ∧ c.after.length < n)
    (fun c ⟨hc, hn⟩ => ?_) ⟨hc, hn⟩
  simp only [ensures_bind, ensures_sees, ensures_ite, ensures_pure]
  split
  · exact .start hc
  · refine (hitem c hc hn).mono fun node d h => ?_
    refine (accepts_reads h.ended .comma (by decide)).mono fun more e he => ?_
    replace h := h.over he
    split
    · exact ⟨⟨h.ended, Nat.lt_of_le_of_lt h.length_le hn⟩, .inl trivial, fun nodes e hnodes => h.trans hnodes⟩
    · exact h

theorem upToBrace_gathersWithin {item : Reading Node} (hitem : item.HoldsWithin n) (unfinished : FaultCause) :
    (upToBrace unfinished item).GathersWithin n id := by
  intro c hc hn
  refine ensures_collect (P := Cursor.Gathers) (I := fun c => c.Ended AnyFailure ∧ c.after.length < n)
    (fun c ⟨hc, hn⟩ => ?_) ⟨hc, hn⟩
  simp only [ensures_bind, ensures_sees, ensures_ite, ensures_pure, ensures_fail]
  split
  · exact .start hc
  · split
    · trivial
    · refine (hitem.gathersWithin c hc hn).mono fun node d h => ?_
      exact ⟨⟨h.ended, Nat.lt_of_le_of_lt h.length_le hn⟩, .inl trivial, fun nodes e hnodes => h.trans hnodes⟩

theorem separated_gathersWithin {item : Reading α} (kind : TokenKind) (hne : kind ≠ .endOfInput)
    (hitem : item.GathersWithin n own) :
    (separated item (accepts kind) item).GathersWithin n fun as => as.flatMap own := by
  intro c hc hn
  rw [separated, ensures_bind]
  refine (hitem c hc hn).mono fun a d h => ?_
  rw [ensures_bind]
  have hrest : (collect do if ← accepts kind then return .more (← item) else return .stop).Ensures AnyFailure d
      fun as e => d.Gathers (as.flatMap own) e := by
    refine ensures_collect (P := fun c as d => c.Gathers (as.flatMap own) d)
      (I := fun c => c.Ended AnyFailure ∧ c.after.length < n) (fun c hinvariant => ?_)
      ⟨h.ended, Nat.lt_of_le_of_lt h.length_le hn⟩
    obtain ⟨hc, hn⟩ := hinvariant
    simp only [ensures_bind, ensures_ite, ensures_pure]
    refine (accepts_reads hc kind hne).mono fun b d hb => ?_
    have h := (Cursor.Gathers.start hc).over hb
    split
    · refine (hitem.behind h (Nat.lt_of_le_of_lt h.length_le hn)).mono fun a e h => ?_
      refine ⟨⟨h.ended, Nat.lt_of_le_of_lt h.length_le hn⟩, .inl trivial, fun as e' has => ?_⟩
      rw [List.flatMap_cons]
      exact h.trans has
    · exact h
  exact hrest.mono fun as e has => h.trans has

theorem behindWord_gathersWithin {r : Reading Node} (hr : r.HoldsWithin n) (word : String) :
    (behind (acceptsWord .keyword word) r).GathersWithin n Option.toList := by
  intro c hc hn
  rw [ensures_behind]
  refine (acceptsWord_reads hc .keyword (by decide) word).mono fun b d hb => ?_
  have h := (Cursor.Gathers.start hc).over hb
  split
  · exact hr.behind h (Nat.lt_of_le_of_lt h.length_le hn)
  · exact h

end Reading

end ScopeLint
