import ScopeLint.Proofs.Grammar.ExpressionAnchoring

/-!
# Places of the nodes of a module

Every node of a module that is read from a text has its own tokens and stands at one of them
(`Module.anchored_of_tokenize`).  The tokens of a text stand one behind the other, and the nodes right below a node
have their tokens one behind the other, so their places increase in the order in which they are written.
-/

namespace ScopeLint

namespace Grammar

open Spelling Reading

variable {c d : Cursor}

/-! ### Imports and functions -/

/-- An import has no nodes below it. -/
private theorem importing_bare (c : Cursor) :
    importing.Ensures AnyFailure c fun node _ =>
      (node.standsInside = false ∧ node.anchor = c.current.anchor) ∧ node.children = [] := by
  have hany : ∀ {α : Type} {r : Reading α} {d : Cursor} {Q : α → Cursor → Prop}, (∀ a e, Q a e) →
      r.Ensures AnyFailure d Q := by
    intro α r d Q h
    unfold Ensures
    split
    · exact h _ _
    · trivial
  simp only [importing, ensures_traced, ensures_bind, ensures_pure]
  refine ensures_expect Tolerant.fault fun _ => ?_
  exact hany fun path _ => hany fun names _ => hany fun asName _ => hany fun segments _ => ⟨⟨rfl, rfl⟩, rfl⟩

theorem importing_holds (hc : c.Ended AnyFailure) : importing.Ensures AnyFailure c c.Holds := by
  refine ((importing_reads hc).and (importing_bare c)).mono fun node d ⟨hspelled, ⟨houtside, hanchored⟩, hbare⟩ => ?_
  refine Cursor.Starts.holds ⟨houtside, hanchored, ?_⟩ hspelled
  rw [hbare]
  exact hspelled.gathers

theorem function_holds (hc : c.Ended AnyFailure) : function.Ensures AnyFailure c c.Holds := by
  refine (function_reads hc).holds ?_
  simp only [function, ensures_traced, ensures_bind, ensures_current, ensures_pure]
  refine (acceptsWord_reads hc .keyword (by decide) "pub").mono fun visible d hd => ?_
  refine (expect_over (.over (.start hc) hd) _).mono fun _ d h => ?_
  refine (expect_over h _).mono fun name d h => ?_
  refine (expect_over h _).mono fun _ d h => ?_
  refine ((parameters_gathersWithin _).behind h (Nat.lt_succ_self _)).mono fun parameters d h => ?_
  refine (expect_over h _).mono fun _ d h => ?_
  refine ((ascriptionBehind_reads h.ended (by decide) _).over h).mono fun text d h => ?_
  have hreads : expression.ReadsWithin AnyFailure d.after.length _ := fun _ hc _ => expression_reads hc
  have hexpression : expression.HoldsWithin d.after.length := fun _ hc _ => expression_holds hc
  refine ((block_gathersWithin hreads hexpression).behind h (Nat.lt_succ_self _)).mono fun body d h => ?_
  exact ⟨rfl, rfl, h⟩

/-! ### Modules -/

/-- The node of a part of a module. -/
def Definition.node : Definition → Node
  | importing node | function node => node

theorem definitions_gather (hc : c.Ended AnyFailure) :
    (collect definition).Ensures AnyFailure c fun definitions d => c.Gathers (definitions.map Definition.node) d := by
  refine ensures_collect (P := fun c definitions d => c.Gathers (definitions.map Definition.node) d)
    (I := fun c => c.Ended AnyFailure) (fun c hc => ?_) hc
  simp only [definition, ensures_bind, ensures_current, ensures_ite, ensures_pure]
  split
  · exact .start hc
  · split
    · exact (importing_holds hc).mono fun node d h => ⟨h.ended, .inl trivial, fun _ _ hrest => h.gathers.trans hrest⟩
    · split
      · exact (function_holds hc).mono fun node d h => ⟨h.ended, .inl trivial, fun _ _ hrest => h.gathers.trans hrest⟩
      · trivial

theorem functions_sublist (definitions : List Definition) :
    (Definition.functions definitions).Sublist (definitions.map Definition.node) := by
  induction definitions with
  | nil => exact .slnil
  | cons definition definitions ih =>
    cases definition with
    | importing node => exact ih.cons node
    | function node => exact ih.cons_cons node

theorem imports_sublist (definitions : List Definition) :
    (Definition.imports definitions).Sublist (definitions.map Definition.node) := by
  induction definitions with
  | nil => exact .slnil
  | cons definition definitions ih =>
    cases definition with
    | importing node => exact ih.cons_cons node
    | function node => exact ih.cons node

/-- A module stands at the first token, and its functions and its imports are among nodes that have their tokens one
behind the other. -/
theorem wholeModule_gathers (hc : c.Ended AnyFailure) :
    wholeModule.Ensures AnyFailure c fun m d => m.anchor = c.current.anchor ∧
      ∃ nodes, c.Gathers nodes d ∧ m.functions.Sublist nodes ∧ m.imports.Sublist nodes := by
  simp only [wholeModule, ensures_traced, ensures_bind, ensures_current, ensures_note, ensures_pure]
  refine (definitions_gather hc).mono fun definitions d h => ⟨trivial, _, h, ?_, ?_⟩
  · exact functions_sublist definitions
  · exact imports_sublist definitions

end Grammar

/-- The node stands somewhere below another one, at any depth, or is that one. -/
def Node.Contains : Node → Node → Prop :=
  Relation.ReflTransGen fun node child => child ∈ node.children

/-- The statements of a block, or of the body of a function. -/
def Node.statements : Node → List Node
  | .block _ statements => statements
  | .lambda _ _ body | .function _ _ _ _ body _ => body
  | _ => []

theorem Node.statements_sublist (node : Node) : node.statements.Sublist node.children := by
  cases node with
  | block anchor statements => exact .refl statements
  | lambda anchor parameters body => exact List.sublist_append_right parameters body
  | function anchor name visibility parameters body text => exact List.sublist_append_right parameters body
  | _ => exact List.nil_sublist _

/-- Nodes that have their tokens one behind the other stand one behind the other, if the tokens do. -/
theorem Spread.precedes {nodes : List Node} {ts : List Token} (h : Spread Node.Stands nodes ts)
    (hts : ts.Pairwise Token.Precedes) : nodes.Pairwise fun a b => a.anchor.Precedes b.anchor :=
  h.pairwise hts fun ha hb happart => ha.precedes hb happart

/-- The tokens of a module: those of its functions and imports, with the mark for the end of the input behind them. -/
theorem Module.exists_spread {ts : List Token} {m : Module} (hend : ∀ t ∈ ts.getLast?, t.kind = .endOfInput)
    (hm : Module.ofTokens ts = .ok m) :
    (∃ first ∈ ts.head?, m.anchor = first.anchor) ∧
      ∃ nodes us vs, ts = us ++ vs ∧ Spread Node.Stands nodes us ∧ m.functions.Sublist nodes ∧
        m.imports.Sublist nodes := by
  cases ts with
  | nil => cases hm
  | cons t ts =>
    have hc : Cursor.Ended AnyFailure ⟨[], t, ts⟩ := ⟨hend, .inl trivial⟩
    rw [Module.ofTokens_cons] at hm
    cases hrun : Grammar.wholeModule.run ⟨[], t, ts⟩ with
    | error failure => simp [hrun, Except.map] at hm
    | ok answer =>
      obtain ⟨m', d⟩ := answer
      obtain rfl : m' = m := by simpa [hrun, Except.map] using hm
      obtain ⟨hanchor, nodes, ⟨-, us, hahead, hspread⟩, hfunctions, himports⟩ :=
        (Grammar.wholeModule_gathers hc).of_run hrun
      exact ⟨⟨t, rfl, hanchor⟩, nodes, us, d.ahead, hahead, hspread, hfunctions, himports⟩

/-- In a module that is read from a text, every node has its own tokens among those of the text and stands at one of
them: an operation at its operator, a call at its parenthesis, a field at its dot, a tail without a pattern at its dots,
and any other node at its first token.  The module stands at the first token of all.  The functions, the imports, and
the statements of any block or body stand one behind the other. -/
theorem Module.anchored_of_tokenize (text : List Char) (m : Module) (hm : Module.ofTokens (tokenize text) = .ok m) :
    (∃ first ∈ (tokenize text).head?, m.anchor = first.anchor) ∧
      (∀ part ∈ m.functions ++ m.imports, ∀ node, part.Contains node →
        (∃ before own behind, tokenize text = before ++ own ++ behind ∧ node.Stands own ∧
          ∃ t ∈ own, node.anchor = ⟨some t.line, some t.column⟩) ∧
        node.statements.Pairwise fun a b => a.anchor.Precedes b.anchor) ∧
      m.functions.Pairwise (fun a b => a.anchor.Precedes b.anchor) ∧
      m.imports.Pairwise fun a b => a.anchor.Precedes b.anchor := by
  have hordered : (tokenize text).Pairwise Token.Precedes := precedes_scan (.start text) rfl
  have hend : ∀ t ∈ (tokenize text).getLast?, t.kind = .endOfInput := fun t ht => by
    obtain ⟨⟨last, hlast, hkind⟩, -⟩ := finished_tokenize text
    exact Option.mem_unique hlast ht ▸ hkind
  obtain ⟨hfirst, nodes, us, vs, htokens, hspread, hfunctions, himports⟩ := Module.exists_spread hend hm
  rw [htokens] at hordered
  have hprecede := hspread.precedes (List.pairwise_append.mp hordered).1
  refine ⟨hfirst, fun part hpart node hnode => ?_, hprecede.sublist hfunctions, hprecede.sublist himports⟩
  -- The tokens of a part, and in them those of the node.
  have hmem : part ∈ nodes := (List.mem_append.mp hpart).elim (hfunctions.subset ·) (himports.subset ·)
  obtain ⟨past, ws, rest, rfl, hpartStands⟩ := hspread.exists_stretch hmem
  obtain ⟨before, own, behind, rfl, hstands⟩ := hpartStands.exists_stretch hnode
  have hsplit : tokenize text = past ++ before ++ own ++ (behind ++ rest ++ vs) := by
    rw [htokens]
    simp only [List.append_assoc]
  have hown : own.Pairwise Token.Precedes := by
    rw [← htokens, hsplit] at hordered
    exact (List.pairwise_append.mp (List.pairwise_append.mp hordered).1).2.1
  refine ⟨⟨_, own, _, hsplit, hstands, hstands.exists_anchor⟩, ?_⟩
  exact (hstands.spread_children.precedes hown).sublist node.statements_sublist

/-- A text with an import, an operation in a call of a field, a bare tail and two statements. -/
def anchoredText : List Char :=
  "import a\nfn f(x) \x7b\n  let [y, ..] as z = x.g(y + 1)\n  z\n\x7d".toList

theorem anchored_anchoredText :
    ∃ m, Module.ofTokens (tokenize anchoredText) = .ok m ∧
      (∃ first ∈ (tokenize anchoredText).head?, m.anchor = first.anchor) ∧
      ∀ part ∈ m.functions ++ m.imports, ∀ node, part.Contains node →
        ∃ t ∈ tokenize anchoredText, node.anchor = ⟨some t.line, some t.column⟩ := by
  obtain ⟨m, hm⟩ : ∃ m, Module.ofTokens (tokenize anchoredText) = .ok m := Module.exists_of_isSome (by decide +kernel)
  obtain ⟨hfirst, hnodes, -, -⟩ := Module.anchored_of_tokenize anchoredText m hm
  refine ⟨m, hm, hfirst, fun part hpart node hnode => ?_⟩
  obtain ⟨⟨before, own, behind, hsplit, -, t, ht, hanchor⟩, -⟩ := hnodes part hpart node hnode
  refine ⟨t, ?_, hanchor⟩
  rw [hsplit]
  exact List.mem_append_left _ (List.mem_append_right _ ht)

end ScopeLint
