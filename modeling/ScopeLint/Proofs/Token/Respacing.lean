import ScopeLint.Proofs.Token.Tiling

/-!
# Spacing

The tokens of a text without flaws stay the same when the text is spaced anew: when any blanks and comments are written
before its first token and behind each token, so long as a blank comes first behind a token (`tokenize_respaced`).  The
tokens of the first text may touch each other.
-/

namespace ScopeLint

/-- A text is made of the stretches that tokens cover in another one, in order, each behind a gap.  A blank stands
behind every stretch, or the text ends there; a last gap ends the text. -/
inductive Respaced (text : List Char) : List Token → List Char → Prop where
  | ending {t : Token} {gap : List Char} (last : t.kind = .endOfInput) (isGap : IsGap [] gap) : Respaced text [t] gap
  | token {t : Token} {ts : List Token} {gap rest : List Char} (isGap : IsGap (stretch text t.start t.stop ++ rest) gap)
      (apart : Parted rest) (behind : Respaced text ts rest) :
      Respaced text (t :: ts) (gap ++ (stretch text t.start t.stop ++ rest))

/-- What stands behind the gap before a token in a text spaced anew. -/
private theorem Respaced.behind_token {text spaced : List Char} {t : Token} {ts : List Token}
    (h : Respaced text (t :: ts) spaced) (inner : t.kind ≠ .endOfInput) :
    ∃ gap rest, spaced = gap ++ (stretch text t.start t.stop ++ rest) ∧
      IsGap (stretch text t.start t.stop ++ rest) gap ∧ Parted rest ∧ Respaced text ts rest := by
  cases h with
  | ending last => exact absurd last inner
  | token isGap apart behind => exact ⟨_, _, rfl, isGap, apart, behind⟩

/-- The tokens behind the first characters of a text are those of its spaced rest.  The induction is on the cuts of the
text; what the gaps between its tokens are does not matter. -/
private theorem alike_scan (past cs : List Char) {p : Place} (hp : p.offset = past.length)
    (hvalid : ∀ t ∈ (scan p cs).tokens, t.kind ≠ .invalid) {spaced : List Char}
    (h : Respaced (past ++ cs) (scan p cs).tokens spaced) (q : Place) :
    List.Forall₂ Token.Alike (scan p cs).tokens (scan q spaced).tokens := by
  induction cs using scan_induction generalizing past p spaced q with
  | blank cs hcs =>
    rw [scan_nil hcs] at h ⊢
    cases h with
    | ending last isGap =>
      have hspaced : trivia spaced = spaced := by simpa [trivia, triviaFrom] using trivia_append_of_isGap isGap
      rw [scan_nil hspaced]
      exact .cons ⟨rfl, rfl⟩ .nil
    | token _ _ behind => cases behind
  | lexeme gap c rest hgap ih =>
    have hstart : (p.after gap).offset = (past ++ gap).length := by rw [Place.offset_after, hp, List.length_append]
    obtain ⟨hstop, htext⟩ := behind_lexeme gap c rest hp
    rw [tokens_scan_cons hgap] at h hvalid ⊢
    obtain ⟨hlexeme, hvalid⟩ := List.forall_mem_cons.mp hvalid
    obtain ⟨gap', spaced, rfl, isGap, apart, behind⟩ := h.behind_token (Lexeme.read_kind_ne_endOfInput c rest)
    obtain ⟨tail, htail⟩ := Lexeme.exists_cons_spelling c rest
    have hstretch : stretch (past ++ (gap ++ c :: rest)) (p.after gap).offset
        ((p.after gap).after (Lexeme.read c rest).spelling).offset = c :: tail := by
      rw [← List.append_assoc, ← htail]
      exact stretch_lexeme c rest hstart
    simp only [Piece.token, Piece.stop, hstretch] at isGap ⊢
    have htrivia : trivia (gap' ++ c :: (tail ++ spaced)) = gap' := by
      have hnone := Lexeme.trivia_spelling_append hlexeme apart
      rw [htail, List.cons_append] at hnone
      rw [← List.cons_append, trivia_append_of_isGap isGap, List.cons_append, hnone, List.append_nil]
    -- What stood behind the lexeme in the first text does not matter: its spelling alone tells it.
    have hread : Lexeme.read c (tail ++ spaced) = Lexeme.read c rest := Lexeme.read_spelling_append hlexeme htail apart
    have hdrop : (c :: (tail ++ spaced)).drop (Lexeme.read c rest).spelling.length = spaced := by
      rw [htail, ← List.cons_append, List.drop_left]
    rw [List.cons_append, tokens_scan_cons htrivia, hread, hdrop]
    rw [← htext] at behind
    exact .cons ⟨rfl, rfl⟩ (ih _ hstop hvalid behind _)

/-- The tokens of a text without flaws are those of the text spaced anew. -/
theorem tokenize_respaced {text spaced : List Char} (hvalid : ∀ t ∈ tokenize text, t.kind ≠ .invalid)
    (h : Respaced text (tokenize text) spaced) : List.Forall₂ Token.Alike (tokenize text) (tokenize spaced) :=
  alike_scan [] text rfl hvalid h .start

/-- Four tokens that touch each other. -/
def touchingText : List Char :=
  "1./\"a\"".toList

/-- The same tokens with comments before the first one, behind the slash and at the end. -/
def apartText : List Char :=
  "// 1\n1 .\t/\r// \"\n\"a\" // end".toList

/-- The tokens that touched each other are found again with comments between them. -/
theorem tokenize_touchingText :
    (∀ t ∈ tokenize touchingText, t.kind ≠ .invalid) ∧ Respaced touchingText (tokenize touchingText) apartText ∧
      List.Forall₂ Token.Alike (tokenize touchingText) (tokenize apartText) := by
  have hvalid : ∀ t ∈ tokenize touchingText, t.kind ≠ .invalid := by decide +kernel
  have htokens : tokenize touchingText =
      [⟨.integer, some "1", 1, 1, 0, 1⟩, ⟨.dot, some ".", 1, 2, 1, 2⟩, ⟨.operator, some "/", 1, 3, 2, 3⟩,
       ⟨.string, some "a", 1, 4, 3, 6⟩, ⟨.endOfInput, none, 1, 7, 6, 6⟩] := by decide +kernel
  have hspaced : Respaced touchingText (tokenize touchingText) apartText := by
    have hend : Respaced touchingText [⟨.endOfInput, none, 1, 7, 6, 6⟩] " // end".toList :=
      .ending rfl (isGap_trivia (by decide))
    have hstring := @Respaced.token _ ⟨.string, some "a", 1, 4, 3, 6⟩ _ "\r// \"\n".toList _
      (isGap_trivia (by decide)) (by decide) hend
    have hslash := @Respaced.token _ ⟨.operator, some "/", 1, 3, 2, 3⟩ _ "\t".toList _
      (isGap_trivia (by decide)) (by decide) hstring
    have hdot := @Respaced.token _ ⟨.dot, some ".", 1, 2, 1, 2⟩ _ " ".toList _
      (isGap_trivia (by decide)) (by decide) hslash
    have hone := @Respaced.token _ ⟨.integer, some "1", 1, 1, 0, 1⟩ _ "// 1\n".toList _
      (isGap_trivia (by decide)) (by decide) hdot
    rw [htokens]
    exact hone
  exact ⟨hvalid, hspaced, tokenize_respaced hvalid hspaced⟩

end ScopeLint
