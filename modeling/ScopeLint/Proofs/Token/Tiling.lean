import ScopeLint.Proofs.Token.Concatenation

/-!
# Tokens tile their text

The tokens of a text cover stretches of it, one behind the other, and nothing but blanks and comments stands between
them (`tokenize_tiles`).  A token means the characters that it covers, only a string literal means something else; its
stretch stands between quotation marks.
-/

namespace ScopeLint

/-- The characters of a text from one index up to another. -/
def stretch (text : List Char) (start stop : Int) : List Char :=
  (text.take stop.toNat).drop start.toNat

/-- Blanks and comments before the rest of a text.  A comment goes up to the next line feed, or to the end of the
text, and the line feed is not part of it. -/
inductive IsGap (behind : List Char) : List Char → Prop where
  | nothing : IsGap behind []
  | blank {c : Char} {gap : List Char} (blank : c ∈ [' ', '\t', '\r', '\n']) (rest : IsGap behind gap) :
      IsGap behind (c :: gap)
  | comment {words gap : List Char} (inLine : '\n' ∉ words) (lineEnds : ∀ c ∈ (gap ++ behind).head?, c = '\n')
      (rest : IsGap behind gap) : IsGap behind ('/' :: '/' :: (words ++ gap))

/-- Between two indices of a text there is a gap. -/
def GapBetween (text : List Char) (start stop : Int) : Prop :=
  start ≤ stop ∧ IsGap (text.drop stop.toNat) (stretch text start stop)

/-- A token covers at least one character, and means what it covers unless that stands between quotation marks. -/
structure Token.Covers (text : List Char) (t : Token) : Prop where
  nonempty : t.start < t.stop
  value : t.kind ≠ .string → t.value = some (String.ofList (stretch text t.start t.stop))
  quoted : t.kind = .string → ∃ body, stretch text t.start t.stop = '\x22' :: (body ++ ['\x22'])

/-- Tokens tile a text from an index on: gaps and the stretches of the tokens take turns up to the end of the text,
where the mark for the end of the input stands. -/
inductive Tiles (text : List Char) : Int → List Token → Prop where
  | ending {start line column : Int} (gap : GapBetween text start text.length) :
      Tiles text start [⟨.endOfInput, none, line, column, text.length, text.length⟩]
  | token {start : Int} {t : Token} {ts : List Token} (gap : GapBetween text start t.start)
      (inner : t.kind ≠ .endOfInput) (covers : t.Covers text) (rest : Tiles text t.stop ts) :
      Tiles text start (t :: ts)

/-! ### Gaps -/

/-- What is left of a comment goes up to the line feed, and a gap follows. -/
private theorem triviaFrom_split (inComment : Bool) (cs : List Char) {behind : List Char}
    (h : triviaFrom inComment cs ++ behind = cs) :
    ∃ words gap, triviaFrom inComment cs = words ++ gap ∧ '\n' ∉ words ∧ (inComment = false → words = []) ∧
      (inComment = true → ∀ c ∈ (gap ++ behind).head?, c = '\n') ∧ IsGap behind gap := by
  fun_induction triviaFrom inComment cs with
  | case1 inComment =>
    obtain rfl : behind = [] := h
    exact ⟨[], [], rfl, by simp, fun _ => rfl, by simp, .nothing⟩
  | case2 c cs ih =>
    obtain ⟨words, gap, hsplit, hwords, hnone, hend, hgap⟩ := ih (List.cons.inj h).2
    by_cases hc : c = '\n'
    · obtain rfl : words = [] := hnone (by simp [hc])
      exact ⟨[], c :: gap, by simp [hsplit], by simp, by simp, by simp [hc], .blank (by simp [hc]) hgap⟩
    · refine ⟨c :: words, gap, by simp [hsplit], ?_, by simp, fun _ => hend (by simp [hc]), hgap⟩
      simp [hwords, Ne.symm hc]
  | case3 cs ih =>
    obtain ⟨words, gap, hsplit, hwords, -, hend, hgap⟩ := ih (List.cons.inj (List.cons.inj h).2).2
    refine ⟨[], '/' :: '/' :: (words ++ gap), by simp [hsplit], by simp, fun _ => rfl, by simp, ?_⟩
    exact .comment hwords (hend rfl) hgap
  | case4 c cs _ hblank ih =>
    obtain ⟨words, gap, hsplit, -, hnone, -, hgap⟩ := ih (List.cons.inj h).2
    obtain rfl : words = [] := hnone rfl
    have hc : c ∈ [' ', '\t', '\r', '\n'] := by simpa [isBlank, or_assoc] using hblank
    exact ⟨[], c :: gap, by simp [hsplit], by simp, fun _ => rfl, by simp, .blank hc hgap⟩
  | case5 => exact ⟨[], [], rfl, by simp, fun _ => rfl, by simp, .nothing⟩

/-- The blanks and comments at the head of a text are a gap. -/
theorem isGap_trivia {gap behind : List Char} (h : trivia (gap ++ behind) = gap) : IsGap behind gap := by
  have hwhole : triviaFrom false (gap ++ behind) ++ behind = gap ++ behind := congrArg (· ++ behind) h
  obtain ⟨words, rest, heq, -, hnone, -, hgap⟩ := triviaFrom_split false (gap ++ behind) hwhole
  obtain rfl : words = [] := hnone rfl
  have hrest : gap = rest := h.symm.trans heq
  exact hrest ▸ hgap

/-- A comment is passed over up to its line feed. -/
private theorem triviaFrom_comment {words : List Char} (inLine : '\n' ∉ words) (cs : List Char) :
    triviaFrom true (words ++ cs) = words ++ triviaFrom true cs := by
  induction words with
  | nil => rfl
  | cons c words ih =>
    obtain ⟨hc, hwords⟩ := not_or.mp (List.mem_cons.not.mp inLine)
    have hgoes : (c != '\n') = true := bne_iff_ne.mpr (Ne.symm hc)
    rw [List.cons_append, triviaFrom, hgoes, ih hwords, List.cons_append]

/-- A comment is over before a line feed and at the end of a text. -/
private theorem triviaFrom_feed {cs : List Char} (lineEnds : ∀ c ∈ cs.head?, c = '\n') :
    triviaFrom true cs = triviaFrom false cs := by
  cases cs with
  | nil => rfl
  | cons c cs =>
    obtain rfl : c = '\n' := lineEnds c rfl
    rfl

/-- A gap is passed over as a whole. -/
theorem trivia_append_of_isGap {behind gap : List Char} (h : IsGap behind gap) :
    trivia (gap ++ behind) = gap ++ trivia behind := by
  unfold trivia
  induction h with
  | nothing => rfl
  | @blank c gap hblank _ ih =>
    have hc : isBlank c = true := by simpa [isBlank, or_assoc] using hblank
    have hslash : c ≠ '/' := by
      rintro rfl
      cases hc
    rw [List.cons_append, triviaFrom, if_pos hc, ih, List.cons_append]
    exact fun _ h => absurd h hslash
  | @comment words gap inLine lineEnds _ ih =>
    simp only [List.cons_append, List.append_assoc, triviaFrom]
    rw [triviaFrom_comment inLine, triviaFrom_feed lineEnds, ih]

/-- Only the start of what stands behind a gap matters for it. -/
theorem IsGap.of_isPrefix {behind behind' gap : List Char} (h : IsGap behind gap) (hstart : behind' <+: behind) :
    IsGap behind' gap := by
  induction h with
  | nothing => exact .nothing
  | blank blank _ ih => exact .blank blank ih
  | @comment words gap inLine lineEnds _ ih =>
    refine .comment inLine (fun c hc => lineEnds c ?_) ih
    obtain ⟨tail, rfl⟩ := hstart
    rw [← List.append_assoc, List.head?_append]
    exact Option.mem_def.mpr (by rw [Option.mem_def.mp hc, Option.some_or])

/-- Neither blank nor comment stands behind the blanks and comments at the head of a text. -/
theorem trivia_behind_trivia {gap behind : List Char} (h : trivia (gap ++ behind) = gap) : trivia behind = [] := by
  have hwhole := trivia_append_of_isGap (isGap_trivia h)
  rw [h] at hwhole
  exact List.self_eq_append_right.mp hwhole

/-! ### Lexemes -/

/-- A string literal that is closed ends with a quotation mark. -/
theorem StringBody.spelling_of_closed {cs : List Char} (h : (StringBody.read cs).closed = true) :
    ∃ body, (StringBody.read cs).spelling = body ++ ['\x22'] := by
  fun_induction StringBody.read cs with
  | case1 => cases h
  | case2 cs => exact ⟨[], rfl⟩
  | case3 => cases h
  | case4 c cs body d hd ih | case5 c cs body hn ih =>
    obtain ⟨inner, hinner⟩ := ih h
    exact ⟨'\\' :: c :: inner, congrArg ('\\' :: c :: ·) hinner⟩
  | case6 c cs hquote hlone hslash body ih =>
    obtain ⟨inner, hinner⟩ := ih h
    exact ⟨c :: inner, congrArg (c :: ·) hinner⟩

/-- A string literal is spelled between quotation marks. -/
theorem Lexeme.spelling_of_string {c : Char} {cs : List Char} (h : (Lexeme.read c cs).kind = .string) :
    ∃ body, (Lexeme.read c cs).spelling = '\x22' :: (body ++ ['\x22']) := by
  obtain ⟨rfl, hclosed, hread⟩ := Lexeme.read_of_string h
  obtain ⟨body, hbody⟩ := StringBody.spelling_of_closed hclosed
  rw [hread, Lexeme.string_spelling]
  exact ⟨body, congrArg ('\x22' :: ·) hbody⟩

/-! ### Stretches -/

theorem stretch_append (past middle behind : List Char) :
    stretch (past ++ (middle ++ behind)) past.length ((past.length + middle.length : Nat) : Int) = middle := by
  have htake : (past ++ (middle ++ behind)).take (past.length + middle.length) = past ++ middle := by
    rw [← List.append_assoc, ← List.length_append, List.take_left]
  simp only [stretch, Int.toNat_natCast, htake, List.drop_left]

theorem gapBetween_append {past gap behind : List Char} (h : IsGap behind gap) :
    GapBetween (past ++ (gap ++ behind)) past.length ((past.length + gap.length : Nat) : Int) := by
  have hdrop : (past ++ (gap ++ behind)).drop (past.length + gap.length) = behind := by
    rw [← List.append_assoc, ← List.length_append, List.drop_left]
  refine ⟨by omega, ?_⟩
  rw [stretch_append, Int.toNat_natCast, hdrop]
  exact h

/-- A lexeme stands where its spelling does. -/
theorem stretch_lexeme (c : Char) (rest : List Char) {past : List Char} {p : Place} (hp : p.offset = past.length) :
    stretch (past ++ c :: rest) p.offset (p.after (Lexeme.read c rest).spelling).offset =
      (Lexeme.read c rest).spelling := by
  obtain ⟨behind, hspelling⟩ := Lexeme.spelling_isPrefix c rest
  rw [Place.offset_after, hp]
  exact hspelling ▸ stretch_append _ _ _

/-- Behind a gap and a lexeme, the rest of the text starts. -/
theorem behind_lexeme (gap : List Char) (c : Char) (rest : List Char) {past : List Char} {p : Place}
    (hp : p.offset = past.length) :
    ((p.after gap).after (Lexeme.read c rest).spelling).offset =
        (past ++ gap ++ (Lexeme.read c rest).spelling).length ∧
      past ++ gap ++ (Lexeme.read c rest).spelling ++ (c :: rest).drop (Lexeme.read c rest).spelling.length =
        past ++ (gap ++ c :: rest) := by
  have hspelling := List.prefix_iff_eq_append.mp (Lexeme.spelling_isPrefix c rest)
  constructor
  · rw [Place.offset_after, Place.offset_after, hp, List.length_append, List.length_append]
  · rw [List.append_assoc _ _ (List.drop _ _), hspelling, List.append_assoc]

/-- The token of a lexeme covers its spelling. -/
private theorem covers_lexeme {past gap rest : List Char} {c : Char} {p : Place} (hp : p.offset = past.length) :
    (Piece.token ⟨gap, p, Lexeme.read c rest⟩).Covers (past ++ c :: rest) := by
  have hpos := Lexeme.length_pos c rest
  have hcovered := stretch_lexeme c rest hp
  constructor
  · simp only [Piece.token, Piece.stop, Place.offset_after]
    omega
  · intro hkind
    have hvalue := Lexeme.value_of_ne_string hkind
    rw [← hcovered] at hvalue
    exact congrArg some hvalue
  · intro hkind
    obtain ⟨body, hbody⟩ := Lexeme.spelling_of_string hkind
    exact ⟨body, hcovered.trans hbody⟩

/-- A token of a text stands behind some characters of it, before neither blank nor comment, and is made of the lexeme
that the rest of the text starts with. -/
structure Token.StandsAt (text past : List Char) (c : Char) (rest : List Char) (t : Token) : Prop where
  split : text = past ++ c :: rest
  apart : trivia (c :: rest) = []
  start : t.start = past.length
  stop : t.stop = (past.length + (Lexeme.read c rest).spelling.length : Nat)
  kind : t.kind = (Lexeme.read c rest).kind
  value : t.value = some (Lexeme.read c rest).value

/-- Every token but the mark for the end of the input stands somewhere in the text.  The tokens behind it are those of
the text behind its lexeme. -/
theorem exists_standsAt_of_scan (past cs : List Char) {p : Place} (hp : p.offset = past.length)
    {before behind : List Token} {t : Token} (h : (scan p cs).tokens = before ++ t :: behind)
    (ht : t.kind ≠ .endOfInput) :
    ∃ past' c rest, t.StandsAt (past ++ cs) past' c rest ∧
      ∃ q, behind = (scan q ((c :: rest).drop (Lexeme.read c rest).spelling.length)).tokens := by
  induction cs using scan_induction generalizing past p before with
  | blank cs hcs =>
    rw [scan_nil hcs] at h
    have hmem : t ∈ [Token.ending (p.after cs)] := by
      rw [show [Token.ending (p.after cs)] = before ++ t :: behind from h]
      exact List.mem_append_right _ List.mem_cons_self
    obtain rfl := List.mem_singleton.mp hmem
    exact absurd rfl ht
  | lexeme gap c rest hgap ih =>
    obtain ⟨hstop, htext⟩ := behind_lexeme gap c rest hp
    rw [tokens_scan_cons hgap] at h
    cases before with
    | nil =>
      obtain ⟨rfl, rfl⟩ := List.cons.inj h
      have hstart : (p.after gap).offset = (past ++ gap).length := by rw [Place.offset_after, hp, List.length_append]
      refine ⟨past ++ gap, c, rest, ⟨?_, trivia_behind_trivia hgap, ?_, ?_, rfl, rfl⟩, _, rfl⟩
      · rw [List.append_assoc]
      · exact congrArg Nat.cast hstart
      · show (((p.after gap).after (Lexeme.read c rest).spelling).offset : Int) = _
        rw [hstop, List.length_append]
    | cons u before =>
      have hrest := ih (past ++ gap ++ (Lexeme.read c rest).spelling) hstop (List.cons.inj h).2
      rwa [htext] at hrest

theorem exists_standsAt {text : List Char} {before behind : List Token} {t : Token}
    (h : tokenize text = before ++ t :: behind) (ht : t.kind ≠ .endOfInput) :
    ∃ past c rest, t.StandsAt text past c rest ∧
      ∃ q, behind = (scan q ((c :: rest).drop (Lexeme.read c rest).spelling.length)).tokens :=
  exists_standsAt_of_scan [] text rfl h ht

namespace Token.StandsAt

variable {text past rest : List Char} {c : Char} {t : Token}

/-- A token covers the spelling of its lexeme. -/
theorem stretch_eq (h : t.StandsAt text past c rest) :
    stretch text t.start t.stop = (Lexeme.read c rest).spelling := by
  obtain ⟨behind, hspelling⟩ := Lexeme.spelling_isPrefix c rest
  rw [h.split, h.start, h.stop, ← hspelling]
  exact stretch_append _ _ _

/-- What stands behind a token. -/
theorem drop_stop (h : t.StandsAt text past c rest) :
    text.drop t.stop.toNat = (c :: rest).drop (Lexeme.read c rest).spelling.length := by
  rw [h.split, h.stop, Int.toNat_natCast, List.drop_append, Nat.add_sub_cancel_left, List.drop_of_length_le (by omega),
    List.nil_append]

end Token.StandsAt

/-! ### Texts -/

/-- The tokens behind the first characters of a text tile the rest of it. -/
theorem tiles_scan (past cs : List Char) {p : Place} (hp : p.offset = past.length) :
    Tiles (past ++ cs) past.length (scan p cs).tokens := by
  induction cs using scan_induction generalizing past p with
  | blank cs hcs =>
    have htrivia : trivia (cs ++ []) = cs := by rw [List.append_nil, hcs]
    have hgap : GapBetween (past ++ (cs ++ [])) past.length ((past.length + cs.length : Nat) : Int) :=
      gapBetween_append (isGap_trivia htrivia)
    have hstop : (p.after cs).offset = (past ++ cs).length := by rw [Place.offset_after, hp, List.length_append]
    rw [List.append_nil, ← List.length_append] at hgap
    rw [scan_nil hcs]
    simp only [Scanned.tokens, List.map_nil, List.nil_append, Token.ending, hstop]
    exact .ending hgap
  | lexeme gap c rest hgap ih =>
    have hstart : (p.after gap).offset = (past ++ gap).length := by rw [Place.offset_after, hp, List.length_append]
    obtain ⟨hstop, htext⟩ := behind_lexeme gap c rest hp
    have hrest := ih _ hstop
    rw [htext, ← hstop] at hrest
    rw [tokens_scan_cons hgap]
    refine .token ?_ (Lexeme.read_kind_ne_endOfInput c rest) ?_ hrest
    · show GapBetween _ _ ((p.after gap).offset : Int)
      rw [hstart, List.length_append]
      exact gapBetween_append (isGap_trivia hgap)
    · rw [← List.append_assoc]
      exact covers_lexeme hstart

/-- The tokens of a text tile it. -/
theorem tokenize_tiles (text : List Char) : Tiles text 0 (tokenize text) :=
  tiles_scan [] text rfl

end ScopeLint
