import ScopeLint.Proofs.Token.Tiling

/-!
# Slices of a text

Tokens in a row cover a slice of their text.  Written one behind the other, with a space wherever a gap stands between
two of them (`gappedText`), they give the slice with every run of blanks and comments in it made one space
(`collapsed`), unless a string literal is among them (`toList_gappedText`).
-/

namespace ScopeLint

/-- A text with every run of blanks and comments in it made one space. -/
def collapsed : List Char → List Char
  | [] => []
  | c :: cs =>
    if trivia (c :: cs) = [] then c :: collapsed cs
    else ' ' :: collapsed (cs.drop ((trivia (c :: cs)).length - 1))
termination_by cs => cs.length
decreasing_by
  · exact Nat.lt_succ_self _
  · rw [List.length_drop, List.length_cons]
    omega

/-- The values of tokens, with a space wherever something of the text stands between two of them. -/
def gappedText (text : List Char) : List Token → String
  | [] => ""
  | [t] => t.text
  | t :: u :: rest => t.text ++ (if stretch text t.stop u.start = [] then "" else " ") ++ gappedText text (u :: rest)

/-! ### Runs of blanks and comments -/

/-- A text in which neither blanks nor comments stand is kept. -/
theorem collapsed_append {cs behind : List Char} (h : ∀ vs, vs ≠ [] → vs <:+ cs → trivia (vs ++ behind) = []) :
    collapsed (cs ++ behind) = cs ++ collapsed behind := by
  induction cs with
  | nil => rfl
  | cons c cs ih =>
    have hnone : trivia (c :: (cs ++ behind)) = [] := h (c :: cs) (List.cons_ne_nil _ _) List.suffix_rfl
    have hbehind := ih fun vs hne hvs => h vs hne (hvs.trans (List.suffix_cons c cs))
    rw [List.cons_append, collapsed, if_pos hnone, hbehind, List.cons_append]

/-- A run of blanks and comments becomes one space. -/
theorem collapsed_gap {gap behind : List Char} (h : trivia (gap ++ behind) = gap) :
    collapsed (gap ++ behind) = (if gap = [] then [] else [' ']) ++ collapsed behind := by
  cases gap with
  | nil => rfl
  | cons c gap =>
    have hsome : trivia (c :: (gap ++ behind)) ≠ [] := by
      rw [← List.cons_append, h]
      exact List.cons_ne_nil _ _
    rw [List.cons_append, collapsed, if_neg hsome, ← List.cons_append, h, List.length_cons, Nat.add_sub_cancel,
      List.drop_left, if_neg (List.cons_ne_nil _ _), List.singleton_append]

/-- Where a text starts with neither blank nor comment, each part of it does that starts there. -/
theorem trivia_of_isPrefix {cs ds : List Char} (h : trivia ds = []) (hstart : cs <+: ds) : trivia cs = [] := by
  obtain ⟨tail, rfl⟩ := hstart
  cases cs with
  | nil => rfl
  | cons c cs =>
    obtain ⟨hblank, hcomment⟩ := trivia_eq_nil_iff.mp h
    exact trivia_eq_nil hblank fun hslashes => hcomment (hslashes.trans (List.prefix_append _ tail))

/-! ### Lexemes -/

private theorem solid_of_class {p : Char → Bool} (hblank : ∀ {d : Char}, isBlank d = true → p d = false)
    (hslash : p '/' = false) {d : Char} (h : p d = true) : isBlank d = false ∧ d ≠ '/' := by
  constructor
  · by_contra hd
    rw [hblank (Bool.not_eq_false _ ▸ hd)] at h
    cases h
  · rintro rfl
    rw [hslash] at h
    cases h

private theorem solid_of_isNumberPart {d : Char} (h : isNumberPart d = true) : isBlank d = false ∧ d ≠ '/' :=
  solid_of_class (fun hblank => (parts_of_isBlank hblank).1) (by decide) h

private theorem solid_of_isNamePart {d : Char} (h : isNamePart d = true) : isBlank d = false ∧ d ≠ '/' :=
  solid_of_class (fun hblank => (parts_of_isBlank hblank).2.1) (by decide) h

private theorem solid_of_mem_fraction {cs : List Char} {d : Char} (h : d ∈ Lexeme.fraction cs) :
    isBlank d = false ∧ d ≠ '/' := by
  unfold Lexeme.fraction at h
  split at h
  · split at h
    · rcases List.mem_cons.mp h with rfl | hmem
      · decide
      · exact solid_of_isNumberPart (List.mem_takeWhile_imp hmem)
    · cases h
  · cases h

private theorem symbols_tail_solid :
    ∀ entry ∈ symbols, (entry.1.toList.tail.all fun d => !isBlank d && d != '/') = true := by
  decide

/-- Behind its first character, a lexeme that is no string literal has neither blanks nor slashes. -/
theorem Lexeme.tail_spelling {c : Char} {cs : List Char} (hquote : c ≠ '\x22') :
    ∀ d ∈ (Lexeme.read c cs).spelling.tail, isBlank d = false ∧ d ≠ '/' := by
  intro d hd
  unfold Lexeme.read at hd
  split at hd
  · have hmem := List.mem_of_mem_tail hd
    rw [Lexeme.spelling_number] at hmem
    rcases List.mem_append.mp hmem with hmem | hmem
    · exact solid_of_isNumberPart (List.mem_takeWhile_imp hmem)
    · exact solid_of_mem_fraction hmem
  split at hd
  · exact solid_of_isNamePart (List.mem_takeWhile_imp (List.mem_of_mem_tail hd))
  unfold Lexeme.symbol at hd
  split at hd
  · next entry hfind =>
    have hsolid := List.all_eq_true.mp (symbols_tail_solid entry (List.mem_of_find?_eq_some hfind)) d hd
    simpa using hsolid
  · cases hd

/-- Neither blanks nor comments start inside a lexeme that is no string literal, however little of the text stands
behind it. -/
theorem Lexeme.trivia_suffix {c : Char} {cs vs behind : List Char} (hquote : c ≠ '\x22')
    (hapart : trivia (c :: cs) = []) (hne : vs ≠ []) (hvs : vs <:+ (Lexeme.read c cs).spelling)
    (hbehind : behind <+: (c :: cs).drop (Lexeme.read c cs).spelling.length) : trivia (vs ++ behind) = [] := by
  obtain ⟨front, hfront⟩ := hvs
  cases front with
  | nil =>
    have hwhole := List.prefix_iff_eq_append.mp (Lexeme.spelling_isPrefix c cs)
    obtain ⟨rest, hrest⟩ := hbehind
    refine trivia_of_isPrefix hapart ⟨rest, ?_⟩
    rw [List.append_assoc, hrest, ← hwhole, ← hfront]
    simp
  | cons d front =>
    obtain ⟨e, tail, rfl⟩ := List.exists_cons_of_ne_nil hne
    have hmem : e ∈ (Lexeme.read c cs).spelling.tail := by
      rw [← hfront]
      exact List.mem_append_right front List.mem_cons_self
    obtain ⟨hblank, hslash⟩ := Lexeme.tail_spelling hquote e hmem
    exact trivia_eq_nil hblank fun hslashes => hslash (List.cons_prefix_cons.mp hslashes).1.symm

/-! ### Stretches of a text -/

theorem stretch_eq_take (text : List Char) (start stop : Int) :
    stretch text start stop = (text.drop start.toNat).take (stop.toNat - start.toNat) :=
  List.drop_take

theorem stretch_isPrefix (text : List Char) (start stop : Int) : stretch text start stop <+: text.drop start.toNat := by
  rw [stretch_eq_take]
  exact List.take_prefix _ _

theorem stretch_append_stretch (text : List Char) {start middle stop : Int} (hfirst : start ≤ middle)
    (hlast : middle ≤ stop) : stretch text start middle ++ stretch text middle stop = stretch text start stop := by
  have hmiddle : start.toNat + (middle.toNat - start.toNat) = middle.toNat := by omega
  have hstop : stop.toNat - start.toNat = (middle.toNat - start.toNat) + (stop.toNat - middle.toNat) := by omega
  rw [stretch_eq_take, stretch_eq_take, stretch_eq_take, hstop, List.take_add, List.drop_drop, hmiddle]

/-- Nothing stands between two indices of a text if and only if they are the same. -/
theorem stretch_eq_nil_iff {text : List Char} {start stop : Int} (hstart : 0 ≤ start) (hle : start ≤ stop)
    (hstop : stop ≤ text.length) : stretch text start stop = [] ↔ start = stop := by
  rw [← List.length_eq_zero_iff, stretch_eq_take, List.length_take, List.length_drop]
  omega

/-! ### Tokens in their order -/

namespace Tiles

variable {text : List Char} {start : Int} {ts us : List Token} {t : Token}

theorem le_length (h : Tiles text start ts) : start ≤ text.length := by
  induction h with
  | ending gap => exact gap.1
  | token gap _ covers _ ih =>
    have hcovers := covers.nonempty
    have hgap := gap.1
    omega

/-- The tokens behind an index lie between it and the end of the text. -/
theorem bounds (h : Tiles text start ts) : ∀ t ∈ ts, start ≤ t.start ∧ t.start ≤ t.stop ∧ t.stop ≤ text.length := by
  induction h with
  | ending gap =>
    intro t ht
    obtain rfl := List.mem_singleton.mp ht
    exact ⟨gap.1, Int.le_refl _, Int.le_refl _⟩
  | @token start t ts gap _ covers rest ih =>
    have hlength := rest.le_length
    have hcovers := covers.nonempty
    have hgap := gap.1
    intro u hu
    rcases List.mem_cons.mp hu with rfl | hu
    · exact ⟨hgap, by omega, hlength⟩
    · obtain ⟨hstart, hstop⟩ := ih u hu
      exact ⟨by omega, hstop⟩

/-- Every token ends before the next ones start. -/
theorem pairwise (h : Tiles text start ts) : ts.Pairwise fun t u => t.start < t.stop ∧ t.stop ≤ u.start := by
  induction h with
  | ending => exact List.pairwise_singleton _ _
  | token _ _ covers rest ih =>
    exact List.pairwise_cons.mpr ⟨fun u hu => ⟨covers.nonempty, (rest.bounds u hu).1⟩, ih⟩

theorem gap (h : Tiles text start (t :: ts)) : GapBetween text start t.start := by
  cases h with
  | ending gap => exact gap
  | token gap => exact gap

/-- No token of those in a row ends before the first one starts. -/
theorem start_le_stop (h : Tiles text start (t :: ts)) : ∀ u ∈ t :: ts, t.start ≤ u.stop := by
  have hpairwise := List.pairwise_cons.mp h.pairwise
  intro u hu
  have hbounds := h.bounds u hu
  rcases List.mem_cons.mp hu with rfl | hu
  · exact hbounds.2.1
  · have hafter := hpairwise.1 u hu
    omega

/-- Tokens in a row lie between the start of the first one and the end of the last one. -/
theorem within {last : Token} (h : Tiles text start (t :: ts ++ us)) (hlast : (t :: ts).getLast? = some last) :
    ∀ u ∈ t :: ts, t.start ≤ u.start ∧ u.stop ≤ last.stop := by
  have hsorted := (List.pairwise_append.mp h.pairwise).1
  have hbounds := h.bounds last (List.mem_append_left _ (List.mem_of_getLast? hlast))
  intro u hu
  constructor
  · rcases List.mem_cons.mp hu with rfl | htail
    · exact Int.le_refl _
    · have htu := (List.pairwise_cons.mp hsorted).1 u htail
      omega
  · obtain ⟨init, hinit⟩ := List.getLast?_eq_some_iff.mp hlast
    rw [hinit] at hu hsorted
    rcases List.mem_append.mp hu with hfront | hend
    · have hulast := (List.pairwise_append.mp hsorted).2.2 u hfront last (List.mem_singleton_self last)
      omega
    · rw [List.mem_singleton.mp hend]

/-- Only the mark for the end of the input covers nothing. -/
theorem start_lt_stop (h : Tiles text start ts) : ∀ t ∈ ts, t.kind ≠ .endOfInput → t.start < t.stop := by
  induction h with
  | ending =>
    intro t ht hkind
    obtain rfl := List.mem_singleton.mp ht
    exact absurd rfl hkind
  | token _ _ covers _ ih => exact List.forall_mem_cons.mpr ⟨fun _ => covers.nonempty, ih⟩

/-- The last tokens of a text tile the rest of it. -/
theorem of_append (h : Tiles text start (us ++ ts)) (hne : ts ≠ []) :
    ∃ middle, start ≤ middle ∧ Tiles text middle ts := by
  induction us generalizing start with
  | nil => exact ⟨start, Int.le_refl _, h⟩
  | cons u us ih =>
    generalize hall : u :: us ++ ts = all at h
    cases h with
    | ending => exact absurd (List.append_eq_nil_iff.mp (List.cons.inj hall).2).2 hne
    | token gap _ covers rest =>
      obtain ⟨rfl, rfl⟩ := List.cons.inj hall
      obtain ⟨middle, hle, hrest⟩ := ih rest
      have hcovers := covers.nonempty
      have hgap := gap.1
      exact ⟨middle, by omega, hrest⟩

end Tiles

/-! ### Tokens in a row -/

/-- A token that means the characters that it covers, among which neither blanks nor comments start. -/
structure Token.Solid (text : List Char) (t : Token) : Prop where
  value : t.text = String.ofList (stretch text t.start t.stop)
  starts : trivia (text.drop t.start.toNat) = []
  apart : ∀ vs behind, vs ≠ [] → vs <:+ stretch text t.start t.stop → behind <+: text.drop t.stop.toNat →
    trivia (vs ++ behind) = []

/-- Every token but a string literal, closed or left open, is solid. -/
theorem Token.StandsAt.solid {text past rest : List Char} {c : Char} {t : Token} (h : t.StandsAt text past c rest)
    (hquote : c ≠ '\x22') : t.Solid text := by
  have hkind : (Lexeme.read c rest).kind ≠ .string := fun hkind => hquote (Lexeme.read_of_string hkind).1
  constructor
  · rw [Token.text, h.value, h.stretch_eq, Option.getD_some, Lexeme.value_of_ne_string hkind]
  · rw [h.split, h.start, Int.toNat_natCast, List.drop_left]
    exact h.apart
  · intro vs behind hne hvs hbehind
    rw [h.stretch_eq] at hvs
    rw [h.drop_stop] at hbehind
    exact Lexeme.trivia_suffix hquote h.apart hne hvs hbehind

/-- Solid tokens in a row spell the slice of the text that they cover, with every run of blanks and comments in it made
one space. -/
theorem toList_gappedText {text : List Char} {start : Int} {t : Token} {ts behind : List Token}
    (htiles : Tiles text start (t :: ts ++ behind)) (hinner : ∀ u ∈ t :: ts, u.kind ≠ .endOfInput)
    (hsolid : ∀ u ∈ t :: ts, u.Solid text) {last : Token} (hlast : (t :: ts).getLast? = some last) :
    (gappedText text (t :: ts)).toList = collapsed (stretch text t.start last.stop) := by
  induction ts generalizing t start with
  | nil =>
    obtain rfl : t = last := Option.some.inj hlast
    have ht := hsolid t List.mem_cons_self
    have hkept : collapsed (stretch text t.start t.stop ++ []) = stretch text t.start t.stop ++ collapsed [] :=
      collapsed_append fun vs hne hvs => ht.apart vs [] hne hvs List.nil_prefix
    rw [List.append_nil, collapsed, List.append_nil] at hkept
    rw [gappedText, ht.value, String.toList_ofList, hkept]
  | cons u ts ih =>
    have ht := hsolid t List.mem_cons_self
    have hu := hsolid u (List.mem_cons_of_mem _ List.mem_cons_self)
    have hmem : last ∈ u :: ts := by
      rw [List.getLast?_cons_cons] at hlast
      exact List.mem_of_getLast? hlast
    cases htiles with
    | token _ _ covers rest =>
      have hrest := ih rest (fun v hv => hinner v (List.mem_cons_of_mem _ hv))
        (fun v hv => hsolid v (List.mem_cons_of_mem _ hv)) (by rwa [List.getLast?_cons_cons] at hlast)
      obtain ⟨hle, hgap⟩ := rest.gap
      have hbefore : u.start ≤ last.stop := rest.start_le_stop last (List.mem_append_left _ hmem)
      have hslice : stretch text t.start last.stop =
          stretch text t.start t.stop ++ (stretch text t.stop u.start ++ stretch text u.start last.stop) := by
        have hcovers := covers.nonempty
        rw [stretch_append_stretch text hle hbefore, stretch_append_stretch text (by omega) (by omega)]
      -- What the two tokens cover is kept, and the gap between them is a run of blanks and comments as a whole.
      have hkept := collapsed_append fun vs hne hvs =>
        ht.apart vs (stretch text t.stop u.start ++ stretch text u.start last.stop) hne hvs
          (by rw [stretch_append_stretch text hle hbefore]; exact stretch_isPrefix text _ _)
      have hnext : trivia (stretch text u.start last.stop) = [] :=
        trivia_of_isPrefix hu.starts (stretch_isPrefix text _ _)
      have hrun : trivia (stretch text t.stop u.start ++ stretch text u.start last.stop) =
          stretch text t.stop u.start := by
        rw [trivia_append_of_isGap (hgap.of_isPrefix (stretch_isPrefix text _ _)), hnext, List.append_nil]
      rw [hslice, hkept, collapsed_gap hrun, ← hrest, gappedText, String.toList_append, String.toList_append, ht.value,
        String.toList_ofList, List.append_assoc]
      split <;> rfl

end ScopeLint
