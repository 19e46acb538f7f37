import ScopeLint.Report
import ScopeLint.Proofs.Check.Names

/-!
# Colour adds codes only

A code is an escape character, an opening bracket, digits and the letter `m`.  A text without its codes
(`withoutCodes`) is read off from left to right, whatever stands behind (`Sheds`).

* `Report.sheds_text`: a coloured report without its codes is the plain report, if no message has an escape character.
* `Report.withoutCodes_text`: this is so for whatever the check of a text finds, since the names of a text have neither
  escape characters nor line feeds.
-/

namespace ScopeLint

/-- The number of characters of the code at the head of a text; zero if there is none. -/
def codeLength : List Char → Nat
  | '\x1b' :: '[' :: cs =>
    let digits := cs.takeWhile Char.isDigit
    if digits ≠ [] ∧ (cs.drop digits.length).head? = some 'm' then digits.length + 3 else 0
  | _ => 0

/-- The text without its codes, of which some characters at the head are passed over. -/
def withoutCodesFrom : Nat → List Char → List Char
  | _, [] => []
  | 0, c :: cs =>
    match codeLength (c :: cs) with
    | 0 => c :: withoutCodesFrom 0 cs
    | more + 1 => withoutCodesFrom more cs
  | passed + 1, _ :: cs => withoutCodesFrom passed cs

/-- The text without its codes. -/
def withoutCodes (cs : List Char) : List Char :=
  withoutCodesFrom 0 cs

/-- Without codes, the one text is the other, wherever it stands before something. -/
def Sheds (cs ds : List Char) : Prop :=
  ∀ rest, withoutCodes (cs ++ rest) = ds ++ withoutCodes rest

/-! ### Codes -/

theorem withoutCodesFrom_eq (passed : Nat) (cs : List Char) :
    withoutCodesFrom passed cs = withoutCodes (cs.drop passed) := by
  induction passed generalizing cs with
  | zero => rfl
  | succ passed ih =>
    cases cs with
    | nil => rfl
    | cons c cs => exact ih cs

theorem codeLength_of_ne_escape {c : Char} (hc : c ≠ '\x1b') (cs : List Char) : codeLength (c :: cs) = 0 := by
  rw [codeLength]
  exact fun _ h => absurd (List.cons.inj h).1 hc

theorem withoutCodes_cons {c : Char} (hc : c ≠ '\x1b') (cs : List Char) :
    withoutCodes (c :: cs) = c :: withoutCodes cs := by
  rw [withoutCodes, withoutCodesFrom, codeLength_of_ne_escape hc]
  rfl

/-- The length of a code, whatever stands behind it. -/
theorem codeLength_code {digits : List Char} (hne : digits ≠ []) (hdigits : ∀ c ∈ digits, c.isDigit = true)
    (rest : List Char) : codeLength ('\x1b' :: '[' :: (digits ++ 'm' :: rest)) = digits.length + 3 := by
  have htake : (digits ++ 'm' :: rest).takeWhile Char.isDigit = digits :=
    takeWhile_append_stop hdigits (by simp)
  rw [codeLength]
  simp [htake, hne]

namespace Sheds

variable {cs ds cs' ds' : List Char}

theorem eq (h : Sheds cs ds) : withoutCodes cs = ds := by
  have hend := h []
  rwa [List.append_nil, show withoutCodes [] = [] from rfl, List.append_nil] at hend

theorem nil : Sheds [] [] :=
  fun _ => rfl

theorem append (h : Sheds cs ds) (h' : Sheds cs' ds') : Sheds (cs ++ cs') (ds ++ ds') := by
  intro rest
  rw [List.append_assoc, h, h', List.append_assoc]

theorem flatMap {α : Type} {as : List α} {f g : α → List Char} (h : ∀ a ∈ as, Sheds (f a) (g a)) :
    Sheds (as.flatMap f) (as.flatMap g) := by
  induction as with
  | nil => exact .nil
  | cons a as ih =>
    obtain ⟨ha, has⟩ := List.forall_mem_cons.mp h
    exact ha.append (ih has)

/-- A text without escape characters has no codes. -/
theorem plain (h : '\x1b' ∉ cs) : Sheds cs cs := by
  intro rest
  induction cs with
  | nil => rfl
  | cons c cs ih =>
    obtain ⟨hc, hcs⟩ := List.ne_and_not_mem_of_not_mem_cons h
    rw [List.cons_append, withoutCodes_cons hc.symm, ih hcs, List.cons_append]

theorem code {digits : List Char} (hne : digits ≠ []) (hdigits : ∀ c ∈ digits, c.isDigit = true) :
    Sheds ('\x1b' :: '[' :: (digits ++ ['m'])) [] := by
  intro rest
  have htext : '\x1b' :: '[' :: (digits ++ ['m']) ++ rest = '\x1b' :: '[' :: (digits ++ 'm' :: rest) := by simp
  rw [htext, withoutCodes, withoutCodesFrom, codeLength_code hne hdigits]
  show withoutCodesFrom (digits.length + 2) _ = _
  rw [withoutCodesFrom_eq]
  congr 1
  simp [List.drop_append]

end Sheds

/-! ### Reports -/

/-- The digits of a number have no escape character among them. -/
theorem isDigit_of_mem_toString {n : Nat} {c : Char} (h : c ∈ (toString n).toList) : c.isDigit = true := by
  rw [Nat.toString_eq_ofList_toDigits, String.toList_ofList] at h
  exact Nat.isDigit_of_mem_toDigits (by decide) (by decide) h

namespace Report

theorem sheds_escape (n : Nat) : Sheds (escape (toString n)).toList [] := by
  have hcode : (escape (toString n)).toList = '\x1b' :: '[' :: ((toString n).toList ++ ['m']) := by
    simp [escape]
  rw [hcode]
  exact .code (by simp) fun _ => isDigit_of_mem_toString

theorem sheds_style (severity : Severity) : Sheds (style severity).toList [] := by
  cases severity with
  | warning => exact sheds_escape 33
  | error =>
    rw [style, String.toList_append]
    exact (sheds_escape 1).append (sheds_escape 91)

/-- Without its codes, a text in a style is the text. -/
theorem sheds_styled {style text : String} (hstyle : Sheds style.toList []) (htext : '\x1b' ∉ text.toList) :
    Sheds (styled true style text).toList (styled false style text).toList := by
  have hreset : Sheds (escape "0").toList [] := sheds_escape 0
  have hsheds := (hstyle.append (.plain htext)).append hreset
  rw [List.append_nil, List.nil_append, ← String.toList_append, ← String.toList_append] at hsheds
  exact hsheds

theorem sheds_line {d : Diagnostic} (hd : '\x1b' ∉ d.message.toList) :
    Sheds (line true d).toList (line false d).toList := by
  have hhead : '\x1b' ∉ (glyph d.severity ++ " " ++ d.severity.word).toList := by
    cases d.severity <;> decide
  have hcolon : Sheds ": ".toList ": ".toList := .plain (by decide)
  rw [line, line, String.toList_append, String.toList_append, String.toList_append, String.toList_append]
  exact ((sheds_styled (sheds_style _) hhead).append hcolon).append (.plain hd)

/-- The characters of a count are digits and those of its words. -/
theorem mem_counted {count : Nat} {noun : String} {c : Char} (h : c ∈ (counted count noun).toList) :
    c.isDigit = true ∨ c ∈ (" " ++ noun ++ "s").toList := by
  simp only [counted, String.toList_append, List.mem_append] at h ⊢
  rcases h with ((h | h) | h) | h
  · exact .inl (isDigit_of_mem_toString h)
  · exact .inr (.inl (.inl h))
  · exact .inr (.inl (.inr h))
  · split at h
    · nomatch h
    · exact .inr (.inr h)

theorem mem_summary {ds : List Diagnostic} {c : Char} (h : c ∈ (summary false ds).toList) :
    c.isDigit = true ∨ c ∈ " warnings, errors".toList := by
  have hplain : (summary false ds).toList = (counted (tally .warning ds) "warning").toList ++ ", ".toList ++
      (counted (tally .error ds) "error").toList := by
    rw [← String.toList_append, ← String.toList_append]
    rfl
  have hwords : ∀ words ∈ [" " ++ "warning" ++ "s", ", ", " " ++ "error" ++ "s"],
      words.toList ⊆ " warnings, errors".toList := by decide
  simp only [List.forall_mem_cons] at hwords
  obtain ⟨hwarning, hcomma, herror, -⟩ := hwords
  rw [hplain, List.mem_append, List.mem_append] at h
  rcases h with (h | h) | h
  · exact (mem_counted h).imp_right fun h => hwarning h
  · exact .inr (hcomma h)
  · exact (mem_counted h).imp_right fun h => herror h

theorem escape_notMem_summary (ds : List Diagnostic) : '\x1b' ∉ (summary false ds).toList :=
  fun h => (mem_summary h).elim (by decide) (by decide)

theorem sheds_summary (ds : List Diagnostic) : Sheds (summary true ds).toList (summary false ds).toList :=
  sheds_styled (sheds_escape 90) (escape_notMem_summary ds)

/-- Without its codes, the line that counts diagnostics is the plain one. -/
theorem withoutCodes_summary (color : Bool) (ds : List Diagnostic) :
    withoutCodes (summary color ds).toList = (summary false ds).toList := by
  cases color with
  | false => exact (Sheds.plain (escape_notMem_summary ds)).eq
  | true => exact (sheds_summary ds).eq

/-- The characters of a report: its lines, each with a line feed behind it. -/
theorem toList_text (color : Bool) (ds : List Diagnostic) :
    (text color ds).toList =
      ds.flatMap (fun d => (line color d).toList ++ ['\n']) ++ ((summary color ds).toList ++ ['\n']) := by
  simp [text, lines, String.toList_join, List.flatMap_map]

/-- Without its codes, a coloured report is the plain report. -/
theorem sheds_text {ds : List Diagnostic} (hds : ∀ d ∈ ds, '\x1b' ∉ d.message.toList) :
    Sheds (text true ds).toList (text false ds).toList := by
  have hfeed : Sheds ['\n'] ['\n'] := .plain (by decide)
  rw [toList_text, toList_text]
  exact (Sheds.flatMap fun d hd => (sheds_line (hds d hd)).append hfeed).append ((sheds_summary ds).append hfeed)

/-! ### Findings -/

/-- A message about a name has only the characters of the name and of its own words. -/
theorem not_mem_message {c : Char} (hc : isNamePart c = false)
    (hwords : ∀ words ∈ ["`", "` not defined", "` never used"], c ∉ words.toList) {name : String}
    (hname : ∀ c ∈ name.toList, isNamePart c = true) {d : Diagnostic} (hd : d = .undefined name ∨ d = .unused name) :
    c ∉ d.message.toList := by
  have hown : c ∉ name.toList := fun hmem => Bool.eq_false_iff.mp hc (hname c hmem)
  simp only [List.forall_mem_cons] at hwords
  obtain ⟨hquote, hundefined, hunused, -⟩ := hwords
  rcases hd with rfl | rfl
  · simp only [Diagnostic.undefined, String.toList_append, List.mem_append, not_or]
    exact ⟨⟨hquote, hown⟩, hundefined⟩
  · simp only [Diagnostic.unused, String.toList_append, List.mem_append, not_or]
    exact ⟨⟨hquote, hown⟩, hunused⟩

/-- Colour adds codes only.  A coloured report without its codes is the plain report, if no message has an escape
character; and whatever the check of a text finds, no message has one, nor a line feed. -/
theorem withoutCodes_text :
    (∀ ds : List Diagnostic, (∀ d ∈ ds, '\x1b' ∉ d.message.toList) →
      withoutCodes (text true ds).toList = (text false ds).toList) ∧
    ∀ source m, Module.ofTokens (tokenize source) = .ok m → ∃ found, m.check.value = .ok found ∧
      (∀ d ∈ found, '\x1b' ∉ d.message.toList ∧ '\n' ∉ d.message.toList) ∧
      withoutCodes (text true found).toList = (text false found).toList := by
  refine ⟨fun ds hds => (sheds_text hds).eq, fun source m hm => ?_⟩
  obtain ⟨found, hfound, hnames⟩ := Module.name_of_found hm
  have hmessages : ∀ d ∈ found, '\x1b' ∉ d.message.toList ∧ '\n' ∉ d.message.toList := by
    intro d hd
    obtain ⟨name, hsort, hname, -⟩ := hnames d hd
    exact ⟨not_mem_message (by decide) (by decide) hname hsort, not_mem_message (by decide) (by decide) hname hsort⟩
  exact ⟨found, hfound, hmessages, (sheds_text fun d hd => (hmessages d hd).1).eq⟩

/-- A function with an unused parameter, which refers to a name that is not defined. -/
def twoFindingsText : List Char :=
  "fn f(x) \x7b y \x7d".toList

/-- Messages that look like the start and the end of a code do no harm. -/
theorem withoutCodes_twoFindingsText :
    (∀ d ∈ [Diagnostic.undefined "[33m", .unused "1m"], '\x1b' ∉ d.message.toList) ∧
    withoutCodes (text true [.undefined "[33m", .unused "1m"]).toList =
      (text false [.undefined "[33m", .unused "1m"]).toList ∧
    ∃ m found, Module.ofTokens (tokenize twoFindingsText) = .ok m ∧ m.check.value = .ok found ∧
      (∀ d ∈ found, '\x1b' ∉ d.message.toList ∧ '\n' ∉ d.message.toList) ∧
      withoutCodes (text true found).toList = (text false found).toList := by
  have hplain : ∀ d ∈ [Diagnostic.undefined "[33m", .unused "1m"], '\x1b' ∉ d.message.toList := by decide
  obtain ⟨m, hm⟩ : ∃ m, Module.ofTokens (tokenize twoFindingsText) = .ok m :=
    Module.exists_of_isSome (by decide +kernel)
  obtain ⟨found, hfound⟩ := withoutCodes_text.2 twoFindingsText m hm
  exact ⟨hplain, withoutCodes_text.1 _ hplain, m, found, hm, hfound⟩

end Report

end ScopeLint
