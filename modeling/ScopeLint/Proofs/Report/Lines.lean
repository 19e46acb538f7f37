import ScopeLint.Proofs.Report.Codes

/-!
# Reports are read back

A report is cut at its line feeds into one line for each diagnostic and the line that counts them, whatever the
messages look like, as long as they have no line feed themselves.

* `Report.splitOn_text`: the lines of a report.
* `Report.numbersIn_summary`: the numbers in the last line count the warnings and the errors.
* `Report.line_injective`: a line tells its diagnostic, since the head of no line starts with the head for another
  severity.
* `Report.reads_back`: so a report tells its diagnostics.
-/

namespace ScopeLint

/-- The numbers that are written in a text: its longest runs of digits. -/
def numbersIn (cs : List Char) : List Nat :=
  ((cs.splitOnP fun c => !c.isDigit).filter fun digits => digits ≠ []).map fun digits => Nat.ofDigitChars 10 digits 0

/-! ### Numbers -/

/-- Characters that are no digits have no numbers. -/
theorem numbersIn_append {cs : List Char} (hcs : cs.any Char.isDigit = false) (rest : List Char) :
    numbersIn (cs ++ rest) = numbersIn rest := by
  induction cs with
  | nil => rfl
  | cons c cs ih =>
    obtain ⟨hc, hcs⟩ := Bool.or_eq_false_iff.mp hcs
    rw [← ih hcs, List.cons_append, numbersIn, List.splitOnP_cons_eq_if_modifyHead, if_pos (by simp [hc])]
    rfl

/-- A number that no digit follows is read back. -/
theorem numbersIn_toString_append (n : Nat) {c : Char} (hc : c.isDigit = false) (rest : List Char) :
    numbersIn ((toString n).toList ++ c :: rest) = n :: numbersIn rest := by
  have hdigits : ∀ d ∈ (toString n).toList, (!d.isDigit) = false := fun d hd => by simp [isDigit_of_mem_toString hd]
  have hne : (toString n).toList ≠ [] := by simp
  have hvalue : Nat.ofDigitChars 10 (toString n).toList 0 = n := by
    rw [Nat.toString_eq_ofList_toDigits, String.toList_ofList, Nat.ofDigitChars_ten_toDigits]
  rw [numbersIn, List.splitOnP_append_cons_of_forall_mem hdigits c (by simp [hc]),
    List.filter_cons_of_pos (by exact decide_eq_true hne), List.map_cons, hvalue]
  rfl

/-! ### Lines -/

/-- Lines that have no line feed are cut apart behind one another. -/
theorem splitOn_lines {ls : List (List Char)} (hls : ∀ l ∈ ls, '\n' ∉ l) (rest : List Char) :
    (ls.flatMap (· ++ ['\n']) ++ rest).splitOn '\n' = ls ++ rest.splitOn '\n' := by
  induction ls with
  | nil => rfl
  | cons l ls ih =>
    obtain ⟨hl, hls⟩ := List.forall_mem_cons.mp hls
    have hcut := List.splitOn_append_cons_self_of_not_mem hl (ls.flatMap (· ++ ['\n']) ++ rest)
    rw [ih hls] at hcut
    simpa using hcut

namespace Report

/-- The head of a line, which stands before the message. -/
def head (color : Bool) (severity : Severity) : String :=
  styled color (style severity) (glyph severity ++ " " ++ severity.word) ++ ": "

theorem toList_line (color : Bool) (d : Diagnostic) :
    (line color d).toList = (head color d.severity).toList ++ d.message.toList :=
  String.toList_append

/-- No head starts with the head for another severity. -/
theorem head_prefix_iff (color : Bool) (a b : Severity) : (head color a).toList <+: (head color b).toList ↔ a = b := by
  cases color <;> cases a <;> cases b <;> decide

theorem feed_notMem_head (color : Bool) (severity : Severity) : '\n' ∉ (head color severity).toList := by
  cases color <;> cases severity <;> decide

theorem feed_notMem_line (color : Bool) {d : Diagnostic} (hd : '\n' ∉ d.message.toList) :
    '\n' ∉ (line color d).toList := by
  rw [toList_line, List.mem_append, not_or]
  exact ⟨feed_notMem_head color d.severity, hd⟩

/-- A line tells its diagnostic. -/
theorem line_injective (color : Bool) : Function.Injective (line color) := by
  intro d e h
  have hchars := congrArg String.toList h
  rw [toList_line, toList_line] at hchars
  have hseverity : d.severity = e.severity := by
    have hd : (head color d.severity).toList <+: (head color e.severity).toList ++ e.message.toList :=
      hchars ▸ List.prefix_append _ _
    rcases List.prefix_or_prefix_of_prefix hd (List.prefix_append _ _) with hle | hle
    · exact (head_prefix_iff _ _ _).mp hle
    · exact ((head_prefix_iff _ _ _).mp hle).symm
  have hmessage : d.message = e.message := by
    rw [hseverity] at hchars
    exact String.toList_inj.mp (List.append_cancel_left hchars)
  cases d
  cases e
  exact congrArg₂ Diagnostic.mk hseverity hmessage

theorem feed_notMem_summary (color : Bool) (ds : List Diagnostic) : '\n' ∉ (summary color ds).toList := by
  have hplain : '\n' ∉ (summary false ds).toList := fun h => (mem_summary h).elim (by decide) (by decide)
  cases color with
  | false => exact hplain
  | true =>
    have hcoloured : (summary true ds).toList =
        (escape "90").toList ++ (summary false ds).toList ++ (escape "0").toList := by
      rw [← String.toList_append, ← String.toList_append]
      rfl
    rw [hcoloured, List.mem_append, List.mem_append, not_or, not_or]
    exact ⟨⟨by decide, hplain⟩, by decide⟩

/-- Each line of a report is a line of its text. -/
theorem splitOn_text (color : Bool) {ds : List Diagnostic} (hds : ∀ d ∈ ds, '\n' ∉ d.message.toList) :
    (text color ds).toList.splitOn '\n' =
      ds.map (fun d => (line color d).toList) ++ [(summary color ds).toList, []] := by
  have hlines : ∀ l ∈ ds.map fun d => (line color d).toList, '\n' ∉ l := by
    intro l hl
    obtain ⟨d, hd, rfl⟩ := List.mem_map.mp hl
    exact feed_notMem_line color (hds d hd)
  have hcut := splitOn_lines hlines ((summary color ds).toList ++ ['\n'])
  rw [List.flatMap_map, List.splitOn_append_cons_self_of_not_mem (feed_notMem_summary color ds)] at hcut
  rw [toList_text, hcut]
  rfl

/-- A count is read back, and its words have no numbers. -/
theorem numbersIn_counted_append (count : Nat) {noun : String} (hnoun : noun.toList.any Char.isDigit = false)
    (rest : List Char) : numbersIn ((counted count noun).toList ++ rest) = count :: numbersIn rest := by
  have hplural : (if count = 1 then "" else "s").toList.any Char.isDigit = false := by split <;> decide
  have hwords : (counted count noun).toList ++ rest = (toString count).toList ++
      ' ' :: ((noun.toList ++ (if count = 1 then "" else "s").toList) ++ rest) := by
    simp [counted]
  rw [hwords, numbersIn_toString_append count (by decide), numbersIn_append]
  rw [List.any_append, hnoun, hplural]
  rfl

/-- The last line counts the warnings and the errors. -/
theorem numbersIn_summary (color : Bool) (ds : List Diagnostic) :
    numbersIn (withoutCodes (summary color ds).toList) = [tally .warning ds, tally .error ds] := by
  have hplain : (summary false ds).toList = (counted (tally .warning ds) "warning").toList ++
      (", ".toList ++ ((counted (tally .error ds) "error").toList ++ [])) := by
    rw [List.append_nil, ← String.toList_append, ← String.toList_append, ← String.append_assoc]
    rfl
  rw [withoutCodes_summary, hplain, numbersIn_counted_append _ (by decide), numbersIn_append (by decide),
    numbersIn_counted_append _ (by decide)]
  rfl

/-- Each diagnostic is a warning or an error. -/
theorem tally_add_tally (ds : List Diagnostic) : tally .warning ds + tally .error ds = ds.length := by
  unfold tally
  induction ds with
  | nil => rfl
  | cons d ds ih =>
    rw [List.countP_cons, List.countP_cons, List.length_cons]
    cases hd : d.severity <;> simp <;> omega

/-- A report is read back.  It has a line for each diagnostic, in order, and behind these a line with the number of the
warnings and the number of the errors, which together make the number of the diagnostics; and lists of diagnostics that
have the same report are the same. -/
theorem reads_back (color : Bool) (ds : List Diagnostic) (hds : ∀ d ∈ ds, '\n' ∉ d.message.toList) :
    (text color ds).toList.splitOn '\n' =
        ds.map (fun d => (line color d).toList) ++ [(summary color ds).toList, []] ∧
      numbersIn (withoutCodes (summary color ds).toList) =
        [ds.countP (fun d => d.severity == .warning), ds.countP (fun d => d.severity == .error)] ∧
      ds.countP (fun d => d.severity == .warning) + ds.countP (fun d => d.severity == .error) =
        (ds.map (line color)).length ∧
      ∀ es : List Diagnostic, (∀ e ∈ es, '\n' ∉ e.message.toList) → text color es = text color ds → es = ds := by
  refine ⟨splitOn_text color hds, numbersIn_summary color ds, ?_, fun es hes hsame => ?_⟩
  · rw [List.length_map]
    exact tally_add_tally ds
  · have hlines := congrArg (fun s : String => s.toList.splitOn '\n') hsame
    simp only [splitOn_text color hes, splitOn_text color hds] at hlines
    have hmaps := List.append_inj_left' hlines rfl
    have hinjective : Function.Injective fun d => (line color d).toList :=
      fun d e h => line_injective color (String.toList_inj.mp h)
    exact List.map_injective_iff.mpr hinjective hmaps

/-- Messages that look like lines of a report, and an empty one. -/
def imitations : List Diagnostic :=
  [⟨.warning, "⚠ warning: `x` never used"⟩, ⟨.error, "1 warning, 0 errors"⟩, ⟨.error, ""⟩]

theorem reads_back_imitations :
    (∀ d ∈ imitations, '\n' ∉ d.message.toList) ∧
      (text false imitations).toList.splitOn '\n' =
        ["⚠ warning: ⚠ warning: `x` never used".toList, "✖ error: 1 warning, 0 errors".toList, "✖ error: ".toList,
          "1 warning, 2 errors".toList, []] ∧
      ∀ es : List Diagnostic, (∀ e ∈ es, '\n' ∉ e.message.toList) → text false es = text false imitations →
        es = imitations := by
  have hplain : ∀ d ∈ imitations, '\n' ∉ d.message.toList := by decide
  obtain ⟨hlines, -, -, hsame⟩ := reads_back false imitations hplain
  exact ⟨hplain, hlines.trans (by decide), hsame⟩

end Report

end ScopeLint
