import ScriptFront.Token.Kind

/-!
# Words that introduce a single-expression statement

`defer`, `throw`, `error` and the ten reporting words each take one expression.
`Declarative.ofKind?` reads the word off a token's kind, and `Declarative.keyword` writes it back.
-/

namespace ScriptFront

/-- A word that introduces a statement made of one expression. -/
inductive Declarative where
  | defer | throw | error
  | todo | warn | info | debug | note | success | trace | fatal | critical | log
deriving DecidableEq, Repr

namespace Declarative

/-- The word of a token kind. -/
def ofKind? : Kind → Option Declarative
  | .deferWord => some defer
  | .throwWord => some throw
  | .errorWord => some error
  | .todoWord => some todo
  | .warnWord => some warn
  | .infoWord => some info
  | .debugWord => some debug
  | .noteWord => some note
  | .successWord => some success
  | .traceWord => some trace
  | .fatalWord => some fatal
  | .criticalWord => some critical
  | .logWord => some log
  | _ => none

/-- The spelling of the word. -/
def keyword : Declarative → String
  | defer => "defer"
  | throw => "throw"
  | error => "error"
  | todo => "todo"
  | warn => "warn"
  | info => "info"
  | debug => "debug"
  | note => "note"
  | success => "success"
  | trace => "trace"
  | fatal => "fatal"
  | critical => "critical"
  | log => "log"

end Declarative

end ScriptFront
