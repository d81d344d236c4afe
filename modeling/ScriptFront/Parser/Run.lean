import ScriptFront.Grammar.Body
import ScriptFront.Parser.State

/-!
# Following rules

* `Reply` — what comes of a plan: a value, nothing (with the reason among the diagnostics), or the
  end of the budget.
* `Rule.follow` — follow a plan, given a way to pursue goals.
* `Parser.pursue` — pursue a goal with a budget on how deep goals may nest.
* `Parser.run` — follow a plan with a budget that is ample for all that is left of the input.

A plan is finite, and a goal is pursued by following the plan that the grammar gives for it, with
one less to spend. Nesting costs tokens, so the budget of `Parser.run` grows with what is left.
-/

namespace ScriptFront

/-- What comes of a plan. -/
inductive Reply (α : Type) where
  /-- The part was read. -/
  | found (value : α)
  /-- The part could not be read. -/
  | absent
  /-- Goals nested deeper than the budget allows. -/
  | exhausted
deriving DecidableEq, Repr

namespace Reply

/-- The value, if there is one. -/
def toOption {α : Type} : Reply α → Option α
  | found value => some value
  | absent | exhausted => none

/-- The reply without its value: a part that was asked for only to find faults is never found. -/
def discard {α β : Type} : Reply α → Reply β
  | found _ | absent => absent
  | exhausted => exhausted

end Reply

/-- A step that reads a part of the program. -/
abbrev Reading (α : Type) := Parser → Reply α × Parser

namespace Rule

variable {α : Type}

/-- Follow a plan, pursuing goals as `pursue` does. -/
def follow (pursue : (goal : Goal) → Reading goal.Answer) : Rule α → Reading α
  | done value, parser => (.found value, parser)
  | fail cause, parser => (.absent, parser.report cause)
  | look next, parser => (next parser.window).follow pursue parser
  | shift next, parser => next.follow pursue parser.advance
  | need goal next, parser =>
    match pursue goal parser with
    | (.found answer, after) => (next answer).follow pursue after
    | (.absent, after) => (.absent, after)
    | (.exhausted, after) => (.exhausted, after)
  | salvage goal next rest, parser =>
    match pursue goal parser with
    | (.found answer, after) => (next answer).follow pursue after
    | (.absent, after) =>
      let (reply, last) := pursue rest (after.synchronize parser.checkpoint true)
      (reply.discard, last)
    | (.exhausted, after) => (.exhausted, after)

/-- Following one plan after another: the second starts where the first was done. -/
theorem follow_bind {β : Type} (pursue : (goal : Goal) → Reading goal.Answer) (rule : Rule α)
    (f : α → Rule β) (parser : Parser) :
    (rule.bind f).follow pursue parser =
      match rule.follow pursue parser with
      | (.found value, after) => (f value).follow pursue after
      | (.absent, after) => (.absent, after)
      | (.exhausted, after) => (.exhausted, after) := by
  induction rule generalizing parser with
  | done value => rfl
  | fail cause => rfl
  | look next ih => exact ih parser.window parser
  | shift next ih => exact ih parser.advance
  | need goal next ih =>
    simp only [bind, follow]
    split
    · next answer after _ => exact ih answer after
    · rfl
    · rfl
  | salvage goal next rest ih =>
    simp only [bind, follow]
    split
    · next answer after _ => exact ih answer after
    · next after _ =>
      cases (pursue rest (after.synchronize parser.checkpoint true)).1 <;> simp [Reply.discard]
    · rfl

end Rule

namespace Parser

/-- Pursue a goal, goals nesting no deeper than the budget. -/
def pursue : Nat → (goal : Goal) → Reading goal.Answer
  | 0, _, parser => (.exhausted, parser)
  | budget + 1, goal, parser => (parser.grammar.body goal).follow (pursue budget) parser

/-- A depth of nesting that what is left of the input cannot reach. -/
def budget (parser : Parser) : Nat :=
  8 * (parser.remaining + 4)

/-- Follow a plan. -/
def run {α : Type} (parser : Parser) (rule : Rule α) : Option α × Parser :=
  let (reply, after) := rule.follow (pursue parser.budget) parser
  (reply.toOption, after)

end Parser

end ScriptFront
