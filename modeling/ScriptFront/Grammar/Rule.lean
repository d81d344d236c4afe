import ScriptFront.Diagnostic.Basic
import ScriptFront.Grammar.Power
import ScriptFront.Tree.Basic

/-!
# Rules

A rule says how one part of a program is read. It sees three tokens (`Window`), and it can do six
things: be done, fail with a cause, look at the window, shift the window by one token, ask for
another part of the program (`Goal`) and go on with the answer, or ask for a part that it can do
without when it only wants to find further faults.

Rules do not call each other in circles: what recurs in the language is a `Goal`, and which rule
reads a goal is settled elsewhere. So a rule is a finite plan, and facts about all rules are proved
by induction on the plan.

* `Goal`, `Goal.Answer` — the parts that rules ask for, and what is found for each.
* `Rule` — the plans, a monad.
* `expect`, `expectIdentifier`, `skipSemicolon` — the common small plans.
-/

namespace ScriptFront

/-- The three tokens that a rule sees. -/
structure Window where
  /-- The token before the current one. -/
  previous : Token
  /-- The token at hand. -/
  current : Token
  /-- The token after it. -/
  peek : Token
deriving DecidableEq, Repr

/-- The parts of a program that rules ask for. -/
inductive Goal where
  /-- An expression whose operators are stronger than the power. -/
  | expr (power : Power)
  /-- The rest of an expression, with what was read so far. -/
  | links (power : Power) (left : Expr)
  /-- Expressions between the opening bracket at hand and the closing one. -/
  | list (close : Kind)
  /-- The expressions of such a list after the first one. -/
  | listTail (close : Kind)
  /-- The remaining pairs of a dict. -/
  | pairs
  /-- A conditional, from its `if` on. -/
  | conditional
  /-- The remaining clauses of a switch. -/
  | clauses
  /-- The values of a clause after the first one. -/
  | caseValues
  /-- The remaining cases of a match. -/
  | matchCases
  /-- The pattern of a match case. -/
  | pattern
  /-- The remaining items of an array pattern, after a rest element or not. -/
  | patternItems (restSeen : Bool)
  /-- The remaining parameters of a function, after one with a default or not. -/
  | parameters (defaultSeen : Bool)
  /-- The remaining names of an import. -/
  | names
  /-- The remaining members of an enumeration. -/
  | members
  /-- A statement. -/
  | stmt
  /-- The remaining statements of a block. -/
  | statements

/-- What is found for a goal. -/
@[reducible] def Goal.Answer : Goal → Type
  | expr _ => Expr
  | links _ _ => Expr
  | list _ => List Expr
  | listTail _ => List Expr
  | pairs => List (Expr × Expr)
  | conditional => Expr
  | clauses => List CaseClause
  | caseValues => List Expr
  | matchCases => List MatchCase
  | pattern => Expr
  | patternItems _ => List Expr × Option Identifier
  | parameters _ => List Parameter
  | names => List Identifier
  | members => List (Identifier × Expr)
  | stmt => Stmt
  | statements => List Stmt

/-- A plan for reading one part of a program. -/
inductive Rule (α : Type) where
  /-- The part has been read. -/
  | done (value : α)
  /-- The part cannot be read, for this cause. -/
  | fail (cause : Cause)
  /-- Go on according to the window. -/
  | look (next : Window → Rule α)
  /-- Shift the window by one token and go on. -/
  | shift (next : Rule α)
  /-- Ask for a part and go on with what was found; without it the plan fails too. -/
  | need (goal : Goal) (next : goal.Answer → Rule α)
  /-- Ask for a part and go on with what was found. Without it the plan fails too, but only after
  the parser has skipped to a fresh start and asked for `rest`, for the faults to be found there. -/
  | salvage (goal : Goal) (next : goal.Answer → Rule α) (rest : Goal)

namespace Rule

variable {α β : Type}

/-- One plan after another. -/
def bind : Rule α → (α → Rule β) → Rule β
  | done value, f => f value
  | fail cause, _ => fail cause
  | look next, f => look fun window => (next window).bind f
  | shift next, f => shift (next.bind f)
  | need goal next, f => need goal fun answer => (next answer).bind f
  | salvage goal next rest, f => salvage goal (fun answer => (next answer).bind f) rest

instance : Monad Rule where
  pure := done
  bind := bind

/-! ## Looking and moving -/

/-- The window. -/
def window : Rule Window :=
  look done

/-- The token at hand. -/
def current : Rule Token :=
  look fun window => done window.current

/-- The next token has the kind. -/
def peekIs (kind : Kind) : Rule Bool :=
  look fun window => done (window.peek.kind = kind)

/-- Shift the window by one token. -/
def advance : Rule Unit :=
  shift (done ())

/-- Shift the window if the next token has the kind, and fail otherwise. -/
def expect (kind : Kind) : Rule Unit := do
  let w ← window
  if w.peek.kind = kind then advance else fail (.expectedToken kind w.peek.kind)

/-- Shift the window onto a name. -/
def expectIdentifier : Rule Identifier := do
  expect .identifier
  return Identifier.ofToken (← current)

/-- Shift the window onto a semicolon if one is next. -/
def skipSemicolon : Rule Unit := do
  if ← peekIs .semicolon then advance

/-! ## Asking for parts -/

/-- An expression whose operators are stronger than the power. -/
def expr (power : Power) : Rule Expr :=
  need (.expr power) done

/-- An expression with any operators. -/
def anyExpr : Rule Expr :=
  expr .default

/-- Shift the window and read an expression there. -/
def nextExpr : Rule Expr := do
  advance
  anyExpr

/-- Expressions between the opening bracket at hand and the closing one. -/
def list (close : Kind) : Rule (List Expr) :=
  need (.list close) done

/-- The pattern of a match case. -/
def pattern : Rule Expr :=
  need .pattern done

/-- A statement. -/
def stmt : Rule Stmt :=
  need .stmt done

/-- A block, from its opening brace on. -/
def block : Rule Block := do
  let token ← current
  advance
  need .statements fun body => done ⟨token, body⟩

/-- A block whose opening brace is the next token. -/
def body : Rule Block := do
  expect .openCurly
  block

end Rule

end ScriptFront
