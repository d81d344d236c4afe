import ScriptFront.Grammar.Operand

/-!
# Control flow and patterns

The rules for conditionals, loops, `switch` and `match`, and for the patterns of match cases.
-/

namespace ScriptFront.Rule

/-- An expression in parentheses, the opening one being the next token. -/
def condition : Rule Expr := do
  expect .openParen
  grouping

/-! ## Conditionals and loops -/

/-- The part after the consequence of a conditional. `else if` is a block of one conditional. -/
def alternative : Rule (Option Block) := do
  if ← peekIs .elseWord then
    advance
    if ← peekIs .ifWord then
      advance
      need .conditional fun nested => done (some (Block.ofExpr nested))
    else
      return some (← body)
  else return none

/-- `if (condition) block`, with an optional `else`. -/
def conditionalBody : Rule Expr := do
  let token ← current
  let condition ← condition
  let consequence ← body
  return .conditional token condition consequence (← alternative)

/-- A conditional. -/
def conditional : Rule Expr :=
  need .conditional done

/-- `while (condition) block`. -/
def whileLoop : Rule Expr := do
  let token ← current
  let condition ← condition
  return .whileLoop token condition (← body)

/-- The names that a `for` loop binds: a value, or a key and a value. -/
def loopNames : Rule (Option Identifier × Identifier) := do
  let first ← expectIdentifier
  if ← peekIs .comma then
    advance
    return (some first, ← expectIdentifier)
  else return (none, first)

/-- `for names in iterable block`. -/
def forLoop : Rule Expr := do
  let token ← current
  let (key, value) ← loopNames
  expect .inWord
  let iterable ← nextExpr
  return .forLoop token key value iterable (← body)

/-- The name of the round in a `repeat` loop: a name in parentheses, or `i`. -/
def loopCounter : Rule String := do
  if ← peekIs .openParen then
    advance
    let counter ← expectIdentifier
    expect .closeParen
    return counter.name
  else return "i"

/-- `repeat count block`. -/
def repeatLoop : Rule Expr := do
  let token ← current
  let counter ← loopCounter
  let count ← nextExpr
  return .repeatLoop token counter count (← body)

/-! ## Switch -/

/-- The values of a clause after the first one. -/
def caseValues : Rule (List Expr) := do
  if ← peekIs .comma then
    advance
    let value ← nextExpr
    need .caseValues fun rest => done (value :: rest)
  else return []

/-- The selection of a clause with its first word at hand: the values, or none for the default. -/
def selection : Rule (Option (List Expr)) := do
  let w ← window
  if w.current.kind = .defaultWord then return none
  else if w.current.kind = .caseWord then
    advance
    let w ← window
    if w.current.kind = .defaultWord then return none
    else
      let first ← anyExpr
      need .caseValues fun rest => done (some (first :: rest))
  else
    fail (.misplacedToken w.current.kind "expected `case` or `default` inside switch")

/-- A clause, its first word being the next token. -/
def clause : Rule CaseClause := do
  advance
  let token ← current
  let values ← selection
  return ⟨token, values.isNone, values.getD [], ← body⟩

/-- The remaining clauses of a switch. -/
def clauses : Rule (List CaseClause) :=
  untilBrace "switch" clause (need .clauses done)

/-- `switch (subject) { … }`. More than one default is a fault of the whole. -/
def switch : Rule Expr := do
  let token ← current
  let subject ← condition
  expect .openCurly
  need .clauses fun clauses => do
    advance
    let defaults := clauses.countP CaseClause.isDefault
    if 1 < defaults then fail (.duplicateDefault defaults)
    else return .switch token subject clauses

/-! ## Match -/

/-- The condition after a pattern, if there is one. -/
def guard : Rule (Option Expr) := do
  if ← peekIs .ifWord then
    advance
    return some (← nextExpr)
  else return none

/-- What a case does: a block, or one expression. -/
def caseBody : Rule Block := do
  if ← peekIs .openCurly then
    advance
    block
  else return Block.ofExpr (← nextExpr)

/-- A case, the first token of its pattern being the next one. The comma after it is optional. -/
def matchCase : Rule MatchCase := do
  advance
  let token ← current
  let pattern ← pattern
  let guard ← guard
  expect .arrow
  let body ← caseBody
  if ← peekIs .comma then advance
  return ⟨token, pattern, guard, body⟩

/-- The remaining cases of a match. -/
def matchCases : Rule (List MatchCase) :=
  untilBrace "match" matchCase (need .matchCases done)

/-- `match subject { … }`. -/
def matching : Rule Expr := do
  let token ← current
  let subject ← nextExpr
  expect .openCurly
  need .matchCases fun cases => do
    advance
    return .matching token subject cases

/-! ## Patterns -/

/-- The items after a comma, if there is one. -/
def patternTail (restSeen : Bool) : Rule (List Expr × Option Identifier) := do
  if ← peekIs .comma then
    advance
    need (.patternItems restSeen) done
  else return ([], none)

/-- The remaining items of an array pattern, the first token of the next item being the next token.
After a rest element nothing may come. -/
def patternItems (restSeen : Bool) : Rule (List Expr × Option Identifier) := do
  advance
  let w ← window
  if w.current.kind = .ellipsis then
    if restSeen then fail .duplicateRestPattern
    else if w.peek.kind = .identifier then
      advance
      let rest := Identifier.ofToken (← current)
      let (elements, _) ← patternTail true
      return (elements, some rest)
    else fail (.expectedRestIdentifier w.peek.kind)
  else if restSeen then fail .restPatternNotLast
  else
    let element ← pattern
    let (elements, rest) ← patternTail false
    return (element :: elements, rest)

/-- An array pattern. -/
def arrayPattern : Rule Expr := do
  let token ← current
  if ← peekIs .closeBracket then
    advance
    return .arrayPattern token [] none
  else
    need (.patternItems false) fun items => do
      expect .closeBracket
      return .arrayPattern token items.1 items.2

/-- A pattern, told by its first token: an array pattern, a dict, or any expression. -/
def patternBody : Rule Expr := do
  let w ← window
  if w.current.kind = .openBracket then arrayPattern
  else if w.current.kind = .openCurly then dict
  else anyExpr

end ScriptFront.Rule
