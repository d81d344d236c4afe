import ScriptFront.Grammar.Operand
import ScriptFront.Tree.Render

/-!
# Operators

The rules for operators before, between and after their operands. A rule that goes on with an
expression gets what was read so far as `left`, with the operator at hand.
-/

namespace ScriptFront.Rule

/-- An operator before its operand. -/
def unary : Rule Expr := do
  let token ← current
  advance
  return .unary token token.value (← expr .unary)

/-- `await` before its operand. -/
def await : Rule Expr := do
  let token ← current
  advance
  return .await token (← expr .unary)

/-- `x++` and `x--`. The operand is the token before the operator, which must end a name, an index
or a member access. -/
def trailing : Rule Expr := do
  let w ← window
  let operator := w.current.value
  if w.previous.kind = .identifier ∨ w.previous.kind = .closeBracket then
    return .step w.previous operator
  else
    fail (.misplacedToken w.previous.kind
      ("expected a name or index before `" ++ operator ++ "`"))

/-- An operator between its operands; one of equal power to its right does not belong to it. -/
def binary (left : Expr) (power : Power) : Rule Expr := do
  let token ← current
  advance
  return .binary token left token.value (← expr power)

/-- A range. -/
def range (left : Expr) (power : Power) : Rule Expr := do
  let token ← current
  advance
  return .range token left (← expr power)

/-- The node of an assignment to `left`, none when nothing can be assigned to it. -/
def assignmentNode? (token : Token) (left : Expr) : Option (Expr → Expr) :=
  match left with
  | .identifier name =>
    if token.kind = .assignment then some (.assign token name)
    else some (.compoundAssign token name token.value)
  | .property dot object property =>
    some (.propertyAssign token dot object property token.value)
  | .index _ _ _ => some (.indexAssign token left token.value)
  | _ => none

/-- An assignment. The target is judged before the value is read, and the value takes all that
follows, so that chains nest to the right. -/
def assignment (left : Expr) : Rule Expr := do
  let token ← current
  match assignmentNode? token left with
  | some node => return node (← nextExpr)
  | none => fail (.invalidAssignmentTarget token.value left.render)

/-- A call. -/
def call (left : Expr) : Rule Expr := do
  let token ← current
  return .call token left (← list .closeParen)

/-- The rest of a slice, with its colon at hand. -/
def sliceStop (token : Token) (left : Expr) (start : Option Expr) : Rule Expr := do
  if ← peekIs .closeBracket then
    advance
    return .slice token left start none
  else
    let stop ← nextExpr
    expect .closeBracket
    return .slice token left start (some stop)

/-- An index or a slice, told apart by the colon. -/
def index (left : Expr) : Rule Expr := do
  let token ← current
  if ← peekIs .colon then
    advance
    sliceStop token left none
  else
    let first ← nextExpr
    if ← peekIs .colon then
      advance
      sliceStop token left (some first)
    else
      expect .closeBracket
      return .index token left first

/-- A property, or a method when an opening parenthesis follows its name. -/
def member (left : Expr) : Rule Expr := do
  let token ← current
  let name ← expectIdentifier
  if ← peekIs .openParen then
    advance
    return .method token left name (← list .closeParen)
  else
    return .property token left name

end ScriptFront.Rule
