import ScriptFront.Grammar.Control
import ScriptFront.Grammar.Declaration
import ScriptFront.Grammar.Operator
import ScriptFront.Grammar.Statement
import ScriptFront.Grammar.Table

/-!
# Which rule reads which goal

`Grammar.body` gives the plan for each goal. The plans for expressions and statements look up the
kind of the token at hand in the grammar's tables; all others are the same in every grammar.
-/

namespace ScriptFront

/-- The plan of a rule for expressions that are read from the token at hand on. -/
def ExpressionRule.plan : ExpressionRule → Rule Expr
  | name => Rule.name
  | integer => Rule.integer
  | float => Rule.float
  | string => Rule.string
  | boolean => Rule.boolean
  | null => Rule.null
  | receiver => Rule.receiver
  | unary => Rule.unary
  | grouping => Rule.grouping
  | array => Rule.array
  | dict => Rule.dict
  | spread => Rule.spread
  | conditional => Rule.conditional
  | whileLoop => Rule.whileLoop
  | forLoop => Rule.forLoop
  | repeatLoop => Rule.repeatLoop
  | switch => Rule.switch
  | matching => Rule.matching
  | function => Rule.function
  | asyncFunction => Rule.asyncFunction
  | await => Rule.await
  | channel => Rule.channel
  | importing => Rule.importing
  | package => Rule.package
  | step => Rule.trailing
  | pattern => Rule.pattern
  | arrayPattern => Rule.arrayPattern

/-- The plan of a rule for expressions that go on at a token. -/
def LinkingRule.plan : LinkingRule → Expr → Power → Rule Expr
  | assignment, left, _ => Rule.assignment left
  | binary, left, power => Rule.binary left power
  | range, left, power => Rule.range left power
  | call, left, _ => Rule.call left
  | index, left, _ => Rule.index left
  | member, left, _ => Rule.member left

/-- The plan of a rule for statements. -/
def StatementRule.plan : StatementRule → Rule Stmt
  | declaration => Rule.declaration
  | returning => Rule.returning
  | breaking => Rule.breaking
  | continuing => Rule.continuing
  | including => Rule.including
  | block => Rule.blockStatement
  | enumeration => Rule.enumeration
  | go => Rule.go
  | error => Rule.errorStatement
  | declarative => Rule.declarative
  | expression => Rule.expressionStatement
  | any => Rule.stmt

namespace Grammar

/-- An expression whose operators are stronger than the power. Nothing goes on from an operator that
applies to the token before it. -/
def expression (grammar : Grammar) (power : Power) : Rule Expr := do
  let w ← Rule.window
  match grammar.trailingRule w.current.kind with
  | some rule => rule.plan
  | none =>
    match grammar.leading w.current.kind with
    | none => Rule.fail (.unexpectedToken w.current.kind)
    | some rule => do
      let left ← rule.plan
      Rule.need (.links power left) Rule.done

/-- In the language as it stands, the only expressions from which nothing goes on are operators that
apply to the token before them. -/
theorem standard_expression (power : Power) :
    standard.expression power = (do
      let w ← Rule.window
      if standard.trailing w.current.kind then Rule.trailing
      else
        match standard.leading w.current.kind with
        | none => Rule.fail (.unexpectedToken w.current.kind)
        | some rule => do
          let left ← rule.plan
          Rule.need (.links power left) Rule.done) := by
  have hstep : ∀ kind, standard.trailingRule kind =
      if standard.trailing kind then some .step else none := by
    intro kind
    cases kind <;> rfl
  unfold expression
  refine congrArg (Rule.window >>= ·) (funext fun w => ?_)
  rw [hstep]
  by_cases htrailing : standard.trailing w.current.kind = true
  · rw [if_pos htrailing, if_pos htrailing]
    rfl
  · rw [if_neg htrailing, if_neg htrailing]

/-- The rest of an expression: as long as the next token is stronger than the power, and is no
semicolon, the expression goes on there. -/
def links (grammar : Grammar) (power : Power) (left : Expr) : Rule Expr := do
  let w ← Rule.window
  if w.peek.kind ≠ .semicolon ∧ power < grammar.powerOf w.peek.kind then
    Rule.advance
    let operator ← Rule.current
    match grammar.linking operator.kind with
    | none => Rule.fail (.unexpectedContinuation operator.kind)
    | some rule => do
      let whole ← rule.plan left (grammar.powerOf operator.kind)
      Rule.need (.links power whole) Rule.done
  else return left

/-- A statement: by its own rule, or as an expression. -/
def statementBody (grammar : Grammar) : Rule Stmt := do
  let w ← Rule.window
  match grammar.statement w.current.kind with
  | some rule => rule.plan
  | none => Rule.expressionStatement

/-- The plan for a goal. -/
def body (grammar : Grammar) : (goal : Goal) → Rule goal.Answer
  | .expr power => grammar.expression power
  | .links power left => grammar.links power left
  | .list close => Rule.listBody close
  | .listTail close => Rule.listTail close
  | .pairs => Rule.pairs
  | .conditional => Rule.conditionalBody
  | .clauses => Rule.clauses
  | .caseValues => Rule.caseValues
  | .matchCases => Rule.matchCases
  | .pattern => Rule.patternBody
  | .patternItems restSeen => Rule.patternItems restSeen
  | .parameters defaultSeen => Rule.parameters defaultSeen
  | .names => Rule.names
  | .members => Rule.members
  | .stmt => grammar.statementBody
  | .statements => Rule.statements

end Grammar

end ScriptFront
