import ScriptFront.Grammar.Power
import ScriptFront.Token.Kind

/-!
# Grammar tables

A grammar says, for the kind of the token at hand, which rule reads on from there:

* `leading` — how an expression that starts on the token is read;
* `linking` — how an expression goes on at the token, with what was read so far as its left operand,
  and with which `power` the token holds that operand;
* `trailingRule` — how an expression that starts on the token is read when nothing goes on from it:
  the operators that apply to the token before them;
* `statement` — how a statement that starts on the token is read, other than as an expression.

`Grammar.standard` is the language as it stands; the `register…` functions extend or change it. A
power and a linking rule are always registered together.
-/

namespace ScriptFront

/-- How an expression is read from the token at hand on. The last three are for an operator that
applies to the token before it, for the pattern of a match case and for an array pattern. -/
inductive ExpressionRule where
  | name | integer | float | string | boolean | null | receiver
  | unary | grouping | array | dict | spread
  | conditional | whileLoop | forLoop | repeatLoop | switch | matching
  | function | asyncFunction | await | channel | importing | package
  | step | pattern | arrayPattern
deriving DecidableEq, Repr

/-- The language as it stands has the rule for the first token of some expression. -/
def ExpressionRule.isLeading : ExpressionRule → Bool
  | step | pattern | arrayPattern => false
  | _ => true

/-- How an expression goes on at a token. -/
inductive LinkingRule where
  | assignment | binary | range | call | index | member
deriving DecidableEq, Repr

/-- How a statement that starts on a token is read. The last two are for an expression that stands
alone and for any statement, as the grammar reads it. -/
inductive StatementRule where
  | declaration | returning | breaking | continuing | including | block | enumeration | go | error
  | declarative | expression | any
deriving DecidableEq, Repr

/-- The language as it stands has the rule for the first token of some statement. -/
def StatementRule.isLeading : StatementRule → Bool
  | expression | any => false
  | _ => true

/-- The rules of a language by the kind of the token at hand. -/
structure Grammar where
  /-- Rules for the first token of an expression. -/
  leading : Kind → Option ExpressionRule
  /-- Rules for a token that goes on with an expression. -/
  linking : Kind → Option LinkingRule
  /-- Rules for the first token of an expression from which nothing goes on. They come before the
  others. -/
  trailingRule : Kind → Option ExpressionRule
  /-- Rules for the first token of a statement. -/
  statement : Kind → Option StatementRule
  /-- The powers of the tokens that go on with an expression. -/
  power : Kind → Option Power

namespace Grammar

/-! ## The language as it stands -/

/-- The rule for the first token of an expression. -/
def standardLeading : Kind → Option ExpressionRule
  | .identifier => some .name
  | .integer => some .integer
  | .float => some .float
  | .string => some .string
  | .trueWord | .falseWord => some .boolean
  | .nullWord => some .null
  | .atSign => some .receiver
  | .not | .dash | .plus | .ampersand | .star => some .unary
  | .openParen => some .grouping
  | .openBracket => some .array
  | .openCurly => some .dict
  | .ellipsis => some .spread
  | .ifWord => some .conditional
  | .whileWord => some .whileLoop
  | .forWord => some .forLoop
  | .repeatWord => some .repeatLoop
  | .switchWord => some .switch
  | .matchWord => some .matching
  | .funcWord => some .function
  | .asyncWord => some .asyncFunction
  | .awaitWord => some .await
  | .chanWord => some .channel
  | .importWord => some .importing
  | .packageWord => some .package
  | _ => none

/-- The rule for a token that goes on with an expression. -/
def standardLinking : Kind → Option LinkingRule
  | .assignment | .plusEquals | .minusEquals | .starEquals | .slashEquals | .percentEquals =>
    some .assignment
  | .and | .or | .inWord | .nullCoalesce | .equals | .notEquals | .less | .lessEquals | .greater
  | .greaterEquals | .plus | .dash | .star | .slash | .starStar | .percent => some .binary
  | .dotDot => some .range
  | .openParen => some .call
  | .openBracket => some .index
  | .dot => some .member
  | _ => none

/-- The power of a token that goes on with an expression. -/
def standardPower : Kind → Option Power
  | .assignment | .plusEquals | .minusEquals | .starEquals | .slashEquals | .percentEquals =>
    some .assignment
  | .and | .or | .inWord | .nullCoalesce => some .logical
  | .equals | .notEquals => some .equality
  | .less | .lessEquals | .greater | .greaterEquals => some .relational
  | .dotDot => some .range
  | .plus | .dash => some .additive
  | .star | .slash => some .multiplicative
  | .starStar => some .exponent
  | .percent => some .modulus
  | .openParen => some .call
  | .openBracket => some .index
  | .dot => some .member
  | _ => none

/-- The rule for an operator that applies to the token before it. -/
def standardTrailing : Kind → Option ExpressionRule
  | .plusPlus | .minusMinus => some .step
  | _ => none

/-- The rule for the first token of a statement. -/
def standardStatement : Kind → Option StatementRule
  | .letWord | .constWord => some .declaration
  | .returnWord => some .returning
  | .breakWord => some .breaking
  | .continueWord => some .continuing
  | .includeWord => some .including
  | .openCurly => some .block
  | .enumWord => some .enumeration
  | .goWord => some .go
  | .errorWord => some .error
  | .throwWord | .deferWord => some .declarative
  | kind => if kind.isDeclarative then some .declarative else none

/-- The language as it stands. -/
def standard : Grammar :=
  ⟨standardLeading, standardLinking, standardTrailing, standardStatement, standardPower⟩

/-- The rule for the first token of an expression is one of those that are leading. -/
theorem isLeading_of_standard {kind : Kind} {rule : ExpressionRule}
    (h : standard.leading kind = some rule) : rule.isLeading = true := by
  have hall : ∀ rule ∈ standardLeading kind, rule.isLeading = true := by
    cases kind <;> simp [standardLeading, ExpressionRule.isLeading]
  exact hall rule h

/-- The rule for the first token of a statement is one of those that are leading. -/
theorem isLeading_of_standardStatement {kind : Kind} {rule : StatementRule}
    (h : standard.statement kind = some rule) : rule.isLeading = true := by
  have hall : ∀ rule ∈ standardStatement kind, rule.isLeading = true := by
    cases kind <;> simp [standardStatement, StatementRule.isLeading, Kind.isDeclarative]
  exact hall rule h

/-! ## Changing a grammar -/

/-- A table with one entry changed. -/
def update {α : Type} (table : Kind → α) (kind : Kind) (entry : α) : Kind → α :=
  fun other => if other = kind then entry else table other

/-- The grammar with a rule for expressions that start on the kind. -/
def registerLeading (grammar : Grammar) (kind : Kind) (rule : ExpressionRule) : Grammar :=
  { grammar with leading := update grammar.leading kind (some rule) }

/-- The grammar with a rule and a power for expressions that go on at the kind. -/
def registerLinking (grammar : Grammar) (kind : Kind) (power : Power) (rule : LinkingRule) :
    Grammar :=
  { grammar with
    linking := update grammar.linking kind (some rule)
    power := update grammar.power kind (some power) }

/-- The grammar with a rule for expressions that start on the kind and from which nothing goes on:
that of an operator that applies to the token before it, unless another is given. -/
def registerTrailing (grammar : Grammar) (kind : Kind) (rule : ExpressionRule := .step) : Grammar :=
  { grammar with trailingRule := update grammar.trailingRule kind (some rule) }

/-- The grammar with a rule for statements that start on the kind. -/
def registerStatement (grammar : Grammar) (kind : Kind) (rule : StatementRule) : Grammar :=
  { grammar with statement := update grammar.statement kind (some rule) }

/-- Nothing goes on from an expression that starts on the kind. -/
def trailing (grammar : Grammar) (kind : Kind) : Bool :=
  (grammar.trailingRule kind).isSome

/-- The power of a kind, the weakest when it has none. -/
def powerOf (grammar : Grammar) (kind : Kind) : Power :=
  (grammar.power kind).getD .default

end Grammar

end ScriptFront
