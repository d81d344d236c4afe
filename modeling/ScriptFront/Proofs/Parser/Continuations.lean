import ScriptFront.Proofs.Parser.Reports

/-!
# Expressions go on only where there is a rule

How strongly a token holds its left operand and how an expression goes on at it are two tables of a
grammar, and the parser asks the one before it takes the token and the other behind it. A token with
a power and no rule would be a fault of the grammar and not of the text
(`Cause.unexpectedContinuation`).

* `Grammar.Paired` — the kinds with a power are those with a rule. Every change of a grammar keeps
  it so.
* `Rule.Foresees` — whatever tokens come and whatever answers goals get, the plan does not fail with
  that cause; `Grammar.Paired.body_foresees`: the plan for no goal does.
* `Parser.Regular` — the grammar is paired, and no diagnostic has that cause; `pursue_regular`:
  reading keeps it so.
* `Routine`, `Parser.Use` — what there is to call, and what a caller can do with a parser in
  between.
* `continuations_foreseen` — whatever is done with a parser, no diagnostic has that cause.
-/

namespace ScriptFront

/-! ## Powers and rules -/

namespace Grammar

variable {grammar : Grammar} {kind : Kind}

/-- The kinds that have a power are those at which an expression can go on. -/
def Paired (grammar : Grammar) : Prop :=
  ∀ kind, (grammar.power kind).isSome ↔ (grammar.linking kind).isSome

/-- In the standard grammar, the kinds with a power are those with a rule. -/
theorem standard_paired : standard.Paired := by
  intro kind
  cases kind <;> decide

/-- A power and a rule are registered together. -/
theorem Paired.registerLinking (h : grammar.Paired) (kind : Kind) (power : Power)
    (rule : LinkingRule) : (grammar.registerLinking kind power rule).Paired := by
  intro other
  simp only [Grammar.registerLinking, update]
  split
  · exact Iff.rfl
  · exact h other

/-- A kind that is stronger than some power has a power of its own, and so a rule. -/
theorem Paired.linking_isSome (h : grammar.Paired) {power : Power}
    (hpower : power < grammar.powerOf kind) : (grammar.linking kind).isSome := by
  rw [← h kind, Option.isSome_iff_ne_none]
  intro hnone
  rw [powerOf, hnone] at hpower
  exact Nat.not_lt_zero _ hpower

end Grammar

/-! ## Causes that plans give -/

/-- The cause is some other than that there is no rule for a token with a power. -/
def Cause.Foreseen : Cause → Prop
  | .unexpectedContinuation _ => False
  | _ => True

/-- Every cause is foreseen but that of a continuation without a rule. -/
theorem Cause.foreseen_iff {cause : Cause} :
    cause.Foreseen ↔ ∀ kind, cause ≠ .unexpectedContinuation kind := by
  cases cause <;> simp [Foreseen]

namespace Rule

variable {α β : Type} {post : α → Window → Prop} {w : Window}

/-- From the window on, whatever tokens come and whatever answers goals get, the plan fails only
with causes that are foreseen, and it is done with a value and in front of a window that have the
property. -/
def Foresees (post : α → Window → Prop) : Rule α → Window → Prop
  | .done value, w => post value w
  | .fail cause, _ => cause.Foreseen
  | .look next, w => (next w).Foresees post w
  | .shift next, w => ∀ token, next.Foresees post ⟨w.current, w.peek, token⟩
  | .need _ next, _ => ∀ answer w, (next answer).Foresees post w
  | .salvage _ next _, _ => ∀ answer w, (next answer).Foresees post w

/-- Plans one after the other foresee what the first does and the second behind its value. -/
@[simp] theorem foresees_bind {rule : Rule β} {f : β → Rule α} :
    (rule >>= f).Foresees post w ↔ rule.Foresees (fun value w => (f value).Foresees post w) w := by
  change (rule.bind f).Foresees post w ↔ _
  induction rule generalizing w with
  | done value => rfl
  | fail cause => rfl
  | look next ih => exact ih w
  | shift next ih => exact forall_congr' fun _ => ih
  | need goal next ih => exact forall_congr' fun answer => forall_congr' fun _ => ih answer
  | salvage goal next rest ih => exact forall_congr' fun answer => forall_congr' fun _ => ih answer

/-- A plan that is done foresees what holds of its value and the window. -/
@[simp] theorem foresees_pure (value : α) : (pure value : Rule α).Foresees post w ↔ post value w :=
  Iff.rfl

/-- A plan that is done fails with no cause. -/
@[simp] theorem foresees_done (value : α) : (done value).Foresees post w ↔ post value w :=
  Iff.rfl

/-- A plan that fails must do so with a cause that is foreseen. -/
@[simp] theorem foresees_fail {cause : Cause} :
    (fail cause : Rule α).Foresees post w ↔ cause.Foreseen :=
  Iff.rfl

/-- Behind a goal, the window may be any. -/
@[simp] theorem foresees_need {goal : Goal} {next : goal.Answer → Rule α} :
    (need goal next).Foresees post w ↔ ∀ answer w, (next answer).Foresees post w :=
  Iff.rfl

/-- Behind a goal with a fresh start, the window may be any. -/
@[simp] theorem foresees_salvage {goal rest : Goal} {next : goal.Answer → Rule α} :
    (salvage goal next rest).Foresees post w ↔ ∀ answer w, (next answer).Foresees post w :=
  Iff.rfl

/-- A choice foresees what the plan that is chosen does. -/
@[simp] theorem foresees_ite {c : Prop} [Decidable c] {yes no : Rule α} :
    (if c then yes else no).Foresees post w ↔
      (c → yes.Foresees post w) ∧ (¬ c → no.Foresees post w) := by
  split <;> simp [*]

/-- Looking gives the window. -/
@[simp] theorem foresees_window {post : Window → Window → Prop} :
    window.Foresees post w ↔ post w w :=
  Iff.rfl

/-- Looking at the token at hand gives that token. -/
@[simp] theorem foresees_current {post : Token → Window → Prop} :
    current.Foresees post w ↔ post w.current w :=
  Iff.rfl

/-- Looking at the next token tells whether it has the kind. -/
@[simp] theorem foresees_peekIs {post : Bool → Window → Prop} {kind : Kind} :
    (peekIs kind).Foresees post w ↔ post (w.peek.kind = kind) w :=
  Iff.rfl

/-- Behind a shift, the next token is at hand and any may follow. -/
@[simp] theorem foresees_advance {post : Unit → Window → Prop} :
    advance.Foresees post w ↔ ∀ token, post () ⟨w.current, w.peek, token⟩ :=
  Iff.rfl

/-- Behind a token asked for by kind, that token is at hand. -/
@[simp] theorem foresees_expect {post : Unit → Window → Prop} {kind : Kind} :
    (expect kind).Foresees post w ↔
      (w.peek.kind = kind → ∀ token, post () ⟨w.current, w.peek, token⟩) := by
  simp [expect, Cause.Foreseen]

/-- Behind a name that is asked for, that name is at hand. -/
@[simp] theorem foresees_expectIdentifier {post : Identifier → Window → Prop} :
    expectIdentifier.Foresees post w ↔
      (w.peek.kind = .identifier →
        ∀ token, post (Identifier.ofToken w.peek) ⟨w.current, w.peek, token⟩) := by
  simp [expectIdentifier]

/-- Behind an expression, the window may be any. -/
@[simp] theorem foresees_nextExpr {post : Expr → Window → Prop} :
    nextExpr.Foresees post w ↔ ∀ e w, post e w := by
  simp [nextExpr, anyExpr, expr]

/-- Behind a block, the window may be any, and the block keeps the token at hand. -/
@[simp] theorem foresees_block {post : Block → Window → Prop} :
    block.Foresees post w ↔ ∀ body w', post ⟨w.current, body⟩ w' := by
  simp [block]

/-- Behind a block on the next token, the window may be any. -/
@[simp] theorem foresees_body {post : Block → Window → Prop} :
    body.Foresees post w ↔ (w.peek.kind = .openCurly → ∀ body w', post ⟨w.peek, body⟩ w') := by
  simp [body]

/-- Behind parentheses, the closing one is at hand. -/
@[simp] theorem foresees_grouping {post : Expr → Window → Prop} :
    grouping.Foresees post w ↔
      ∀ e (w : Window), w.peek.kind = .closeParen → ∀ token, post e ⟨w.current, w.peek, token⟩ := by
  simp [grouping]

/-- Behind an expression, a semicolon is at hand if one was there. -/
@[simp] theorem foresees_operand {post : Expr → Window → Prop} :
    operand.Foresees post w ↔ ∀ e (w : Window),
      (w.peek.kind = .semicolon → ∀ token, post e ⟨w.current, w.peek, token⟩) ∧
        (w.peek.kind ≠ .semicolon → post e w) := by
  simp [operand, skipSemicolon]

end Rule

open Rule

/-! ### The plans of rules -/

/-- Every rule for expressions that start on a token fails with causes that are foreseen. -/
theorem ExpressionRule.plan_foresees {post : Expr → Window → Prop} (hpost : ∀ e w, post e w)
    (rule : ExpressionRule) (w : Window) : rule.plan.Foresees post w := by
  cases rule
  case integer | float =>
    simp only [plan, Rule.integer, Rule.float, foresees_bind, foresees_current]
    split <;> simp [Cause.Foreseen, hpost]
  all_goals
    simp [plan, hpost, Cause.Foreseen, Rule.name, Rule.string, Rule.boolean, Rule.null,
      Rule.receiver,
      Rule.spread, Rule.unary, Rule.array, Rule.dict, Rule.list, Rule.conditional, Rule.whileLoop,
      Rule.await, Rule.importing, Rule.matching, Rule.channel, Rule.package, Rule.asyncFunction,
      Rule.function, functionFrom, Rule.switch, Rule.forLoop, Rule.repeatLoop, condition, loopNames,
      loopCounter, optionalName, parameterList, Rule.expr, Rule.trailing, Rule.pattern,
      Rule.arrayPattern]

/-- Every rule by which an expression goes on fails with causes that are foreseen. -/
theorem LinkingRule.plan_foresees {post : Expr → Window → Prop} (hpost : ∀ e w, post e w)
    (rule : LinkingRule) (left : Expr) (power : Power) (w : Window) :
    (rule.plan left power).Foresees post w := by
  cases rule
  case assignment =>
    simp only [plan, Rule.assignment, foresees_bind, foresees_current]
    split <;> simp [Cause.Foreseen, hpost]
  all_goals
    simp [plan, hpost, Rule.binary, Rule.range, Rule.call, Rule.index, Rule.member, sliceStop,
      Rule.list, Rule.expr]

/-- An expression that stands alone fails with causes that are foreseen. -/
theorem Rule.expressionStatement_foresees {post : Stmt → Window → Prop} (hpost : ∀ s w, post s w)
    (w : Window) : expressionStatement.Foresees post w := by
  simp [expressionStatement, anyExpr, Rule.expr, skipSemicolon, hpost]

/-- Every rule for statements fails with causes that are foreseen. -/
theorem StatementRule.plan_foresees {post : Stmt → Window → Prop} (hpost : ∀ s w, post s w)
    (rule : StatementRule) (w : Window) : rule.plan.Foresees post w := by
  cases rule
  case declarative =>
    simp only [plan, Rule.declarative, foresees_bind, foresees_current]
    split <;> simp [Cause.Foreseen, hpost]
  case expression => exact Rule.expressionStatement_foresees hpost w
  all_goals
    simp [plan, hpost, Cause.Foreseen, Rule.declaration, Rule.returning, Rule.breaking,
      Rule.continuing, Rule.including, blockStatement, Rule.enumeration, Rule.go, errorStatement,
      skipSemicolon, Rule.stmt]

/-! ### The plans of goals -/

namespace Grammar

variable {grammar : Grammar}

/-- In every grammar, an expression fails with causes that are foreseen. -/
theorem expression_foresees (grammar : Grammar) (power : Power) {post : Expr → Window → Prop}
    (hpost : ∀ e w, post e w) (w : Window) : (grammar.expression power).Foresees post w := by
  simp only [expression, foresees_bind, foresees_window]
  split
  · exact ExpressionRule.plan_foresees hpost _ w
  · split
    · exact trivial
    · exact foresees_bind.2 (ExpressionRule.plan_foresees (by simp [hpost]) _ w)

/-- The token that is taken is the one whose power was looked up, and so there is a rule for it. -/
theorem Paired.links_foresees (h : grammar.Paired) (power : Power) (left : Expr)
    {post : Expr → Window → Prop} (hpost : ∀ e w, post e w) (w : Window) :
    (grammar.links power left).Foresees post w := by
  simp only [links, foresees_bind, foresees_window, foresees_ite, foresees_advance,
    foresees_current, foresees_pure]
  refine ⟨fun hpeek token => ?_, fun _ => hpost left w⟩
  obtain ⟨rule, hrule⟩ := Option.isSome_iff_exists.1 (h.linking_isSome hpeek.2)
  rw [hrule]
  exact foresees_bind.2 (LinkingRule.plan_foresees (by simp [hpost]) _ _ _ _)

/-- In every grammar, a statement fails with causes that are foreseen. -/
theorem statementBody_foresees (grammar : Grammar) {post : Stmt → Window → Prop}
    (hpost : ∀ s w, post s w) (w : Window) : grammar.statementBody.Foresees post w := by
  simp only [statementBody, foresees_bind, foresees_window]
  split
  · exact StatementRule.plan_foresees hpost _ w
  · exact Rule.expressionStatement_foresees hpost w

/-- No plan of a paired grammar meets a token with a power and without a rule. -/
theorem Paired.body_foresees (h : grammar.Paired) (goal : Goal) {post : goal.Answer → Window → Prop}
    (hpost : ∀ answer w, post answer w) (w : Window) : (grammar.body goal).Foresees post w := by
  cases goal
  case expr power => exact expression_foresees grammar power hpost w
  case links power left => exact h.links_foresees power left hpost w
  case stmt => exact statementBody_foresees grammar hpost w
  all_goals
    simp [body, hpost, Cause.Foreseen, listBody, Rule.listTail, Rule.pairs, untilBrace, pair,
      memberComma, conditionalBody, condition, alternative, Rule.clauses, clause, selection,
        anyExpr,
      Rule.expr, Rule.caseValues, Rule.matchCases, matchCase, Rule.pattern, Rule.guard, caseBody,
      patternBody, arrayPattern, Rule.dict, Rule.patternItems, patternTail, Rule.parameters,
      parameterTail, Rule.names, Rule.members, enumMember, Rule.statements]

end Grammar

/-! ## Readings -/

namespace Parser

variable {α : Type} {p : Parser}

/-- Powers and rules go together, and no diagnostic says otherwise. -/
structure Regular (p : Parser) : Prop where
  paired : p.grammar.Paired
  foreseen : ∀ diagnostic ∈ p.diagnostics, diagnostic.cause.Foreseen

namespace Regular

/-- A new parser is regular. -/
theorem ofSource (source : Source) : (Parser.ofSource source).Regular where
  paired := Grammar.standard_paired
  foreseen := by simp [Parser.ofSource]

/-- A shift keeps a parser regular. -/
theorem advance (h : p.Regular) : p.advance.Regular :=
  ⟨h.paired, h.foreseen⟩

/-- Recording a cause that is foreseen keeps a parser regular. -/
theorem report (h : p.Regular) {cause : Cause} (hcause : cause.Foreseen) :
    (p.report cause).Regular := by
  refine ⟨h.paired, fun diagnostic hmem => ?_⟩
  rcases List.mem_append.1 hmem with hmem | hmem
  · exact h.foreseen diagnostic hmem
  · rwa [List.mem_singleton.1 hmem]

/-- Skipping keeps a parser regular. -/
theorem synchronize (h : p.Regular) (start : Checkpoint) (inBlock : Bool) :
    (p.synchronize start inBlock).Regular where
  paired := by
    rw [(synchronize_later p start inBlock).grammar_eq]
    exact h.paired
  foreseen := by
    rw [diagnostics_synchronize]
    exact h.foreseen

end Regular

/-- Following a plan keeps a parser regular, if the plan foresees its causes and its goals keep it
so. -/
theorem follow_regular {pursue : (goal : Goal) → Reading goal.Answer}
    (hpursue : ∀ goal q, q.Regular → (pursue goal q).2.Regular) {rule : Rule α}
    (hrule : rule.Foresees (fun _ _ => True) p.window) (hp : p.Regular) :
    (rule.follow pursue p).2.Regular := by
  induction rule generalizing p with
  | done value => exact hp
  | fail cause => exact hp.report hrule
  | look next ih => exact ih p.window hrule hp
  | shift next ih => exact ih (hrule p.source.next.1) hp.advance
  | need goal next ih =>
    have hgoal := hpursue goal p hp
    simp only [Rule.follow]
    rcases heq : pursue goal p with ⟨answer | _ | _, after⟩ <;> rw [heq] at hgoal
    · exact ih answer (hrule answer after.window) hgoal
    · exact hgoal
    · exact hgoal
  | salvage goal next rest ih =>
    have hgoal := hpursue goal p hp
    simp only [Rule.follow]
    rcases heq : pursue goal p with ⟨answer | _ | _, after⟩ <;> rw [heq] at hgoal
    · exact ih answer (hrule answer after.window) hgoal
    · exact hpursue rest _ (hgoal.synchronize p.checkpoint true)
    · exact hgoal

/-- Pursuing a goal keeps the parser regular, be the goal found or not, and be the budget ample or
not. -/
theorem pursue_regular (budget : Nat) (goal : Goal) (hp : p.Regular) :
    (pursue budget goal p).2.Regular := by
  induction budget generalizing goal p with
  | zero => exact hp
  | succ budget ih =>
    exact follow_regular (fun goal q hq => ih goal hq)
      (hp.paired.body_foresees goal (fun _ _ => trivial) p.window) hp

/-- Reading statements, however many, keeps a parser regular. -/
theorem slots_regular (budget rounds : Nat) (hp : p.Regular) :
    (p.slots budget rounds).2.Regular := by
  induction rounds generalizing p with
  | zero => exact hp
  | succ rounds ih =>
    unfold slots
    split
    · exact hp
    · have hstmt := pursue_regular budget .stmt hp
      rcases heq : pursue budget .stmt p with ⟨statement | _ | _, after⟩ <;> rw [heq] at hstmt
      · exact ih hstmt.advance
      · exact ih (hstmt.synchronize p.checkpoint false)
      · exact hstmt

end Parser

/-! ## What a caller can do -/

/-- What there is to call: the parts of a program that can be asked for, and every rule of the
language on its own, wherever the parser stands. Patterns, and statements of any kind, are among
what rules read. -/
inductive Routine : Type → Type where
  /-- An expression whose operators are stronger than the power. -/
  | expr (power : Power) : Routine Expr
  /-- Expressions between the opening bracket at hand and the closing one. -/
  | list (close : Kind) : Routine (List Expr)
  /-- A block. -/
  | block : Routine Block
  /-- What a rule reads for an expression from the token at hand on. -/
  | expression (rule : ExpressionRule) : Routine Expr
  /-- What a rule reads for an expression that goes on at the token at hand. -/
  | linking (rule : LinkingRule) (left : Expr) (power : Power) : Routine Expr
  /-- What a rule reads for a statement that starts on the token at hand. -/
  | statement (rule : StatementRule) : Routine Stmt
  /-- A step onto the next token if it is of the kind. -/
  | expect (kind : Kind) : Routine Unit
  /-- A step onto the next token if it is a semicolon. -/
  | skipSemicolon : Routine Unit

/-- The plan that is followed. -/
def Routine.plan {α : Type} : Routine α → Rule α
  | expr power => Rule.expr power
  | list close => Rule.list close
  | block => Rule.block
  | expression rule => rule.plan
  | linking rule left power => rule.plan left power
  | statement rule => rule.plan
  | expect kind => Rule.expect kind
  | skipSemicolon => Rule.skipSemicolon

/-- The plan of every routine fails with causes that are foreseen. -/
theorem Routine.plan_foresees {α : Type} (routine : Routine α) (w : Window) :
    routine.plan.Foresees (fun _ _ => True) w := by
  cases routine with
  | expression rule => exact rule.plan_foresees (fun _ _ => trivial) w
  | linking rule left power => exact rule.plan_foresees (fun _ _ => trivial) left power w
  | statement rule => exact rule.plan_foresees (fun _ _ => trivial) w
  | skipSemicolon => simp [plan, Rule.skipSemicolon]
  | expr | list | block | expect => simp [plan, Rule.expr, Rule.list]

namespace Parser

/-- What a caller can do with a parser. A call can be given any budget: the ample one of
`Parser.run` and `Parser.program`, or one that runs out, which shows how far a reading without an
end has come. -/
inductive Use where
  /-- Register a rule for expressions that start on a kind. -/
  | registerLeading (kind : Kind) (rule : ExpressionRule)
  /-- Register a rule and a power for expressions that go on at a kind. -/
  | registerLinking (kind : Kind) (power : Power) (rule : LinkingRule)
  /-- Register a rule for expressions that start on a kind and from which nothing goes on. -/
  | registerTrailing (kind : Kind) (rule : ExpressionRule)
  /-- Register a rule for statements that start on a kind. -/
  | registerStatement (kind : Kind) (rule : StatementRule)
  /-- Shift the window by one token. -/
  | advance
  /-- Skip what is left of a failed statement. -/
  | synchronize (start : Checkpoint) (inBlock : Bool)
  /-- Call a routine. -/
  | call {α : Type} (routine : Routine α) (budget : Nat)
  /-- Read statements up to the end of input, at most `rounds` of them. -/
  | program (budget rounds : Nat)

/-- The parser after it was used. -/
def use (p : Parser) : Use → Parser
  | .registerLeading kind rule => { p with grammar := p.grammar.registerLeading kind rule }
  | .registerLinking kind power rule =>
    { p with grammar := p.grammar.registerLinking kind power rule }
  | .registerTrailing kind rule => { p with grammar := p.grammar.registerTrailing kind rule }
  | .registerStatement kind rule => { p with grammar := p.grammar.registerStatement kind rule }
  | .advance => p.advance
  | .synchronize start inBlock => p.synchronize start inBlock
  | .call routine budget => (routine.plan.follow (pursue budget) p).2
  | .program budget rounds => (p.slots budget rounds).2

variable {p : Parser}

/-- Whatever is done with a regular parser, it stays regular. -/
theorem Regular.use (h : p.Regular) (use : Use) : (p.use use).Regular := by
  cases use with
  | registerLeading kind rule => exact ⟨h.paired, h.foreseen⟩
  | registerLinking kind power rule => exact ⟨h.paired.registerLinking kind power rule, h.foreseen⟩
  | registerTrailing kind rule => exact ⟨h.paired, h.foreseen⟩
  | registerStatement kind rule => exact ⟨h.paired, h.foreseen⟩
  | advance => exact h.advance
  | synchronize start inBlock => exact h.synchronize start inBlock
  | call routine budget =>
    exact follow_regular (fun goal _ hq => pursue_regular budget goal hq)
      (routine.plan_foresees p.window) h
  | program budget rounds => exact slots_regular budget rounds h

/-- Any uses one after the other keep a parser regular. -/
theorem Regular.uses (h : p.Regular) (uses : List Use) : (uses.foldl Parser.use p).Regular := by
  induction uses generalizing p with
  | nil => exact h
  | cons use uses ih => exact ih (h.use use)

end Parser

/-- **Expressions go on only where there is a rule.** Take a new parser over any source of tokens,
and use it in any way: register rules for any kinds and with any powers, shift the window, skip, and
call any routine, in any order. Then the kinds that have a power are those that have a linking rule.
So no call has ever recorded that a token has the one and not the other. -/
theorem continuations_foreseen (source : Source) (uses : List Parser.Use) :
    (∀ kind, ((uses.foldl Parser.use (.ofSource source)).grammar.power kind).isSome ↔
        ((uses.foldl Parser.use (.ofSource source)).grammar.linking kind).isSome) ∧
      ∀ diagnostic ∈ (uses.foldl Parser.use (.ofSource source)).diagnostics, ∀ kind,
        diagnostic.cause ≠ .unexpectedContinuation kind := by
  have hregular := (Parser.Regular.ofSource source).uses uses
  exact ⟨hregular.paired, fun diagnostic hmem =>
    Cause.foreseen_iff.1 (hregular.foreseen diagnostic hmem)⟩

/-- With a power and no rule for `!`, the cause is given where an expression would go on there. -/
example :
    let tokens : List Token := [⟨.identifier, "a", 1⟩, ⟨.not, "!", 1⟩]
    let power := Grammar.update Grammar.standard.power .not (some .call)
    let parser := { Parser.ofTokens tokens with grammar := { Grammar.standard with power } }
    (parser.run Rule.stmt).2.diagnostics = [⟨.unexpectedContinuation .not, 1⟩] := by
  decide +kernel

end ScriptFront
