import ScriptFront.Proofs.Parser.Motion

/-!
# The budget is ample

With the standard grammar, pursuing a goal never runs out of the budget that `Parser.budget` gives
(`pursue_ne_exhausted`), so more budget changes nothing (`pursue_eq_of_budget_le`), and neither does
following any plan (`follow_ne_exhausted`).

Goals nest without end only if the window stands still. `Rule.Opens` reads off a plan which goals it
can ask for before its first shift; these have a lower `Goal.rank` (`Grammar.body_opens`). A shift
brings the horizon nearer. Once there is nothing but ends of input ahead (the *dry* case) a shift
gains nothing, but then hardly any rule gets further than its first token, and the ranks of that
case go down with every goal that is asked for.
-/

namespace ScriptFront

/-- How many goals can be pursued one inside the other before the window shifts, or at all when the
input is dry. -/
def Goal.rank (dry : Bool) : Goal → Nat
  | .expr _ => if dry then 1 else 2
  | .statements => if dry then 1 else 4
  | .stmt | .pattern => if dry then 2 else 3
  | .list _ => if dry then 2 else 1
  | .patternItems _ => if dry then 3 else 1
  | _ => 1

/-- Every goal has a rank above zero. -/
theorem Goal.rank_pos (dry : Bool) (goal : Goal) : 0 < goal.rank dry := by
  cases goal <;> cases dry <;> simp [rank]

/-- No goal has a rank above four. -/
theorem Goal.rank_le_four (dry : Bool) (goal : Goal) : goal.rank dry ≤ 4 := by
  cases goal <;> cases dry <;> simp [rank]

/-! ## What a plan asks for before it moves -/

/-- Before its first shift, or ever when the input is dry, the plan asks only for goals whose rank
is below the bound, it salvages nothing, and a value it is done with has the property. -/
def Rule.Opens {α : Type} (dry : Bool) (bound : Nat) (post : α → Prop) : Rule α → Prop
  | .done value => post value
  | .fail _ => True
  | .look next => ∀ w : Window, (dry → w.current.kind = .eof ∧ w.peek.kind = .eof) →
      (next w).Opens dry bound post
  | .shift next => dry → next.Opens dry bound post
  | .need goal next => goal.rank dry < bound ∧ ∀ answer, (next answer).Opens dry bound post
  | .salvage _ _ _ => False

namespace Rule

variable {α β : Type} {dry : Bool} {bound : Nat} {post : α → Prop}

/-- What two plans one after the other ask for, the first asks for, or the second behind its
value. -/
@[simp] theorem opens_bind {rule : Rule β} {f : β → Rule α} :
    (rule >>= f).Opens dry bound post ↔
      rule.Opens dry bound fun value => (f value).Opens dry bound post := by
  change (rule.bind f).Opens dry bound post ↔ _
  induction rule with
  | done value => rfl
  | fail cause => rfl
  | look next ih => exact forall_congr' fun w => forall_congr' fun _ => ih w
  | shift next ih => exact forall_congr' fun _ => ih
  | need goal next ih => exact and_congr_right fun _ => forall_congr' ih
  | salvage => rfl

/-- A plan that is done asks for nothing. -/
@[simp] theorem opens_pure (value : α) :
    (pure value : Rule α).Opens dry bound post ↔ post value := Iff.rfl

/-- A plan that is done asks for nothing and has its value. -/
@[simp] theorem opens_done (value : α) :
    (done value).Opens dry bound post ↔ post value := Iff.rfl

/-- A plan that fails asks for nothing. -/
@[simp] theorem opens_fail (cause : Cause) : (fail cause : Rule α).Opens dry bound post := trivial

/-- A goal that is asked for must have a rank below the bound. -/
@[simp] theorem opens_need {goal : Goal} {next : goal.Answer → Rule α} :
    (need goal next).Opens dry bound post ↔
      goal.rank dry < bound ∧ ∀ answer, (next answer).Opens dry bound post := Iff.rfl

/-- A choice asks for what the plan that is chosen asks for. -/
@[simp] theorem opens_ite {c : Prop} [Decidable c] {a b : Rule α} :
    (if c then a else b).Opens dry bound post ↔
      (c → a.Opens dry bound post) ∧ (¬ c → b.Opens dry bound post) := by
  split <;> simp [*]

/-- Looking asks for nothing, and on a dry input there are only ends of input to see. -/
@[simp] theorem opens_window {post : Window → Prop} :
    window.Opens dry bound post ↔
      ∀ w : Window, (dry → w.current.kind = .eof ∧ w.peek.kind = .eof) → post w := Iff.rfl

/-- Looking at the token at hand asks for nothing. -/
@[simp] theorem opens_current {post : Token → Prop} :
    current.Opens dry bound post ↔
      ∀ w : Window, (dry → w.current.kind = .eof ∧ w.peek.kind = .eof) → post w.current := Iff.rfl

/-- Looking at the next token asks for nothing. -/
@[simp] theorem opens_peekIs {post : Bool → Prop} (kind : Kind) :
    (peekIs kind).Opens dry bound post ↔
      ∀ w : Window, (dry → w.current.kind = .eof ∧ w.peek.kind = .eof) →
        post (w.peek.kind = kind) := Iff.rfl

/-- Behind a shift, only a dry input matters. -/
@[simp] theorem opens_advance {post : Unit → Prop} :
    advance.Opens dry bound post ↔ (dry → post ()) := Iff.rfl

/-- On a dry input the end of input is the only kind that can be expected with success. -/
@[simp] theorem opens_expect {post : Unit → Prop} {kind : Kind} :
    (expect kind).Opens dry bound post ↔ (dry → kind = .eof → post ()) := by
  simp only [expect, opens_bind, opens_window, opens_ite, opens_advance, opens_fail, implies_true,
    and_true]
  constructor
  · intro h hdry heof
    exact h ⟨Token.eof 1, Token.eof 1, Token.eof 1⟩ (fun _ => ⟨rfl, rfl⟩) heof.symm hdry
  · intro h w hw hkind hdry
    exact h hdry (hkind ▸ (hw hdry).2)

/-- A name moves the window, and there is none on a dry input. -/
@[simp] theorem opens_expectIdentifier {post : Identifier → Prop} :
    expectIdentifier.Opens dry bound post := by
  simp [expectIdentifier]

/-- On a dry input, an expression on the next token has a rank of one. -/
@[simp] theorem opens_nextExpr {post : Expr → Prop} :
    nextExpr.Opens dry bound post ↔ (dry → 1 < bound ∧ ∀ e, post e) := by
  cases dry <;> simp [nextExpr, anyExpr, expr, Goal.rank]

/-- A condition moves the window, and there is none on a dry input. -/
@[simp] theorem opens_condition {post : Expr → Prop} : condition.Opens dry bound post := by
  simp [condition]

/-- A block moves the window, and there is none on a dry input. -/
@[simp] theorem opens_body {post : Block → Prop} : body.Opens dry bound post := by
  simp [body]

/-- Members in braces begin with a shift, and are not looked for on a dry input. -/
theorem opens_untilBrace {post : List α → Prop} {construct : String} {member : Rule α}
    {more : Rule (List α)} (hmember : ∀ post, member.Opens false bound post) (hpost : ∀ l, post l) :
    (untilBrace construct member more).Opens dry bound post := by
  cases dry
  · simp [untilBrace, hmember, hpost]
  · simp +contextual [untilBrace]

end Rule

open Rule

/-! ## What each rule asks for before it moves -/

/-- Before its first shift, a rule for the first token of an expression asks for goals of rank one
only. -/
theorem ExpressionRule.plan_opens {post : Expr → Prop} (hpost : ∀ e, post e) {rule : ExpressionRule}
    (hrule : rule.isLeading = true) : rule.plan.Opens false 2 post := by
  cases rule
  case step | pattern | arrayPattern => cases hrule
  case integer | float =>
    simp only [plan, Rule.integer, Rule.float, opens_bind, opens_current]
    intro w _
    split <;> simp [hpost]
  all_goals
    simp [plan, hpost, Goal.rank, Rule.name, Rule.string, Rule.boolean, Rule.null, Rule.receiver,
      Rule.spread, Rule.unary, Rule.array, Rule.dict, Rule.list, Rule.conditional, Rule.whileLoop,
      Rule.grouping, Rule.await, Rule.importing, Rule.matching, Rule.channel, Rule.package,
      Rule.asyncFunction, Rule.function, functionFrom, Rule.switch, Rule.forLoop, Rule.repeatLoop,
      loopNames, loopCounter, optionalName]

/-- Before its first shift, a rule for the first token of a statement asks for goals of rank two at
most. -/
theorem StatementRule.plan_opens {post : Stmt → Prop} (hpost : ∀ s, post s) {rule : StatementRule}
    (hrule : rule.isLeading = true) : rule.plan.Opens false 3 post := by
  cases rule
  case expression | any => cases hrule
  case declarative =>
    simp only [plan, Rule.declarative, opens_bind, opens_current]
    intro w _
    split <;> simp [operand]
  all_goals
    simp [plan, hpost, Rule.declaration, Rule.returning, Rule.breaking, Rule.continuing,
      Rule.including, blockStatement, Rule.block, Rule.enumeration, Rule.go, errorStatement,
        operand,
      skipSemicolon]

namespace Grammar

/-- An expression asks for goals of a lower rank. -/
theorem expression_opens (dry : Bool) (power : Power) {post : Expr → Prop} (hpost : ∀ e, post e) :
    (standard.expression power).Opens dry ((Goal.expr power).rank dry) post := by
  rw [standard_expression]
  simp only [opens_bind, opens_window, opens_ite]
  intro w hw
  refine ⟨fun _ => by simp [Rule.trailing, hpost], fun _ => ?_⟩
  cases dry with
  | false =>
    split
    · exact opens_fail _
    · next hleading =>
      have hrule := isLeading_of_standard hleading
      exact opens_bind.2 (ExpressionRule.plan_opens (by simp [Goal.rank, hpost]) hrule)
  | true =>
    -- no expression starts on the end of input
    have hnone : standard.leading w.current.kind = none := by rw [(hw rfl).1]; rfl
    rw [hnone]
    exact opens_fail _

/-- The rest of an expression asks for goals of a lower rank. -/
theorem links_opens (dry : Bool) (power : Power) (left : Expr) {post : Expr → Prop}
    (hpost : ∀ e, post e) :
    (standard.links power left).Opens dry ((Goal.links power left).rank dry) post := by
  simp only [links, opens_bind, opens_window, opens_ite, opens_advance, opens_pure]
  intro w hw
  refine ⟨fun hpower hdry => ?_, fun _ => hpost left⟩
  -- the end of input has no power
  rw [(hw hdry).2] at hpower
  exact absurd hpower.2 (Nat.not_lt_zero _)

/-- A statement asks for goals of a lower rank. -/
theorem statementBody_opens (dry : Bool) {post : Stmt → Prop} (hpost : ∀ s, post s) :
    standard.statementBody.Opens dry (Goal.stmt.rank dry) post := by
  have hexpression : expressionStatement.Opens dry (Goal.stmt.rank dry) post := by
    cases dry <;> simp [expressionStatement, skipSemicolon, anyExpr, Rule.expr, Goal.rank, hpost]
  simp only [statementBody, opens_bind, opens_window]
  intro w hw
  cases dry with
  | false =>
    split
    · next hstatement =>
      exact StatementRule.plan_opens hpost (isLeading_of_standardStatement hstatement)
    · exact hexpression
  | true =>
    have hnone : standard.statement w.current.kind = none := by rw [(hw rfl).1]; rfl
    rw [hnone]
    exact hexpression

/-- The plan for a goal asks for goals of lower rank until it shifts the window. The statements of a
block are left out when the input is not dry: they are the one goal that salvages. -/
theorem body_opens (dry : Bool) (goal : Goal) (hgoal : dry = false → goal ≠ .statements)
    {post : goal.Answer → Prop} (hpost : ∀ answer, post answer) :
    (standard.body goal).Opens dry (goal.rank dry) post := by
  cases goal
  case expr power => exact expression_opens dry power hpost
  case links power left => exact links_opens dry power left hpost
  case stmt => exact statementBody_opens dry hpost
  case pairs => exact opens_untilBrace (by simp [pair]) hpost
  case clauses => exact opens_untilBrace (by simp [clause]) hpost
  case matchCases => exact opens_untilBrace (by simp [matchCase]) hpost
  case members => exact opens_untilBrace (by simp [enumMember]) hpost
  case statements =>
    cases dry
    · exact absurd rfl (hgoal rfl)
    · simp +contextual [body, Rule.statements, hpost]
  all_goals
    cases dry <;>
      simp +contextual [body, hpost, Goal.rank, listBody, Rule.listTail, conditionalBody,
        Rule.caseValues, patternBody, arrayPattern, Rule.pattern, Rule.dict, anyExpr, Rule.expr,
        Rule.patternItems, patternTail, Rule.parameters, parameterTail, Rule.names]

end Grammar

/-! ## Following never runs dry of budget -/

namespace Parser

variable {α : Type} {pursue : (goal : Goal) → Reading goal.Answer}

/-- A plan does not exhaust the budget when no goal does that it can come to ask for. -/
theorem follow_ne_exhausted_of_later (rule : Rule α) (p : Parser)
    (hlater : ∀ goal q, Later q (pursue goal q).2)
    (hpursue : ∀ goal q, Later p q → (pursue goal q).1 ≠ .exhausted) :
    (rule.follow pursue p).1 ≠ .exhausted := by
  induction rule generalizing p with
  | done value => simp [follow]
  | fail cause => simp [follow]
  | look next ih => exact ih p.window p hpursue
  | shift next ih => exact ih p.advance fun goal q h => hpursue goal q (Later.refl.advance.trans h)
  | need goal next ih =>
    have hgoal := hpursue goal p .refl
    have hafter := hlater goal p
    simp only [follow]
    split <;> rename_i heq <;> rw [heq] at hgoal hafter
    · exact ih _ _ fun goal q h => hpursue goal q (hafter.trans h)
    · simp
    · exact absurd rfl hgoal
  | salvage goal next rest ih =>
    have hgoal := hpursue goal p .refl
    have hafter := hlater goal p
    simp only [follow]
    split <;> rename_i heq <;> rw [heq] at hgoal hafter
    · exact ih _ _ fun goal q h => hpursue goal q (hafter.trans h)
    · next after =>
      have hrest := hpursue rest _ (hafter.trans (synchronize_later after p.checkpoint true))
      intro hreply
      cases hdiscard : (pursue rest (after.synchronize p.checkpoint true)).1 with
      | found value => simp [hdiscard, Reply.discard] at hreply
      | absent => simp [hdiscard, Reply.discard] at hreply
      | exhausted => exact hrest hdiscard
    · exact absurd rfl hgoal

/-- It is enough that no goal exhausts the budget that is asked for after a shift, and none of a low
rank before. -/
theorem follow_ne_exhausted_of_opens (dry : Bool) {bound : Nat} {post : α → Prop} {start : Parser}
    (hdry : dry = true → start.horizon = 0) (hlater : ∀ goal q, Later q (pursue goal q).2)
    (hpursue : ∀ goal q, Later start q →
      dry = false ∧ start.position < q.position ∨ goal.rank dry < bound →
        (pursue goal q).1 ≠ .exhausted)
    (rule : Rule α) (hrule : rule.Opens dry bound post) (p : Parser) (hp : Later start p) :
    (rule.follow pursue p).1 ≠ .exhausted := by
  induction rule generalizing p with
  | done value => simp [follow]
  | fail cause => simp [follow]
  | look next ih =>
    refine ih p.window (hrule p.window fun h => ?_) p hp
    have hhorizon := hp.horizon_le
    rw [hdry h] at hhorizon
    exact kind_of_horizon_eq_zero (by omega)
  | shift next ih =>
    cases dry with
    | true => exact ih (hrule rfl) p.advance hp.advance
    | false =>
      -- from here on every goal is asked for behind the start
      refine follow_ne_exhausted_of_later next p.advance hlater fun goal q hq => ?_
      refine hpursue goal q (hp.advance.trans hq) (.inl ⟨rfl, ?_⟩)
      have hstart := hp.position_le
      have hmoved := hq.position_le
      rw [position_advance] at hmoved
      omega
  | need goal next ih =>
    have hgoal := hpursue goal p hp (.inr hrule.1)
    have hafter := hlater goal p
    simp only [follow]
    split <;> rename_i heq <;> rw [heq] at hgoal hafter
    · exact ih _ (hrule.2 _) _ (hp.trans hafter)
    · simp
    · exact absurd rfl hgoal
  | salvage => exact hrule.elim

/-- The budget that pursuing a goal can use up at most. -/
def demand (goal : Goal) (p : Parser) : Nat :=
  5 * p.horizon + goal.rank (p.horizon = 0)

/-- What is asked for behind the start, or with a lower rank, demands less. -/
theorem demand_lt {start q : Parser} (hstart : 0 < start.horizon) (hq : Later start q)
    {goal asked : Goal}
    (h : start.position < q.position ∨ asked.rank false < goal.rank false) :
    demand asked q < demand goal start := by
  have hhorizon := hq.horizon_le
  have hle := hq.position_le
  have hasked := asked.rank_le_four (q.horizon = 0)
  have hgoal := goal.rank_pos false
  unfold demand
  rw [decide_eq_false (show ¬ start.horizon = 0 by omega)]
  by_cases hzero : q.horizon = 0
  · omega
  · rw [decide_eq_false hzero] at hasked ⊢
    omega

/-- On a dry input only a lower rank demands less. -/
theorem demand_lt_of_dry {start q : Parser} (hstart : start.horizon = 0) (hq : Later start q)
    {goal asked : Goal} (h : asked.rank true < goal.rank true) :
    demand asked q < demand goal start := by
  have hhorizon := hq.horizon_le
  have hzero : q.horizon = 0 := by omega
  simpa [demand, hstart, hzero] using h

/-- The statements of a block use up no more than they demand: the first statement has a lower rank,
and what follows it, salvaged or not, begins behind it. -/
theorem follow_statements_ne_exhausted {p : Parser}
    (hlater : ∀ goal q, Later q (pursue goal q).2)
    (hpursue : ∀ goal q, Later p q →
      p.position < q.position ∨ goal.rank false < Goal.statements.rank false →
        (pursue goal q).1 ≠ .exhausted) :
    (Rule.statements.follow pursue p).1 ≠ .exhausted := by
  change (Rule.follow pursue (if p.window.current.kind = .closeCurly then _ else _) p).1 ≠ _
  by_cases hclose : p.window.current.kind = .closeCurly
  · rw [if_pos hclose]
    exact nofun
  rw [if_neg hclose]
  by_cases heof : p.window.current.kind = .eof
  · rw [if_pos heof]
    exact nofun
  rw [if_neg heof]
  have hstmt := hpursue .stmt p .refl (.inr (by decide))
  have hafter := hlater .stmt p
  simp only [follow]
  split <;> rename_i heq <;> rw [heq] at hstmt hafter
  · next answer after =>
    refine follow_ne_exhausted_of_later _ after.advance hlater fun goal q hq => ?_
    have hposition : p.position ≤ after.position := hafter.position_le
    have hmoved := hq.position_le
    rw [position_advance] at hmoved
    exact hpursue goal q (hafter.advance.trans hq) (.inl (by omega))
  · next after =>
    have hrest := hpursue .statements _ (hafter.trans (synchronize_later after p.checkpoint true))
      (.inl (position_lt_synchronize hafter heof true))
    intro hreply
    cases hdiscard : (pursue .statements (after.synchronize p.checkpoint true)).1 with
    | found value => simp [hdiscard, Reply.discard] at hreply
    | absent => simp [hdiscard, Reply.discard] at hreply
    | exhausted => exact hrest hdiscard
  · exact absurd rfl hstmt

/-- With the standard grammar, a budget of what a goal demands is enough. -/
theorem pursue_ne_exhausted_of_demand_le {budget : Nat} {goal : Goal} {p : Parser}
    (hgrammar : p.grammar = .standard) (hbudget : demand goal p ≤ budget) :
    (Parser.pursue budget goal p).1 ≠ .exhausted := by
  induction budget generalizing goal p with
  | zero =>
    have hrank := goal.rank_pos (p.horizon = 0)
    unfold demand at hbudget
    omega
  | succ budget ih =>
    rw [Parser.pursue, hgrammar]
    by_cases hzero : p.horizon = 0
    · refine follow_ne_exhausted_of_opens true (fun _ => hzero) (pursue_later budget)
        (fun asked q hq h => ?_) _ (Grammar.body_opens true goal nofun fun _ => trivial) p .refl
      have hlt := demand_lt_of_dry hzero hq (h.resolve_left nofun)
      exact ih (hq.grammar_eq.trans hgrammar) (by omega)
    · have hpursue : ∀ asked q, Later p q →
          p.position < q.position ∨ asked.rank false < goal.rank false →
            (Parser.pursue budget asked q).1 ≠ .exhausted := by
        intro asked q hq h
        have hlt := demand_lt (Nat.pos_of_ne_zero hzero) hq h
        exact ih (hq.grammar_eq.trans hgrammar) (by omega)
      by_cases hgoal : goal = .statements
      · subst hgoal
        exact follow_statements_ne_exhausted (pursue_later budget) hpursue
      · exact follow_ne_exhausted_of_opens false nofun (pursue_later budget)
          (fun asked q hq h => hpursue asked q hq (h.imp And.right id)) _
          (Grammar.body_opens false goal (fun _ => hgoal) fun _ => trivial) p .refl

/-- The budget of a parser is enough for every goal in every later state. -/
theorem demand_le_budget {p q : Parser} (hq : Later p q) (goal : Goal) :
    demand goal q ≤ p.budget := by
  have hhorizon := q.horizon_le_remaining
  have hremaining := hq.remaining_le
  have hrank := goal.rank_le_four (q.horizon = 0)
  unfold demand budget
  omega

/-- A later parser has no larger a budget. -/
theorem budget_le_of_later {p q : Parser} (hq : Later p q) : q.budget ≤ p.budget := by
  have hremaining := hq.remaining_le
  unfold budget
  omega

/-- No plan exhausts the budget of the parser that starts to follow it. -/
theorem follow_ne_exhausted {p : Parser} (hgrammar : p.grammar = .standard) (rule : Rule α)
    {budget : Nat} (hbudget : p.budget ≤ budget) :
    (rule.follow (Parser.pursue budget) p).1 ≠ .exhausted :=
  follow_ne_exhausted_of_later rule p (pursue_later budget) fun goal _ hq =>
    pursue_ne_exhausted_of_demand_le (hq.grammar_eq.trans hgrammar)
      (Nat.le_trans (demand_le_budget hq goal) hbudget)

/-- No goal exhausts the budget of the parser. -/
theorem pursue_ne_exhausted {p : Parser} (hgrammar : p.grammar = .standard) (goal : Goal)
    {budget : Nat} (hbudget : p.budget ≤ budget) :
    (Parser.pursue budget goal p).1 ≠ .exhausted :=
  pursue_ne_exhausted_of_demand_le hgrammar (Nat.le_trans (demand_le_budget .refl goal) hbudget)

/-! ## More budget changes nothing -/

/-- Two ways to pursue goals that agree where the first is not exhausted follow a plan alike, unless
it exhausts the first. -/
theorem follow_congr {pursue₁ pursue₂ : (goal : Goal) → Reading goal.Answer}
    (hpursue : ∀ goal q, (pursue₁ goal q).1 ≠ .exhausted → pursue₂ goal q = pursue₁ goal q)
    (rule : Rule α) (p : Parser) (h : (rule.follow pursue₁ p).1 ≠ .exhausted) :
    rule.follow pursue₂ p = rule.follow pursue₁ p := by
  induction rule generalizing p with
  | done value => rfl
  | fail cause => rfl
  | look next ih => exact ih p.window p h
  | shift next ih => exact ih p.advance h
  | need goal next ih =>
    simp only [follow] at h ⊢
    rcases hreply : pursue₁ goal p with ⟨answer | _ | _, after⟩ <;> simp only [hreply] at h
    · rw [hpursue goal p (by simp [hreply]), hreply]
      exact ih answer after h
    · rw [hpursue goal p (by simp [hreply]), hreply]
    · exact absurd rfl h
  | salvage goal next rest ih =>
    simp only [follow] at h ⊢
    rcases hreply : pursue₁ goal p with ⟨answer | _ | _, after⟩ <;> simp only [hreply] at h
    · rw [hpursue goal p (by simp [hreply]), hreply]
      exact ih answer after h
    · rw [hpursue goal p (by simp [hreply]), hreply]
      have hrest : (pursue₁ rest (after.synchronize p.checkpoint true)).1 ≠ .exhausted := by
        intro hexhausted
        rw [hexhausted] at h
        exact h rfl
      simp only [hpursue rest _ hrest]
    · exact absurd rfl h

/-- A reply that is no exhaustion stays the same with more budget. -/
theorem pursue_mono {budget more : Nat} (hle : budget ≤ more) {goal : Goal} {p : Parser}
    (h : (Parser.pursue budget goal p).1 ≠ .exhausted) :
    Parser.pursue more goal p = Parser.pursue budget goal p := by
  induction budget generalizing goal p more with
  | zero => exact absurd rfl h
  | succ budget ih =>
    obtain ⟨more, rfl⟩ : ∃ m, more = m + 1 := ⟨more - 1, by omega⟩
    exact follow_congr (fun goal q hq => ih (by omega) hq) _ p h

/-- From the budget of the parser on, the budget does not matter. -/
theorem pursue_eq_of_budget_le {p : Parser} (hgrammar : p.grammar = .standard) (goal : Goal)
    {budget : Nat} (hbudget : p.budget ≤ budget) :
    Parser.pursue budget goal p = Parser.pursue p.budget goal p :=
  pursue_mono hbudget (pursue_ne_exhausted hgrammar goal (Nat.le_refl _))

end Parser

end ScriptFront
