import ScriptFront.Proofs.Parser.MoveInvariant

/-!
# Every plan keeps to a move invariant

One lemma for each rule of the language, in the order of the grammar's modules; each is put together
as the rule itself is. `MoveInvariant.body_ensures` collects them for all goals but statements, of
which each invariant says something else, and `statementBody_ensures` tells how a statement is read.
-/

namespace ScriptFront

open ScriptFront.Parser

namespace Rule

variable {g : MoveInvariant} {p : Parser}

/-! ## Operands -/

/-- A name takes nothing behind the token at hand. -/
theorem goesOn_name : name.GoesOn g :=
  goesOn_current.bind fun _ => goesOn_pure _

/-- An integer literal takes nothing behind the token at hand, and may fail on it. -/
theorem goesOn_integer : integer.GoesOn g := by
  refine goesOn_current.bind fun token => ?_
  split
  · exact goesOn_pure _
  · exact goesOn_fail (g.excuse_of_not_forUntaken id)

/-- A literal with a fraction takes nothing behind the token at hand, and may fail on it. -/
theorem goesOn_float : float.GoesOn g := by
  refine goesOn_current.bind fun token => ?_
  split
  · exact goesOn_pure _
  · exact goesOn_fail (g.excuse_of_not_forUntaken id)

/-- A spread goes on to its name. -/
theorem goesOn_spread : spread.GoesOn g :=
  goesOn_current.bind fun _ => goesOn_expectIdentifier.bind fun _ => goesOn_pure _

/-- Parentheses go on to the closing one. -/
theorem goesOn_grouping : grouping.GoesOn g :=
  goesOn_nextExpr.bind fun _ => (goesOn_expect (g.step_named (by decide))).bind fun _ =>
    goesOn_pure _

/-- The rest of a list goes on to the closing bracket. -/
theorem goesOn_listTail {close : Kind} (hclose : g.Step close) : (listTail close).GoesOn g := by
  refine goesOn_ifPeek (g.step_named (by decide)) ((goesOn_peekIs close).bind fun _ => ?_)
    (goesOn_pure _)
  refine goesOn_ite (goesOn_pure _) (goesOn_nextExpr.bind fun first => ?_)
  exact goesOn_need hclose fun _ => goesOn_pure _

/-- A list goes on from its opening bracket to the closing one. -/
theorem goesOn_listBody {close : Kind} (hclose : g.Step close) : (listBody close).GoesOn g := by
  refine goesOn_ifPeek hclose (goesOn_pure _) (goesOn_nextExpr.bind fun first => ?_)
  refine goesOn_need hclose fun rest => ?_
  exact (goesOn_expect hclose).bind fun _ => goesOn_pure _

/-- An array goes on to the closing bracket. -/
theorem goesOn_array : array.GoesOn g :=
  goesOn_current.bind fun _ => (goesOn_list (g.step_named (by decide))).bind fun _ => goesOn_pure _

/-- The comma after a member is taken, or nothing is. -/
theorem goesOn_memberComma : memberComma.GoesOn g :=
  (goesOn_peekIs _).bind fun _ =>
    goesOn_ite (goesOn_pure _) (goesOn_expect (g.step_named (by decide)))

/-- A pair goes on from its key to its value and the comma. -/
theorem goesOn_pair : pair.GoesOn g :=
  goesOn_nextExpr.bind fun _ => (goesOn_expect (g.step_named (by decide))).bind fun _ =>
    goesOn_nextExpr.bind fun _ => goesOn_memberComma.bind fun _ => goesOn_pure _

/-- The pairs that are left of a dict close in front of the brace. -/
theorem closes_pairs : pairs.Closes g :=
  closes_untilBrace _ goesOn_pair (closes_need trivial)

/-- A dict is a part that starts on its opening brace. -/
theorem spansAt_dict (hp : g.Taken p) (hkind : p.kind = .openCurly) : dict.SpansAt g p :=
  ⟨fun w hw => by rw [g.window_eq hp hw],
    spansAt_braces trivial (fun _ => goesOn_pure _) hp hkind⟩

/-! ## Operators -/

/-- An operator in front of its operand goes on to the end of the operand. -/
theorem goesOn_unary : unary.GoesOn g :=
  goesOn_current.bind fun _ => ((spans_expr _).bind fun _ => goesOn_pure _).goesOn_advance

/-- The word `await` goes on to the end of its operand. -/
theorem goesOn_await : await.GoesOn g :=
  goesOn_current.bind fun _ => ((spans_expr _).bind fun _ => goesOn_pure _).goesOn_advance

/-- An operator between its operands goes on to the end of the right one. -/
theorem goesOn_binary (left : Expr) (power : Power) : (binary left power).GoesOn g :=
  goesOn_current.bind fun _ => ((spans_expr _).bind fun _ => goesOn_pure _).goesOn_advance

/-- A range goes on to the end of its upper bound. -/
theorem goesOn_range (left : Expr) (power : Power) : (range left power).GoesOn g :=
  goesOn_current.bind fun _ => ((spans_expr _).bind fun _ => goesOn_pure _).goesOn_advance

/-- An operator behind its operand is a part of its own, be it in its place or not. -/
theorem spansAt_trailing (hp : g.Open p) (hkind : g.Step p.kind) : trailing.SpansAt g p := by
  refine ensures_window hp (.inl hkind) ?_
  split
  · exact (goesOn_pure _).spansAt hp hkind
  · exact spansAt_fail hp (.inr hkind)

/-- An assignment goes on to the end of its value, and may fail on its operator. -/
theorem goesOn_assignment (left : Expr) : (assignment left).GoesOn g := by
  refine goesOn_current.bind fun token => ?_
  split
  · exact goesOn_nextExpr.bind fun _ => goesOn_pure _
  · exact goesOn_fail (g.excuse_of_not_forUntaken id)

/-- A call goes on to the closing parenthesis. -/
theorem goesOn_call (left : Expr) : (call left).GoesOn g :=
  goesOn_current.bind fun _ => (goesOn_list (g.step_named (by decide))).bind fun _ => goesOn_pure _

/-- The rest of a slice goes on from the colon to the closing bracket. -/
theorem goesOn_sliceStop (token : Token) (left : Expr) (start : Option Expr) :
    (sliceStop token left start).GoesOn g :=
  goesOn_ifPeek (g.step_named (by decide)) (goesOn_pure _) <|
    goesOn_nextExpr.bind fun _ => (goesOn_expect (g.step_named (by decide))).bind fun _ =>
      goesOn_pure _

/-- An index or a slice goes on to the closing bracket. -/
theorem goesOn_index (left : Expr) : (index left).GoesOn g := by
  have hcolon : g.Step .colon := g.step_named (by decide)
  refine goesOn_current.bind fun token => goesOn_ifPeek hcolon (goesOn_sliceStop _ _ _) ?_
  refine goesOn_nextExpr.bind fun first => goesOn_ifPeek hcolon (goesOn_sliceStop _ _ _) ?_
  exact (goesOn_expect (g.step_named (by decide))).bind fun _ => goesOn_pure _

/-- A property goes on to its name, and a method to the closing parenthesis. -/
theorem goesOn_member (left : Expr) : (member left).GoesOn g := by
  refine goesOn_current.bind fun token => goesOn_expectIdentifier.bind fun name => ?_
  refine goesOn_ifPeek (g.step_named (by decide)) ?_ (goesOn_pure _)
  exact (goesOn_list (g.step_named (by decide))).bind fun _ => goesOn_pure _

/-! ## Control flow -/

/-- A condition goes on to the closing parenthesis. -/
theorem goesOn_condition : condition.GoesOn g :=
  (goesOn_expect (g.step_named (by decide))).bind fun _ => goesOn_grouping

/-- What follows the consequence of a conditional goes on from there. -/
theorem goesOn_alternative : alternative.GoesOn g := by
  refine goesOn_ifPeek (g.step_named (by decide)) ?_ (goesOn_pure _)
  refine goesOn_ifPeek (g.step_named (by decide)) (goesOn_need trivial fun _ => goesOn_pure _) ?_
  exact goesOn_body.bind fun _ => goesOn_pure _

/-- A conditional goes on to the end of its last block. -/
theorem goesOn_conditionalBody : conditionalBody.GoesOn g :=
  goesOn_current.bind fun _ => goesOn_condition.bind fun _ => goesOn_body.bind fun _ =>
    goesOn_alternative.bind fun _ => goesOn_pure _

/-- A `while` loop goes on to the end of its block. -/
theorem goesOn_whileLoop : whileLoop.GoesOn g :=
  goesOn_current.bind fun _ => goesOn_condition.bind fun _ => goesOn_body.bind fun _ =>
    goesOn_pure _

/-- The names of a `for` loop go on from the word. -/
theorem goesOn_loopNames : loopNames.GoesOn g :=
  goesOn_expectIdentifier.bind fun _ => goesOn_ifPeek (g.step_named (by decide))
    (goesOn_expectIdentifier.bind fun _ => goesOn_pure _) (goesOn_pure _)

/-- A `for` loop goes on to the end of its block. -/
theorem goesOn_forLoop : forLoop.GoesOn g :=
  goesOn_current.bind fun _ => goesOn_loopNames.bind fun _ =>
    (goesOn_expect (g.step_named (by decide))).bind fun _ =>
      goesOn_nextExpr.bind fun _ => goesOn_body.bind fun _ => goesOn_pure _

/-- The name of the round in a `repeat` loop goes on to the closing parenthesis, if there is one. -/
theorem goesOn_loopCounter : loopCounter.GoesOn g := by
  refine goesOn_ifPeek (g.step_named (by decide)) ?_ (goesOn_pure _)
  exact goesOn_expectIdentifier.bind fun _ =>
    (goesOn_expect (g.step_named (by decide))).bind fun _ => goesOn_pure _

/-- A `repeat` loop goes on to the end of its block. -/
theorem goesOn_repeatLoop : repeatLoop.GoesOn g :=
  goesOn_current.bind fun _ => goesOn_loopCounter.bind fun _ => goesOn_nextExpr.bind fun _ =>
    goesOn_body.bind fun _ => goesOn_pure _

/-! ## Switch and match -/

/-- The other values of a clause go on from the first. -/
theorem goesOn_caseValues : caseValues.GoesOn g := by
  refine goesOn_ifPeek (g.step_named (by decide)) (goesOn_nextExpr.bind fun _ => ?_) (goesOn_pure _)
  exact goesOn_need trivial fun _ => goesOn_pure _

/-- The selection of a clause is a part that starts on its first word. -/
theorem spans_selection : selection.SpansAnywhere g := by
  have hword : g.Step .defaultWord := g.step_named (by decide)
  intro p hp
  refine ensures_window hp (.inr fun w hw => by rw [hw]) ?_
  split
  · next hdefault => exact (goesOn_pure _).spansAt hp (by rwa [kind, hdefault])
  · split
    · next hcase =>
      have hstep : g.Step p.kind := by
        rw [kind, hcase]
        exact g.step_named (by decide)
      refine GoesOn.spansAt (SpansAnywhere.goesOn_advance fun q hq => ?_) hp hstep
      refine ensures_window hq (.inr fun w hw => by rw [hw]) ?_
      split
      · next hdefault => exact (goesOn_pure _).spansAt hq (by rwa [kind, hdefault])
      · refine (spans_expr _).bind (fun first => ?_) q hq
        exact goesOn_need trivial fun _ => goesOn_pure _
    · exact spansAt_fail hp (.inl rfl)

/-- A clause goes on to the end of its block. -/
theorem goesOn_clause : clause.GoesOn g :=
  SpansAnywhere.goesOn_advance <| spans_current fun _ => spans_selection.bind fun _ =>
    goesOn_body.bind fun _ => goesOn_pure _

/-- The clauses that are left of a switch close in front of the brace. -/
theorem closes_clauses : clauses.Closes g :=
  closes_untilBrace _ goesOn_clause (closes_need trivial)

/-- A switch goes on to its closing brace, and may fail there as a whole. -/
theorem goesOn_switch : switch.GoesOn g := by
  refine goesOn_current.bind fun token => goesOn_condition.bind fun subject => ?_
  refine goesOn_expect_openCurly fun p hp hkind => ?_
  refine spansAt_braces trivial (fun clauses => ?_) hp hkind
  exact goesOn_ite (goesOn_fail (g.excuse_of_not_forUntaken id)) (goesOn_pure _)

/-- The condition behind a pattern goes on from there. -/
theorem goesOn_guard : guard.GoesOn g :=
  goesOn_ifPeek (g.step_named (by decide)) (goesOn_nextExpr.bind fun _ => goesOn_pure _)
    (goesOn_pure _)

/-- What a case does goes on from the arrow. -/
theorem goesOn_caseBody : caseBody.GoesOn g := by
  intro p hp
  refine goesOnAt_look hp ?_
  change GoesOnAt g (if decide _ = true then _ else _) p
  split
  · next hpeek =>
    have hcurly := of_decide_eq_true hpeek
    have htaken := g.taken_of_openCurly (g.open_advance hp) hcurly
    exact SpansAt.goesOnAt_advance hp (spansAt_block htaken hcurly)
  · exact (goesOn_nextExpr.bind fun _ => goesOn_pure _) p hp

/-- A case goes on from its pattern to the comma behind it. -/
theorem goesOn_matchCase : matchCase.GoesOn g := by
  refine SpansAnywhere.goesOn_advance <| spans_current fun token =>
    spans_pattern.bind fun pattern => ?_
  refine goesOn_guard.bind fun guard => (goesOn_expect (g.step_named (by decide))).bind fun _ => ?_
  refine goesOn_caseBody.bind fun body => ?_
  exact goesOn_ifPeek (g.step_named (by decide)) (goesOn_pure _) (goesOn_pure _)

/-- The cases that are left of a match close in front of the brace. -/
theorem closes_matchCases : matchCases.Closes g :=
  closes_untilBrace _ goesOn_matchCase (closes_need trivial)

/-- A match goes on to its closing brace. -/
theorem goesOn_matching : matching.GoesOn g := by
  refine goesOn_current.bind fun token => goesOn_nextExpr.bind fun subject => ?_
  refine goesOn_expect_openCurly fun p hp hkind => ?_
  exact spansAt_braces trivial (fun _ => goesOn_pure _) hp hkind

/-! ## Patterns -/

/-- The items behind a comma go on from there. -/
theorem goesOn_patternTail (restSeen : Bool) : (patternTail restSeen).GoesOn g := by
  refine goesOn_ifPeek (g.step_named (by decide)) ?_ (goesOn_pure _)
  exact goesOn_need trivial fun _ => goesOn_pure _

/-- The items of an array pattern go on from the token before the first. -/
theorem goesOn_patternItems (restSeen : Bool) : (patternItems restSeen).GoesOn g := by
  refine SpansAnywhere.goesOn_advance fun p hp => ?_
  by_cases hrest : p.window.current.kind = .ellipsis
  · have hstep : g.Step p.kind := by
      rw [kind, hrest]
      exact g.step_named (by decide)
    refine ensures_window hp (.inl hstep) ?_
    rw [if_pos hrest]
    split
    · exact spansAt_fail hp (.inr hstep)
    · split
      · next hpeek =>
        have hname : g.Step p.window.peek.kind := by
          rw [hpeek]
          exact g.step_named (by decide)
        have htaken := g.taken_of_step hp hstep
        refine Ensures.imp (goesOnAt_advance htaken hname ?_)
          (fun _ _ hq => g.spans_of_level hp hstep hq) fun _ hq => g.missed_of_lost hp hstep hq
        exact goesOn_current.bind fun _ => (goesOn_patternTail _).bind fun _ => goesOn_pure _
      · exact spansAt_fail hp (.inr hstep)
  · refine ensures_window hp (.inr fun w hw => ?_) ?_
    · simp only [hw, if_neg hrest]
    rw [if_neg hrest]
    split
    · exact spansAt_fail hp (.inl trivial)
    · exact (spans_pattern.bind fun _ => (goesOn_patternTail _).bind fun _ => goesOn_pure _) p hp

/-- An array pattern goes on to its closing bracket. -/
theorem goesOn_arrayPattern : arrayPattern.GoesOn g := by
  refine goesOn_current.bind fun token => goesOn_ifPeek (g.step_named (by decide))
    (goesOn_pure _) ?_
  refine goesOn_need trivial fun items => ?_
  exact (goesOn_expect (g.step_named (by decide))).bind fun _ => goesOn_pure _

/-- The pattern of a case is a part that starts on the token at hand. -/
theorem spans_patternBody : patternBody.SpansAnywhere g := by
  intro p hp
  refine ensures_window hp (.inr fun w hw => by rw [hw]) ?_
  split
  · next hbracket =>
    refine goesOn_arrayPattern.spansAt hp ?_
    rw [kind, hbracket]
    exact g.step_named (by decide)
  · split
    · next hcurly => exact spansAt_dict (g.taken_of_openCurly hp hcurly) hcurly
    · exact spans_expr _ p hp

/-! ## Declarations -/

/-- The parameters behind a comma go on from there. -/
theorem goesOn_parameterTail (defaultSeen : Bool) : (parameterTail defaultSeen).GoesOn g := by
  refine goesOn_ifPeek (g.step_named (by decide)) ?_ (goesOn_pure _)
  exact goesOn_need trivial fun _ => goesOn_pure _

/-- The parameters of a function go on from the token before the first. -/
theorem goesOn_parameters (defaultSeen : Bool) : (parameters defaultSeen).GoesOn g := by
  refine goesOn_expectIdentifier.bind fun id => goesOn_ifPeek (g.step_named (by decide)) ?_ ?_
  · exact goesOn_nextExpr.bind fun _ => (goesOn_parameterTail _).bind fun _ => goesOn_pure _
  · refine goesOn_ite (goesOn_fail (g.excuse_of_not_forUntaken fun h => h)) ?_
    exact (goesOn_parameterTail _).bind fun _ => goesOn_pure _

/-- A parameter list goes on to its closing parenthesis. -/
theorem goesOn_parameterList : parameterList.GoesOn g := by
  refine goesOn_ifPeek (g.step_named (by decide)) (goesOn_pure _) ?_
  refine goesOn_need trivial fun parameters => ?_
  exact (goesOn_expect (g.step_named (by decide))).bind fun _ => goesOn_pure _

/-- A name that may be missing is taken, or nothing is. -/
theorem goesOn_optionalName : optionalName.GoesOn g :=
  goesOn_ifPeek (g.step_named (by decide)) (goesOn_current.bind fun _ => goesOn_pure _)
    (goesOn_pure _)

/-- A function goes on from its word to the end of its block. -/
theorem goesOn_functionFrom (async : Bool) (token : Token) : (functionFrom async token).GoesOn g :=
  goesOn_optionalName.bind fun _ => (goesOn_expect (g.step_named (by decide))).bind fun _ =>
    goesOn_parameterList.bind fun _ => goesOn_body.bind fun _ => goesOn_pure _

/-- A channel goes on to the closing parenthesis, if it has a size. -/
theorem goesOn_channel : channel.GoesOn g :=
  goesOn_current.bind fun _ => goesOn_ifPeek (g.step_named (by decide))
    (goesOn_grouping.bind fun _ => goesOn_pure _) (goesOn_pure _)

/-- The names of an import go on from the token before the first. -/
theorem goesOn_names : names.GoesOn g := by
  refine goesOn_expectIdentifier.bind fun id => ?_
  refine goesOn_ifPeek (g.step_named (by decide)) ?_ (goesOn_pure _)
  exact goesOn_need trivial fun _ => goesOn_pure _

/-- An import goes on to its last name. -/
theorem goesOn_importing : importing.GoesOn g :=
  goesOn_current.bind fun _ => goesOn_need trivial fun _ => goesOn_pure _

/-- A package goes on to the end of its block. -/
theorem goesOn_package : package.GoesOn g :=
  goesOn_current.bind fun _ => goesOn_expectIdentifier.bind fun _ => goesOn_body.bind fun _ =>
    goesOn_pure _

/-! ## Statements -/

/-- An expression and its semicolon trail. -/
theorem trails_operand : operand.Trails g :=
  goesOn_nextExpr.trails_skipSemicolon

/-- A declaration trails, up to its semicolon. -/
theorem trails_declaration : declaration.Trails g := by
  refine goesOn_window.bind_trails fun w => ?_
  split
  · exact goesOn_expectIdentifier.bind_trails fun _ =>
      (goesOn_expect (g.step_named (by decide))).bind_trails fun _ => trails_operand.map
  · exact (goesOn_fail (g.excuse_of_not_forUntaken (by simp [Cause.ForUntaken]))).trails

/-- A `return` trails, with a value or without one. -/
theorem trails_returning : returning.Trails g := by
  intro p hp
  refine ⟨fun w hw => by rw [g.window_eq hp hw], ?_⟩
  change TrailsAt g (if _ then _ else if _ then _ else _) p
  split
  · next hpeek => exact ⟨g.free hp, .inr ⟨p, g.level_refl hp, hpeek, rfl⟩⟩
  · split
    · exact (goesOn_pure _).trails p hp
    · exact trails_operand.map p hp

/-- A `break` trails, up to its semicolon. -/
theorem trails_breaking : breaking.Trails g :=
  goesOn_current.trails_skipSemicolon

/-- A `continue` trails, up to its semicolon. -/
theorem trails_continuing : continuing.Trails g :=
  goesOn_current.trails_skipSemicolon

/-- An `include` trails, up to its semicolon. -/
theorem trails_including : including.Trails g :=
  goesOn_current.bind_trails fun _ =>
    (goesOn_expect (g.step_named (by decide))).bind_trails fun _ =>
    goesOn_current.trails_skipSemicolon

/-- A member of an enumeration goes on to its value and the comma. -/
theorem goesOn_enumMember : enumMember.GoesOn g :=
  goesOn_expectIdentifier.bind fun _ => (goesOn_expect (g.step_named (by decide))).bind fun _ =>
    goesOn_nextExpr.bind fun _ => goesOn_memberComma.bind fun _ => goesOn_pure _

/-- The members that are left of an enumeration close in front of the brace. -/
theorem closes_members : members.Closes g :=
  closes_untilBrace _ goesOn_enumMember (closes_need trivial)

/-- An enumeration goes on to its closing brace. -/
theorem goesOn_enumeration : enumeration.GoesOn g := by
  refine goesOn_current.bind fun token => goesOn_expectIdentifier.bind fun name => ?_
  refine goesOn_expect_openCurly fun p hp hkind => ?_
  exact spansAt_braces trivial (fun _ => goesOn_pure _) hp hkind

/-- A `go` trails, up to the semicolon behind its expression. -/
theorem trails_go : go.Trails g :=
  goesOn_current.bind_trails fun _ => trails_operand.map

/-- An `error` trails, up to the semicolon behind its expression. -/
theorem trails_errorStatement : errorStatement.Trails g :=
  goesOn_current.bind_trails fun _ => trails_operand.map

/-- A word that takes one expression trails, if it is such a word or the fault is excused. -/
theorem trailsAt_declarative (hp : g.Taken p)
    (hword : (Declarative.ofKind? p.kind).isSome ∨ g.Excuse (.unexpectedToken p.kind)) :
    declarative.TrailsAt g p := by
  refine ⟨fun w hw => by rw [g.window_eq hp hw], ?_⟩
  dsimp only [Rule.bind]
  split
  · exact trails_operand.map p hp
  · next hnone =>
    refine (goesOn_fail (hword.resolve_left ?_)).trails p hp
    rw [kind, hnone]
    exact Bool.false_ne_true

/-- An expression as a statement, with the semicolon behind it. -/
theorem ensures_expressionStatement (hp : g.Open p) :
    expressionStatement.Ensures g.contract (fun _ q => UpToSemicolon (g.Spans p) q) (g.Missed p)
      p :=
  ensures_current hp <|
    ensures_skipSemicolon (fun _ hq => g.taken_of_spans hq) (spans_expr .default p hp)

end Rule

open Rule

variable {g : MoveInvariant} {grammar : Grammar} {p : Parser}

/-! ## Goals -/

/-- Whatever an expression goes on with, its plan goes on. -/
theorem LinkingRule.plan_goesOn (rule : LinkingRule) (left : Expr) (power : Power) :
    (rule.plan left power).GoesOn g := by
  cases rule with
  | assignment => exact goesOn_assignment left
  | binary => exact goesOn_binary left power
  | range => exact goesOn_range left power
  | call => exact goesOn_call left
  | index => exact goesOn_index left
  | member => exact goesOn_member left

/-- A rule for expressions reads a part that starts on the token at hand, if the invariant can take
that token, or on an opening brace if it is the rule for dicts. -/
theorem ExpressionRule.plan_spansAt {rule : ExpressionRule} (hp : g.Open p)
    (hstep : rule ≠ .dict → g.Step p.kind) (hdict : rule = .dict → p.kind = .openCurly) :
    rule.plan.SpansAt g p := by
  by_cases hrule : rule = .dict
  · subst hrule
    have hcurly := hdict rfl
    exact spansAt_dict (g.taken_of_openCurly hp hcurly) hcurly
  have hkind := hstep hrule
  have hgoesOn {plan : Rule Expr} (h : plan.GoesOn g) : plan.SpansAt g p := h.spansAt hp hkind
  cases rule with
  | dict => exact absurd rfl hrule
  | name => exact hgoesOn goesOn_name
  | integer => exact hgoesOn goesOn_integer
  | float => exact hgoesOn goesOn_float
  | string | boolean | null | receiver => exact hgoesOn (goesOn_current.bind fun _ => goesOn_pure _)
  | unary => exact hgoesOn goesOn_unary
  | grouping => exact hgoesOn goesOn_grouping
  | array => exact hgoesOn goesOn_array
  | spread => exact hgoesOn goesOn_spread
  | conditional => exact hgoesOn (goesOn_need trivial fun _ => goesOn_pure _)
  | whileLoop => exact hgoesOn goesOn_whileLoop
  | forLoop => exact hgoesOn goesOn_forLoop
  | repeatLoop => exact hgoesOn goesOn_repeatLoop
  | switch => exact hgoesOn goesOn_switch
  | matching => exact hgoesOn goesOn_matching
  | function => exact hgoesOn (goesOn_current.bind fun _ => goesOn_functionFrom _ _)
  | asyncFunction =>
    exact hgoesOn (goesOn_current.bind fun _ =>
      (goesOn_expect (g.step_named (by decide))).bind fun _ => goesOn_functionFrom _ _)
  | await => exact hgoesOn goesOn_await
  | channel => exact hgoesOn goesOn_channel
  | importing => exact hgoesOn goesOn_importing
  | package => exact hgoesOn goesOn_package
  | step => exact spansAt_trailing hp hkind
  | pattern => exact spans_pattern p hp
  | arrayPattern => exact hgoesOn goesOn_arrayPattern

/-- The plan for a statement that starts on a word of its own goes on behind that. -/
theorem StatementRule.plan_trailsAt {rule : StatementRule} (hleading : rule.isLeading = true)
    (hblock : rule ≠ .block) (hp : g.Taken p) (hword : rule = .declarative →
      (Declarative.ofKind? p.kind).isSome ∨ g.Excuse (.unexpectedToken p.kind)) :
    rule.plan.TrailsAt g p := by
  cases rule with
  | expression | any => cases hleading
  | block => exact absurd rfl hblock
  | declaration => exact trails_declaration p hp
  | returning => exact trails_returning p hp
  | breaking => exact trails_breaking p hp
  | continuing => exact trails_continuing p hp
  | including => exact trails_including p hp
  | enumeration => exact goesOn_enumeration.trails p hp
  | go => exact trails_go p hp
  | error => exact trails_errorStatement p hp
  | declarative => exact trailsAt_declarative hp (hword rfl)

/-- In a grammar that fits, an expression is a part that starts on the token at hand. -/
theorem expression_spans (hfits : g.Fits grammar) (power : Power) :
    (grammar.expression power).SpansAnywhere g := by
  intro p hp
  refine ensures_window hp (.inr fun w hw => by rw [hw]) ?_
  split
  · next rule htrailing =>
    exact ExpressionRule.plan_spansAt hp (hfits.first (.inl htrailing))
      fun hdict => hfits.dict (.inl (hdict ▸ htrailing))
  · split
    · exact spansAt_fail hp (.inl trivial)
    · next rule hleading =>
      have hrule : rule.plan.SpansAt g p := ExpressionRule.plan_spansAt hp
        (hfits.first (.inr hleading)) fun hdict => hfits.dict (.inr (hdict ▸ hleading))
      exact hrule.bind fun left => goesOn_need trivial fun _ => goesOn_pure _

/-- In a grammar that fits, the rest of an expression goes on. -/
theorem links_goesOn (hfits : g.Fits grammar) (power : Power) (left : Expr) :
    (grammar.links power left).GoesOn g := by
  intro p hp
  refine goesOnAt_look hp ?_
  change GoesOnAt g (if _ then _ else _) p
  split
  · next hpeek =>
    refine goesOnAt_advance hp (hfits.linking hpeek.2) (goesOn_current.bind fun operator => ?_)
    split
    · exact goesOn_fail (g.excuse_of_not_forUntaken id)
    · refine (LinkingRule.plan_goesOn _ _ _).bind fun whole => ?_
      exact goesOn_need trivial fun _ => goesOn_pure _
  · exact goesOn_pure _ p hp

/-- How a statement is read: by its own rule, or as an expression. -/
theorem statementBody_ensures {found : Stmt → Parser → Prop} {absent : Parser → Prop}
    (hcurrent : ∀ w, g.around.alike p w → w.current = p.window.current)
    (hrule : ∀ rule, grammar.statement p.kind = some rule →
      rule.plan.Ensures g.contract found absent p)
    (hexpression : grammar.statement p.kind = none →
      expressionStatement.Ensures g.contract found absent p) :
    grammar.statementBody.Ensures g.contract found absent p := by
  refine ⟨fun w hw => ?_, ?_⟩
  · dsimp only [Rule.bind]
    rw [hcurrent w hw]
  · dsimp only [Rule.bind]
    split
    · next rule hstatement => exact hrule rule hstatement
    · next hstatement => exact hexpression hstatement

/-- Every goal but statements keeps to a move invariant that fits the grammar. -/
theorem MoveInvariant.body_ensures (hfits : g.Fits grammar) {goal : Goal} (hstmt : goal ≠ .stmt)
    (hstatements : goal ≠ .statements) (hasked : g.contract.asked goal p) :
    (grammar.body goal).Ensures g.contract (g.contract.found goal p) (g.contract.absent goal p)
      p := by
  cases goal with
  | expr power => exact expression_spans hfits power p hasked
  | links power left => exact links_goesOn hfits power left p hasked
  | list close => exact goesOn_listBody hasked.2 p hasked.1
  | listTail close => exact goesOn_listTail hasked.2 p hasked.1
  | pairs => exact closes_pairs p hasked
  | conditional => exact goesOn_conditionalBody p hasked
  | clauses => exact closes_clauses p hasked
  | caseValues => exact goesOn_caseValues p hasked
  | matchCases => exact closes_matchCases p hasked
  | pattern => exact spans_patternBody p hasked
  | patternItems restSeen => exact goesOn_patternItems restSeen p hasked
  | parameters defaultSeen => exact goesOn_parameters defaultSeen p hasked
  | names => exact goesOn_names p hasked
  | members => exact closes_members p hasked
  | stmt => exact absurd rfl hstmt
  | statements => exact absurd rfl hstatements

end ScriptFront
