import ScriptFront.Proofs.Parser.Gives

/-!
# Where plans fail

* `Rule.Misses rule p cause r` — with enough to spend, the plan fails on the token that is at hand
  in the state `r`, and the cause is all that it records. One lemma for each step on the way there.
* `Missed goal p cause r` — the same for the plan of a goal.
* `missed_expr`, `missed_links` — how an expression fails.
* `Rule.Resumes` — a plan comes down to another one, be it that this gives a value or that it fails.
* `Parser.SkipsTo`, `kind_skipTo_of_noBoundary` — behind a failure stand only tokens on which
  nothing can begin, and recovery goes on over them to the end of input.
* `parseTokens_eq_of_missed` — what a lone statement that fails leaves of a program: one empty slot
  and one diagnostic.
-/

namespace ScriptFront

open ScriptFront.Parser

variable {α β : Type} {p q r : Parser} {cause : Cause}

/-! ## Plans -/

/-- With enough to spend, the plan fails on the token at hand in the second state, and the cause is
all that it records. -/
structure Rule.Misses (rule : Rule α) (p : Parser) (cause : Cause) (r : Parser) : Prop where
  diagnostics_eq : r.diagnostics = p.diagnostics
  absent : ∃ budget, rule.follow (Parser.pursue budget) p = (.absent, r.report cause)

/-- With enough to spend, the goal is missed. -/
def Missed (goal : Goal) (p : Parser) (cause : Cause) (r : Parser) : Prop :=
  (p.grammar.body goal).Misses p cause r

namespace Rule

/-- A plan that gives its value records nothing. -/
theorem Gives.diagnostics_eq {rule : Rule α} {value : α} (h : rule.Gives p value q) :
    q.diagnostics = p.diagnostics := by
  obtain ⟨budget, hfollow⟩ := h
  have haccounted := follow_accounted (pursue_later budget) (pursue_accounted budget) rule p
  rw [hfollow] at haccounted
  exact haccounted

namespace Misses

variable {rule : Rule α} {goal : Goal} {next : goal.Answer → Rule α} {first : Rule β}
  {f : β → Rule α}

/-- A plan that fails records its cause where it stands. -/
theorem fail : (Rule.fail cause : Rule α).Misses p cause p :=
  ⟨rfl, 0, rfl⟩

/-- A plan fails as it does behind a look at the window. -/
theorem look {next : Window → Rule α} (h : (next p.window).Misses p cause r) :
    (Rule.look next).Misses p cause r :=
  ⟨h.diagnostics_eq, h.absent⟩

/-- A plan fails as it does behind a shift. -/
theorem shift (h : rule.Misses p.advance cause r) : (Rule.shift rule).Misses p cause r :=
  ⟨h.diagnostics_eq, h.absent⟩

/-- Without a part that it needs, a plan fails. -/
theorem unmet (h : Missed goal p cause r) : (Rule.need goal next).Misses p cause r := by
  obtain ⟨hdiagnostics, budget, hgoal⟩ := h
  have hpursue : Parser.pursue (budget + 1) goal p = (.absent, r.report cause) := hgoal
  refine ⟨hdiagnostics, budget + 1, ?_⟩
  simp only [follow, hpursue]

/-- A plan fails as it does behind an answer to the goal that it asks for. -/
theorem need {answer : goal.Answer} (hgoal : Reads goal p answer q)
    (hnext : (next answer).Misses q cause r) : (Rule.need goal next).Misses p cause r := by
  refine ⟨hnext.diagnostics_eq.trans hgoal.diagnostics_eq, ?_⟩
  obtain ⟨budget, hgoal⟩ := hgoal
  obtain ⟨-, more, hnext⟩ := hnext
  have hpursue : Parser.pursue (budget + more + 1) goal p = (.found answer, q) :=
    follow_mono (Nat.le_add_right budget more) hgoal (by simp)
  refine ⟨budget + more + 1, ?_⟩
  simp only [follow, hpursue]
  exact follow_mono (by omega) hnext (by simp)

/-- A plan whose first part fails goes no further. -/
theorem bind_first (h : first.Misses p cause r) : (first >>= f).Misses p cause r := by
  obtain ⟨hdiagnostics, budget, hfirst⟩ := h
  refine ⟨hdiagnostics, budget, ?_⟩
  change (first.bind f).follow _ p = _
  rw [follow_bind, hfirst]

/-- Behind a plan that gives its value, plans fail as the second does. -/
theorem bind {answer : β} (hfirst : first.Gives p answer q) (hnext : (f answer).Misses q cause r) :
    (first >>= f).Misses p cause r := by
  refine ⟨hnext.diagnostics_eq.trans hfirst.diagnostics_eq, ?_⟩
  obtain ⟨budget, hfirst⟩ := hfirst
  obtain ⟨-, more, hnext⟩ := hnext
  refine ⟨budget + more, ?_⟩
  change (first.bind f).follow _ p = _
  rw [follow_bind, follow_mono (Nat.le_add_right budget more) hfirst (by simp)]
  exact follow_mono (Nat.le_add_left more budget) hnext (by simp)

variable {yes no : Rule α} {kind : Kind}

/-- Where the next token is of the kind, a choice fails as the first plan does. -/
theorem ifPeek (hkind : p.window.peek.kind = kind) (h : yes.Misses p cause r) :
    (peekIs kind >>= fun is => if is then yes else no).Misses p cause r := by
  refine look ?_
  change Misses (if _ then _ else _) p cause r
  rwa [if_pos (decide_eq_true hkind)]

/-- Where the next token is not of the kind, a choice fails as the second plan does. -/
theorem ifNotPeek (hkind : p.window.peek.kind ≠ kind) (h : no.Misses p cause r) :
    (peekIs kind >>= fun is => if is then yes else no).Misses p cause r := by
  refine look ?_
  change Misses (if _ then _ else _) p cause r
  rwa [if_neg (by simpa using hkind)]

/-- A plan for an expression on the next token fails as the expression does there. -/
theorem nextExpr (h : Missed (.expr .default) p.advance cause r) :
    Rule.nextExpr.Misses p cause r :=
  shift (unmet h)

/-- Going on from what was read fails as the rest of the expression does. -/
theorem onward {power : Power} {left : Expr} (h : Missed (.links power left) p cause r) :
    (Rule.onward power left).Misses p cause r :=
  unmet h

end Misses

end Rule

/-! ## Following a plan with the usual budget -/

/-- What comes of a plan with enough to spend comes of it with the usual budget. -/
theorem run_eq_of_follow (hgrammar : p.grammar = .standard) {rule : Rule α} {reply : Reply α}
    {budget : Nat} (hreply : reply ≠ .exhausted)
    (h : rule.follow (Parser.pursue budget) p = (reply, q)) :
    p.run rule = (reply.toOption, q) := by
  have hmore := Rule.follow_mono (Nat.le_add_left budget p.budget) h hreply
  have hample := follow_ne_exhausted hgrammar rule (Nat.le_refl p.budget)
  have hrun := Rule.follow_mono (Nat.le_add_right p.budget budget) rfl hample
  rw [hmore] at hrun
  have hfollow : rule.follow (Parser.pursue p.budget) p = (reply, q) := hrun.symm
  rw [Parser.run, hfollow]

/-- A plan that gives its value does so with the usual budget. -/
theorem Rule.Gives.run_eq (hgrammar : p.grammar = .standard) {rule : Rule α} {value : α}
    (h : rule.Gives p value q) : p.run rule = (some value, q) := by
  obtain ⟨budget, hfollow⟩ := h
  exact run_eq_of_follow hgrammar (by simp) hfollow

/-- A plan that fails does so with the usual budget. -/
theorem Rule.Misses.run_eq (hgrammar : p.grammar = .standard) {rule : Rule α}
    (h : rule.Misses p cause r) : p.run rule = (none, r.report cause) := by
  obtain ⟨-, budget, hfollow⟩ := h
  exact run_eq_of_follow hgrammar (by simp) hfollow

/-! ## Expressions -/

variable {power : Power} {t last : Token} {rest : List Token} {left : Expr}

/-- How an expression fails: within its first part, or behind it. -/
theorem missed_expr (hp : p.Faces (t :: rest))
    (htrailing : Grammar.standard.trailing t.kind = false) {rule : ExpressionRule}
    (hrule : Grammar.standard.leading t.kind = some rule)
    (h : (rule.plan >>= Rule.onward power).Misses p cause r) : Missed (.expr power) p cause r := by
  obtain ⟨hdiagnostics, budget, hfollow⟩ := h
  exact ⟨hdiagnostics, budget, (follow_expr hp htrailing hrule _).trans hfollow⟩

/-- How an expression fails that has gone on at an operator. -/
theorem missed_links (hp : p.Faces (last :: t :: rest))
    (hpower : power < Grammar.standard.powerOf t.kind) {rule : LinkingRule}
    (hrule : Grammar.standard.linking t.kind = some rule)
    (h : (rule.plan left (Grammar.standard.powerOf t.kind) >>= Rule.onward power).Misses p.advance
      cause r) : Missed (.links power left) p cause r := by
  obtain ⟨hdiagnostics, budget, hfollow⟩ := h
  exact ⟨hdiagnostics, budget, (follow_links hp hpower hrule _).trans hfollow⟩

/-- What comes of the second plan in the second state comes of the first plan in the first state. -/
structure Rule.Resumes (rule : Rule α) (p : Parser) (next : Rule α) (q : Parser) : Prop where
  gives : ∀ {value r}, next.Gives q value r → rule.Gives p value r
  misses : ∀ {cause r}, next.Misses q cause r → rule.Misses p cause r

/-- A plan that goes on as a second, which goes on as a third, goes on as the third. -/
theorem Rule.Resumes.trans {first second third : Rule α} (h : first.Resumes p second q)
    (h' : second.Resumes q third r) : first.Resumes p third r :=
  ⟨fun hgives => h.gives (h'.gives hgives), fun hmisses => h.misses (h'.misses hmisses)⟩

/-- An expression goes on from its first part. -/
theorem resumes_expr (hp : p.Faces (t :: rest))
    (htrailing : Grammar.standard.trailing t.kind = false) {rule : ExpressionRule}
    (hrule : Grammar.standard.leading t.kind = some rule) (hleft : rule.plan.Gives p left q)
    (power : Power) :
    (p.grammar.body (.expr power)).Resumes p (q.grammar.body (.links power left)) q where
  gives hlinks := reads_expr hp htrailing hrule hleft hlinks
  misses hlinks := missed_expr hp htrailing hrule (.bind hleft (.onward hlinks))

/-- An expression goes on from what an operator has made of it. -/
theorem resumes_links (hp : p.Faces (last :: t :: rest))
    (hpower : power < Grammar.standard.powerOf t.kind) {rule : LinkingRule}
    (hrule : Grammar.standard.linking t.kind = some rule) {whole : Expr}
    (hwhole : (rule.plan left (Grammar.standard.powerOf t.kind)).Gives p.advance whole q) :
    (p.grammar.body (.links power left)).Resumes p (q.grammar.body (.links power whole)) q where
  gives hlinks := reads_links hp hpower hrule hwhole hlinks
  misses hlinks := missed_links hp hpower hrule (.bind hwhole (.onward hlinks))

/-- An expression statement fails with its expression. -/
theorem missed_expressionStatement (hp : p.Faces (t :: rest))
    (hstatement : Grammar.standard.statement t.kind = none)
    (h : Missed (.expr .default) p cause r) : Missed .stmt p cause r := by
  unfold Missed
  rw [hp.grammar_eq]
  refine Rule.Misses.look ?_
  dsimp only [Rule.bind]
  rw [hp.current_eq, hstatement]
  exact .look (.unmet h)

/-! ## Recovery -/

/-- Recovery from a failure on the line goes past the token. -/
structure Token.NoBoundary (line : Nat) (t : Token) : Prop where
  line_eq : t.line = line
  ne_semicolon : t.kind ≠ .semicolon
  not_startsStatement : t.kind.startsStatement = false

/-- Where the parser stands and up to the given tokens, recovery finds nothing to stop on. -/
structure Parser.SkipsTo (p : Parser) (line : Nat) (rest : List Token) : Prop where
  previous : p.window.previous.kind ≠ .semicolon
  noBoundary : ∃ tokens, p.Faces (tokens ++ rest) ∧ p.window.current ∈ tokens ∧
    ∀ token ∈ tokens, token.NoBoundary line

namespace Parser

variable {line : Nat}

/-- Recovery that finds nothing to stop on goes past one more token without a boundary. -/
theorem SkipsTo.further (h : p.SkipsTo line (t :: rest)) (ht : t.NoBoundary line) :
    p.SkipsTo line rest := by
  obtain ⟨tokens, hp, hcurrent, hpassed⟩ := h.noBoundary
  refine ⟨h.previous, tokens ++ [t], ?_, List.mem_append_left _ hcurrent, ?_⟩
  · rwa [List.append_assoc, List.singleton_append]
  · rw [List.forall_mem_append]
    exact ⟨hpassed, by simpa using ht⟩

/-- A diagnostic leaves the tokens in front. -/
theorem Faces.report {tokens : List Token} (h : p.Faces tokens) (cause : Cause) :
    (p.report cause).Faces tokens :=
  ⟨h.grammar_eq, h.tokens_eq⟩

/-- On a token that recovery goes past, and that stands behind no semicolon, there is no boundary.
-/
theorem atBoundary_of_noBoundary {start : Checkpoint} {failedAt : Nat}
    (hprevious : p.window.previous.kind ≠ .semicolon) (hpassed : p.window.current.NoBoundary line) :
    p.atBoundary start false line failedAt = false := by
  simp [atBoundary, hprevious, hpassed.not_startsStatement, hpassed.line_eq]

/-- Recovery skips tokens without a boundary up to the end of input. -/
theorem kind_skipTo_of_noBoundary {tokens : List Token} {start : Checkpoint} {failedAt : Nat}
    (hp : p.Faces (tokens ++ t :: rest)) (ht : t.kind = .eof)
    (hprevious : p.window.previous.kind ≠ .semicolon)
    (hpassed : ∀ token ∈ tokens, token.NoBoundary line) :
    (p.skipTo start false line failedAt).kind = .eof := by
  induction tokens generalizing p with
  | nil =>
    have hkind : p.kind = .eof := (congrArg Token.kind hp.current_eq).trans ht
    rwa [skipTo, dif_pos hkind]
  | cons token tokens ih =>
    obtain ⟨hcurrent, htokens⟩ := List.forall_mem_cons.1 hpassed
    rw [← show p.window.current = token from hp.current_eq] at hcurrent
    by_cases hkind : p.kind = .eof
    · rwa [skipTo, dif_pos hkind]
    · rw [skipTo, dif_neg hkind, atBoundary_of_noBoundary hprevious hcurrent, if_neg (by simp)]
      by_cases hlength : 2 ≤ (tokens ++ t :: rest).length
      · exact ih (hp.advance hlength) hcurrent.ne_semicolon htokens
      · -- the end of input is the next token and the last one
        obtain rfl : tokens = [] := by
          rw [← List.length_eq_zero_iff]
          rw [List.length_append, List.length_cons] at hlength
          omega
        have hlast : p.advance.kind = .eof := (congrArg Token.kind hp.peek_eq).trans ht
        rwa [skipTo, dif_pos hlast]

/-- A failure with nothing to stop on behind it is skipped up to the end of input. -/
theorem SkipsTo.kind_synchronize (h : p.SkipsTo line (t :: rest)) (ht : t.kind = .eof)
    (cause : Cause) (start : Checkpoint) :
    p.window.current.line = line ∧ ((p.report cause).synchronize start false).kind = .eof := by
  obtain ⟨tokens, hp, hcurrent, hpassed⟩ := h.noBoundary
  have hline : p.window.current.line = line := (hpassed _ hcurrent).line_eq
  refine ⟨hline, ?_⟩
  change ((p.report cause).skipTo start false p.window.current.line _).kind = _
  rw [hline]
  exact kind_skipTo_of_noBoundary (hp.report cause) ht h.previous hpassed

end Parser

/-! ## Programs -/

/-- A statement that fails, with nothing behind the failure on which another could begin, leaves an
empty slot and one diagnostic. -/
theorem parseTokens_eq_of_missed {tokens : List Token} {line : Nat}
    (hstart : (ofTokens tokens).kind ≠ .eof) (hmissed : Missed .stmt (ofTokens tokens) cause r)
    (hr : r.SkipsTo line (t :: rest)) (ht : t.kind = .eof) :
    parseTokens tokens = (⟨[none]⟩, [⟨cause, line⟩]) := by
  have hclean : (ofTokens tokens).diagnostics = [] := rfl
  have hgrammar : (ofTokens tokens).grammar = .standard := rfl
  rw [parseTokens]
  generalize ofTokens tokens = p at hstart hmissed hclean hgrammar
  obtain ⟨hdiagnostics, budget, hfollow⟩ := hmissed
  have hpursue := pursue_eq_of_follow hgrammar (by simp) hfollow
  obtain ⟨hline, hend⟩ := hr.kind_synchronize ht cause p.checkpoint
  have hafter : p.afterStatement false = (r.report cause).synchronize p.checkpoint false := by
    rw [afterStatement, hpursue]
  have hslot : p.slot = none := by
    rw [slot, hpursue]
    rfl
  have hrecorded : ((r.report cause).synchronize p.checkpoint false).diagnostics =
      [⟨cause, line⟩] := by
    rw [diagnostics_synchronize]
    change r.diagnostics ++ [⟨cause, r.window.current.line⟩] = _
    rw [hdiagnostics, hclean, hline]
    rfl
  rw [program_of_ne hgrammar hstart, hafter, program_of_eof hend, hslot, ← hrecorded]

/-- An expression that fails in this way leaves an empty slot and one diagnostic too. -/
theorem parseTokens_eq_of_missed_expr {tokens more : List Token} {line : Nat} {first : Token}
    (hp : (ofTokens tokens).Faces (first :: more)) (hstart : first.kind ≠ .eof)
    (hstatement : Grammar.standard.statement first.kind = none)
    (hmissed : Missed (.expr .default) (ofTokens tokens) cause r)
    (hr : r.SkipsTo line (t :: rest)) (ht : t.kind = .eof) :
    parseTokens tokens = (⟨[none]⟩, [⟨cause, line⟩]) := by
  have hkind : (ofTokens tokens).kind ≠ .eof := by
    rw [kind, hp.current_eq]
    exact hstart
  exact parseTokens_eq_of_missed hkind (missed_expressionStatement hp hstatement hmissed) hr ht

end ScriptFront
