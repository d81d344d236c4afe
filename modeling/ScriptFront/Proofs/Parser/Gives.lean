import ScriptFront.Proofs.Parser.Completion

/-!
# What plans give

* `Rule.Gives rule p value q` — with enough to spend, the plan gives the value and leaves the parser
  in the state `q`. One lemma for each step a plan can take.
* `Reads goal p answer q` — the same for the plan of a goal.
* `Parser.Faces p tokens` — the parser reads a list of tokens and has these in front of it, the
  first at hand and the second in sight.
* `reads_expr`, `reads_links`, `reads_links_stop` — how an expression begins, goes on and ends.
* `reads_expressionStatement`, `parseTokens_eq_of_reads` — an expression as a statement, and a
  statement as a program.
-/

namespace ScriptFront

open ScriptFront.Parser

variable {α β : Type} {p q r : Parser}

/-! ## Plans -/

/-- With enough to spend, the plan gives the value and ends in the second state. -/
def Rule.Gives (rule : Rule α) (p : Parser) (value : α) (q : Parser) : Prop :=
  ∃ budget, rule.follow (Parser.pursue budget) p = (.found value, q)

/-- With enough to spend, the goal is found. -/
def Reads (goal : Goal) (p : Parser) (answer : goal.Answer) (q : Parser) : Prop :=
  (p.grammar.body goal).Gives p answer q

namespace Rule

variable {value : α} {rule : Rule α}

/-- More to spend changes nothing. -/
theorem follow_mono {budget more : Nat} {reply : Reply α} (hle : budget ≤ more)
    (h : rule.follow (Parser.pursue budget) p = (reply, q)) (hreply : reply ≠ .exhausted) :
    rule.follow (Parser.pursue more) p = (reply, q) := by
  rw [← h]
  exact follow_congr (fun goal q hq => pursue_mono hle hq) rule p (by rwa [h])

namespace Gives

/-- A plan that is done gives its value where it stands. -/
theorem done : (Rule.done value).Gives p value p :=
  ⟨0, rfl⟩

/-- A plan gives what it gives behind a look at the window. -/
theorem look {next : Window → Rule α} (h : (next p.window).Gives p value q) :
    (Rule.look next).Gives p value q :=
  h

/-- A plan gives what it gives behind a shift. -/
theorem shift (h : rule.Gives p.advance value q) : (Rule.shift rule).Gives p value q :=
  h

/-- A plan gives what it gives behind an answer to the goal that it asks for. -/
theorem need {goal : Goal} {next : goal.Answer → Rule α} {answer : goal.Answer}
    (hgoal : Reads goal p answer q) (hnext : (next answer).Gives q value r) :
    (Rule.need goal next).Gives p value r := by
  obtain ⟨budget, hgoal⟩ := hgoal
  obtain ⟨more, hnext⟩ := hnext
  have hpursue : Parser.pursue (budget + more + 1) goal p = (.found answer, q) :=
    follow_mono (Nat.le_add_right budget more) hgoal (by simp)
  refine ⟨budget + more + 1, ?_⟩
  simp only [follow, hpursue]
  exact follow_mono (by omega) hnext (by simp)

/-- Plans one after the other give what the second gives behind the first. -/
theorem bind {first : Rule β} {f : β → Rule α} {answer : β} (hfirst : first.Gives p answer q)
    (hnext : (f answer).Gives q value r) : (first >>= f).Gives p value r := by
  obtain ⟨budget, hfirst⟩ := hfirst
  obtain ⟨more, hnext⟩ := hnext
  refine ⟨budget + more, ?_⟩
  change (first.bind f).follow _ p = _
  rw [follow_bind, follow_mono (Nat.le_add_right budget more) hfirst (by simp)]
  exact follow_mono (Nat.le_add_left more budget) hnext (by simp)

variable {yes no : Rule α} {kind : Kind}

/-- Where the next token is of the kind, a choice gives what the first plan gives. -/
theorem ifPeek (hkind : p.window.peek.kind = kind) (h : yes.Gives p value q) :
    (peekIs kind >>= fun is => if is then yes else no).Gives p value q := by
  refine look ?_
  change Gives (if _ then _ else _) p value q
  rwa [if_pos (decide_eq_true hkind)]

/-- Where the next token is not of the kind, a choice gives what the second plan gives. -/
theorem ifNotPeek (hkind : p.window.peek.kind ≠ kind) (h : no.Gives p value q) :
    (peekIs kind >>= fun is => if is then yes else no).Gives p value q := by
  refine look ?_
  change Gives (if _ then _ else _) p value q
  rwa [if_neg (by simpa using hkind)]

/-- A token that is there when it is asked for is taken. -/
theorem expect (hkind : p.window.peek.kind = kind) :
    (Rule.expect kind).Gives p () p.advance := by
  refine look ?_
  change Gives (if _ then _ else _) p () p.advance
  rw [if_pos hkind]
  exact shift done

/-- A name that is there when it is asked for is taken and given. -/
theorem expectIdentifier (hkind : p.window.peek.kind = .identifier) :
    Rule.expectIdentifier.Gives p (Identifier.ofToken p.window.peek) p.advance :=
  (expect hkind).bind (look done)

/-- An expression that is read behind a shift is given. -/
theorem nextExpr {expression : Expr} (h : Reads (.expr .default) p.advance expression q) :
    Rule.nextExpr.Gives p expression q :=
  shift (need h done)

end Gives

end Rule

/-- What comes of a goal's plan is what comes of the goal when the parser has its usual budget. -/
theorem pursue_eq_of_follow (hgrammar : p.grammar = .standard) {goal : Goal}
    {reply : Reply goal.Answer} {budget : Nat} (hreply : reply ≠ .exhausted)
    (h : (p.grammar.body goal).follow (Parser.pursue budget) p = (reply, q)) :
    Parser.pursue p.budget goal p = (reply, q) := by
  have hmore : Parser.pursue (p.budget + budget + 1) goal p = (reply, q) :=
    Rule.follow_mono (Nat.le_add_left budget p.budget) h hreply
  rw [← hmore]
  exact (pursue_eq_of_budget_le hgrammar goal (by omega)).symm

/-! ## The tokens in front of a parser -/

/-- The parser reads a list of tokens by the standard grammar, and has these in front of it. -/
structure Parser.Faces (p : Parser) (tokens : List Token) : Prop where
  grammar_eq : p.grammar = .standard
  tokens_eq : ∃ rest line, p.source = .list rest line ∧
    tokens = p.window.current :: p.window.peek :: rest

namespace Parser.Faces

variable {t u : Token} {tokens rest : List Token}

/-- The first token in front is at hand. -/
theorem current_eq (h : p.Faces (t :: rest)) : p.window.current = t := by
  obtain ⟨rest, line, -, htokens⟩ := h.tokens_eq
  exact (List.cons.inj htokens).1.symm

/-- The second token in front is the next one. -/
theorem peek_eq (h : p.Faces (t :: u :: rest)) : p.window.peek = u := by
  obtain ⟨rest, line, -, htokens⟩ := h.tokens_eq
  exact (List.cons.inj (List.cons.inj htokens).2).1.symm

/-- A shift leaves the other tokens in front. -/
theorem advance (h : p.Faces (t :: tokens)) (hlength : 2 ≤ tokens.length) :
    p.advance.Faces tokens := by
  obtain ⟨later, line, hsource, htokens⟩ := h.tokens_eq
  obtain ⟨-, htokens⟩ := List.cons.inj htokens
  cases later with
  | nil => simp [htokens] at hlength
  | cons v later =>
    refine ⟨h.grammar_eq, later, v.line, ?_, ?_⟩
    · simp only [Parser.advance, hsource, Source.next]
    · simp only [Parser.advance, hsource, Source.next, htokens]

end Parser.Faces

/-- Moving over one list after another. -/
theorem iterate_length_append (tokens more : List Token) (p : Parser) :
    Parser.advance^[(tokens ++ more).length] p =
      Parser.advance^[more.length] (Parser.advance^[tokens.length] p) := by
  rw [List.length_append, Nat.add_comm, Function.iterate_add_apply]

section

variable {t : Token} {tokens after : List Token}

/-- As many shifts as there are tokens leave those behind them in front. -/
theorem faces_iterate (h : p.Faces (tokens ++ after)) (hlength : 2 ≤ after.length) :
    (Parser.advance^[tokens.length] p).Faces after := by
  induction tokens generalizing p with
  | nil => exact h
  | cons t tokens ih => exact ih (Parser.Faces.advance h (by rw [List.length_append]; omega))

/-- Behind as many moves as a list has tokens, the last of them is at hand. -/
theorem faces_last {last : Token} (h : p.Faces (t :: (tokens ++ after)))
    (hlast : tokens.getLast? = some last) (hlength : 1 ≤ after.length) :
    (Parser.advance^[tokens.length] p).Faces (last :: after) := by
  obtain ⟨init, rfl⟩ := List.getLast?_eq_some_iff.1 hlast
  have hinit : p.Faces ((t :: init) ++ last :: after) := by simpa using h
  simpa using faces_iterate hinit (by simpa using hlength)

/-- Be the list empty or not, some token is at hand then. -/
theorem exists_faces_last (h : p.Faces (t :: (tokens ++ after))) (hlength : 1 ≤ after.length) :
    ∃ last, (Parser.advance^[tokens.length] p).Faces (last :: after) := by
  cases hlast : tokens.getLast? with
  | none =>
    rw [List.getLast?_eq_none_iff] at hlast
    subst hlast
    exact ⟨t, h⟩
  | some last => exact ⟨last, faces_last h hlast hlength⟩

/-- The tokens in front come to hand one after the other. -/
theorem current_iterate_of_faces (h : p.Faces tokens) {count : Nat} (ht : tokens[count]? = some t) :
    (Parser.advance^[count] p).window.current = t := by
  induction count generalizing p tokens with
  | zero =>
    obtain ⟨more, rfl⟩ := List.head?_eq_some_iff.1 (List.head?_eq_getElem?.trans ht)
    exact h.current_eq
  | succ count ih =>
    match tokens, h, ht with
    | [_, u], h, ht =>
      cases count with
      | zero =>
        cases ht
        exact h.peek_eq
      | succ count => cases ht
    | _ :: u :: v :: tokens, h, ht => exact ih (h.advance (by simp)) ht

end

/-- A new parser for a list has the list in front of it. -/
theorem faces_ofTokens {tokens : List Token} (h : 2 ≤ tokens.length) :
    (Parser.ofTokens tokens).Faces tokens := by
  match tokens, h with
  | _ :: u :: rest, _ => exact ⟨rfl, rest, u.line, rfl, rfl⟩

/-! ## Expressions -/

variable {power : Power} {t last : Token} {rest : List Token} {left whole value : Expr}

/-- Go on from what was read so far. -/
def Rule.onward (power : Power) (left : Expr) : Rule Expr :=
  need (.links power left) done

/-- Going on from what was read gives what the rest of the expression is read as. -/
theorem Rule.Gives.onward (h : Reads (.links power left) p value q) :
    (Rule.onward power left).Gives p value q :=
  need h done

/-- On a token that an expression starts on, the plan is that of the token's rule, and to go on from
there. -/
theorem follow_expr (hp : p.Faces (t :: rest))
    (htrailing : Grammar.standard.trailing t.kind = false) {rule : ExpressionRule}
    (hrule : Grammar.standard.leading t.kind = some rule)
    (pursue : (goal : Goal) → Reading goal.Answer) :
    (p.grammar.body (.expr power)).follow pursue p =
      (rule.plan >>= Rule.onward power).follow pursue p := by
  rw [hp.grammar_eq]
  simp only [Grammar.body, Grammar.standard_expression, Rule.window, Bind.bind, Rule.bind,
    Rule.follow]
  rw [hp.current_eq, if_neg (by simp [htrailing]), hrule]
  rfl

/-- Before a token that is strong enough, the plan is to take it, that of its rule, and to go on
from there. -/
theorem follow_links (hp : p.Faces (last :: t :: rest))
    (hpower : power < Grammar.standard.powerOf t.kind) {rule : LinkingRule}
    (hrule : Grammar.standard.linking t.kind = some rule)
    (pursue : (goal : Goal) → Reading goal.Answer) :
    (p.grammar.body (.links power left)).follow pursue p =
      (rule.plan left (Grammar.standard.powerOf t.kind) >>= Rule.onward power).follow pursue
        p.advance := by
  have hcurrent : p.advance.window.current = t := hp.peek_eq
  have hsemicolon : t.kind ≠ .semicolon := by
    intro hkind
    rw [hkind] at hrule
    cases hrule
  rw [hp.grammar_eq]
  simp only [Grammar.body, Grammar.links, Rule.window, Bind.bind, Rule.bind, Rule.follow]
  rw [hp.peek_eq, if_pos ⟨hsemicolon, hpower⟩]
  simp only [Rule.advance, Rule.current, Rule.bind, Rule.follow]
  rw [hcurrent, hrule]
  rfl

/-- How an expression begins. -/
theorem reads_expr (hp : p.Faces (t :: rest)) (htrailing : Grammar.standard.trailing t.kind = false)
    {rule : ExpressionRule} (hrule : Grammar.standard.leading t.kind = some rule)
    (hleft : rule.plan.Gives p left q) (hlinks : Reads (.links power left) q value r) :
    Reads (.expr power) p value r := by
  obtain ⟨budget, hfollow⟩ := hleft.bind (Rule.Gives.onward hlinks)
  exact ⟨budget, (follow_expr hp htrailing hrule _).trans hfollow⟩

/-- How an expression goes on. -/
theorem reads_links (hp : p.Faces (last :: t :: rest))
    (hpower : power < Grammar.standard.powerOf t.kind) {rule : LinkingRule}
    (hrule : Grammar.standard.linking t.kind = some rule)
    (hwhole : (rule.plan left (Grammar.standard.powerOf t.kind)).Gives p.advance whole q)
    (hlinks : Reads (.links power whole) q value r) : Reads (.links power left) p value r := by
  obtain ⟨budget, hfollow⟩ := hwhole.bind (Rule.Gives.onward hlinks)
  exact ⟨budget, (follow_links hp hpower hrule _).trans hfollow⟩

/-- Where an expression ends. -/
theorem reads_links_stop (hp : p.Faces (last :: t :: rest))
    (hpower : ¬ power < Grammar.standard.powerOf t.kind) :
    Reads (.links power left) p left p := by
  unfold Reads
  rw [hp.grammar_eq]
  refine Rule.Gives.look ?_
  change Rule.Gives (if _ then _ else _) p left p
  rw [hp.peek_eq, if_neg fun h => hpower h.2]
  exact .done

/-- A name that was expected. -/
theorem gives_expectIdentifier {u : Token} (hp : p.Faces (t :: u :: rest))
    (hu : u.kind = .identifier) : Rule.expectIdentifier.Gives p (.ofToken u) p.advance := by
  rw [← show p.window.peek = u from hp.peek_eq] at hu ⊢
  exact .expectIdentifier hu

/-- A name is read as it stands. -/
theorem gives_name (hp : p.Faces (t :: rest)) :
    ExpressionRule.name.plan.Gives p (.identifier (.ofToken t)) p := by
  rw [← show p.window.current = t from hp.current_eq]
  exact .look .done

/-- An integer literal that has a value is read as that. -/
theorem gives_integer (hp : p.Faces (t :: rest)) {number : Int}
    (hnumber : Numeral.integer? t.value = some number) :
    ExpressionRule.integer.plan.Gives p (.integer t number) p := by
  refine Rule.Gives.look ?_
  rw [← show p.window.current = t from hp.current_eq] at hnumber ⊢
  dsimp only [Rule.bind]
  rw [hnumber]
  exact .done

/-- A name before a token that ends the expression. -/
theorem reads_name {u : Token} (hp : p.Faces (t :: u :: rest)) (ht : t.kind = .identifier)
    (hu : ¬ Power.default < Grammar.standard.powerOf u.kind) :
    Reads (.expr .default) p (.identifier (.ofToken t)) p :=
  reads_expr hp (by rw [ht]; rfl) (by rw [ht]; rfl) (gives_name hp) (reads_links_stop hp hu)

/-- An integer literal before a token that ends the expression. -/
theorem reads_integer {u : Token} (hp : p.Faces (t :: u :: rest)) (ht : t.kind = .integer)
    (hu : ¬ Power.default < Grammar.standard.powerOf u.kind) {number : Int}
    (hnumber : Numeral.integer? t.value = some number) :
    Reads (.expr .default) p (.integer t number) p :=
  reads_expr hp (by rw [ht]; rfl) (by rw [ht]; rfl) (gives_integer hp hnumber)
    (reads_links_stop hp hu)

/-! ## Programs -/

/-- An expression that no semicolon follows is a statement. -/
theorem reads_expressionStatement (hp : p.Faces (t :: rest))
    (hstatement : Grammar.standard.statement t.kind = none)
    (hreads : Reads (.expr .default) p value q) (hsemicolon : q.window.peek.kind ≠ .semicolon) :
    Reads .stmt p (.expression t value) q := by
  unfold Reads
  rw [hp.grammar_eq]
  refine Rule.Gives.look ?_
  dsimp only [Rule.bind]
  rw [hp.current_eq, hstatement, ← hp.current_eq]
  exact .look (.need hreads ((Rule.Gives.ifNotPeek hsemicolon .done).bind .done))

/-- A statement that is read up to the end of input is a program of its own. -/
theorem parseTokens_eq_of_reads {tokens : List Token} {stmt : Stmt}
    (hstart : (ofTokens tokens).kind ≠ .eof) (hreads : Reads .stmt (ofTokens tokens) stmt q)
    (hpeek : q.window.peek.kind = .eof) : parseTokens tokens = (⟨[some stmt]⟩, []) := by
  have hclean : (ofTokens tokens).diagnostics = [] := rfl
  have hgrammar : (ofTokens tokens).grammar = .standard := rfl
  rw [parseTokens]
  generalize ofTokens tokens = p at hstart hreads hclean hgrammar
  obtain ⟨budget, hfollow⟩ := hreads
  have hpursue := pursue_eq_of_follow hgrammar (by simp) hfollow
  have hafter : p.afterStatement false = q.advance := by rw [afterStatement, hpursue]
  have hslot : p.slot = some stmt := by
    rw [slot, hpursue]
    rfl
  have hprogram : p.program = (⟨[some stmt]⟩, q.advance) := by
    have hend : q.advance.kind = .eof := hpeek
    rw [program_of_ne hgrammar hstart, hafter, program_of_eof hend, hslot]
  -- a statement that was found has added no diagnostic
  have hdiagnostics : q.advance.diagnostics = [] := by
    have haccounted := pursue_accounted p.budget .stmt p
    rw [hpursue] at haccounted
    exact haccounted.trans hclean
  rw [hprogram, ← hdiagnostics]

/-- An expression that is read up to the end of input is a program of one statement. -/
theorem parseTokens_eq_of_reads_expr {tokens : List Token}
    (hp : (ofTokens tokens).Faces (t :: rest)) (hstart : t.kind ≠ .eof)
    (hstatement : Grammar.standard.statement t.kind = none)
    (hreads : Reads (.expr .default) (ofTokens tokens) value q)
    (hpeek : q.window.peek.kind = .eof) :
    parseTokens tokens = (⟨[some (.expression t value)]⟩, []) := by
  have hkind : (ofTokens tokens).kind ≠ .eof := by
    rw [kind, hp.current_eq]
    exact hstart
  have hsemicolon : q.window.peek.kind ≠ .semicolon := by
    rw [hpeek]
    decide
  apply parseTokens_eq_of_reads hkind _ hpeek
  exact reads_expressionStatement hp hstatement hreads hsemicolon

end ScriptFront
