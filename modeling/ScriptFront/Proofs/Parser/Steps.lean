import ScriptFront.Proofs.Parser.SupportPlans

/-!
# Steps and their operands

A step such as `++` is read as an expression of its own, right behind what it applies to. That it
applies to something is looked up in the token before it, a name or a closing bracket; here is what
such a token can end.

* `Rule.stands_statement` — what is promised of statements.
* `Grammar.delivers_expression`, `Grammar.delivers_links`, `support_kept` — the promise of
  `support` is kept.
* `CompleteAt`, `SteppedAt` — in the course of a reading, an expression is complete with the token
  at a place; a step is read on it.
* `step_operands` — in a program that is parsed without a diagnostic, what is complete right before
  a step is a name, an index or a member access, or else an array, a slice, a spread element or an
  import.
* `step_of_array` — the rule lets the others in as well: `[1]++` is parsed without a diagnostic.
-/

namespace ScriptFront

open ScriptFront.Parser

namespace Rule

variable {p : Parser} {excused : Parser → Prop} {calls : List Call}

/-! ## Statements -/

/-- The steps in an expression with its semicolon are supported there. -/
theorem stands_operand : operand.Stands := by
  intro p
  refine stands_nextExpr.bind .start fun value _ _ h => ?_
  refine stands_skipSemicolon.andThen h fun _ _ h => ?_
  exact delivers_pure h

/-- The steps in an expression that stands alone are supported, but for one on its first token. -/
theorem delivers_expressionStatement :
    expressionStatement.Delivers support
      (fun statement q calls => Standing (At p) statement.nodes calls q) [] p := by
  refine delivers_current ?_
  refine delivers_expr fun expression _ _ h => ?_
  refine stands_skipSemicolon.andThen h fun _ _ h => ?_
  exact delivers_pure h

/-- The steps in a declaration are supported there. -/
theorem stands_declaration : declaration.Stands := by
  intro p
  have hstart : Standing (At p.advance) [] [] p := .start
  refine delivers_look ?_
  change Delivers support _ (if _ then _ else _) [] p
  split
  · refine backs_expectIdentifier.bind hstart.toBacked fun name _ _ h => ?_
    refine delivers_thenExpect h (by decide) fun _ _ h => ?_
    refine stands_operand.bind h fun value _ _ h => ?_
    exact delivers_pure h
  · exact delivers_fail _

/-- The steps in a `return` are supported there. -/
theorem stands_returning : returning.Stands := by
  intro p
  have hstart : Standing (At p.advance) [] [] p := .start
  refine delivers_look ?_
  change Delivers support _ (if _ then _ else if _ then _ else _) [] p
  split
  · next hpeek =>
    refine delivers_next hstart.toBacked hpeek (by decide) fun _ _ h => ?_
    exact delivers_pure h
  · split
    · exact delivers_pure hstart
    · refine stands_operand.bind hstart fun value _ _ h => ?_
      exact delivers_pure h

/-- A `break` has no steps. -/
theorem stands_breaking : breaking.Stands := by
  intro p
  refine delivers_current ?_
  refine stands_skipSemicolon.andThen .start fun _ _ h => ?_
  exact delivers_pure h

/-- A `continue` has no steps. -/
theorem stands_continuing : continuing.Stands := by
  intro p
  refine delivers_current ?_
  refine stands_skipSemicolon.andThen .start fun _ _ h => ?_
  exact delivers_pure h

/-- An `include` has no steps. -/
theorem stands_including : including.Stands := by
  intro p
  have hstart : Standing (At p.advance) [] [] p := .start
  refine delivers_current ?_
  refine delivers_thenExpect hstart.toBacked (by decide) fun _ _ h => delivers_current ?_
  refine stands_skipSemicolon.andThen h fun _ _ h => ?_
  exact delivers_pure (h.cons rfl)

/-- The steps in a block that stands alone are supported there. -/
theorem stands_blockStatement : blockStatement.Stands := by
  intro p
  refine stands_block.bind .start fun block _ _ h => ?_
  exact delivers_pure h

/-- The steps in a member of an enumeration are supported there. -/
theorem stands_enumMember : enumMember.Stands := by
  intro p
  have hstart : Standing (At p.advance) [] [] p := .start
  refine backs_expectIdentifier.bind hstart.toBacked fun name _ _ h => ?_
  refine delivers_thenExpect h (by decide) fun _ _ h => ?_
  refine stands_nextExpr.bind h fun value _ _ h => ?_
  refine stands_memberComma.andThen h fun _ _ h => ?_
  exact delivers_pure h

/-- The steps in the members that are left of an enumeration are supported there. -/
theorem backsInside_members : members.BacksInside :=
  backsInside_untilBrace _ rfl (fun _ _ => rfl) stands_enumMember
    fun _ => delivers_need fun _ _ _ h => h

/-- The steps in an enumeration are supported there. -/
theorem stands_enumeration : enumeration.Stands := by
  intro p
  have hstart : Standing (At p.advance) [] [] p := .start
  refine delivers_current ?_
  refine backs_expectIdentifier.bind hstart.toBacked fun name _ _ h => ?_
  refine delivers_thenExpect h (by decide) fun _ _ h => ?_
  refine delivers_braces (fun _ _ _ _ h => h) h fun members _ _ h => ?_
  exact delivers_pure h

/-- The steps in a `go` are supported there. -/
theorem stands_go : go.Stands := by
  intro p
  refine delivers_current ?_
  refine stands_operand.bind .start fun expression _ _ h => ?_
  exact delivers_pure h

/-- The steps behind a word that takes one expression are supported there. -/
theorem stands_declarative : declarative.Stands := by
  intro p
  refine delivers_current ?_
  split
  · refine stands_operand.bind .start fun value _ _ h => ?_
    exact delivers_pure h
  · exact delivers_fail _

/-- A declaration of an error type has the nodes of its call but the call itself, which supports no
step. -/
theorem standing_errorNode {token : Token} {value : Expr}
    (h : Standing excused value.nodes calls p) :
    Standing excused (errorNode token value).nodes calls p := by
  unfold errorNode
  split
  · next call name arguments =>
    split
    · next parameters hparameters =>
      obtain rfl := bareNames?_eq_some hparameters
      have hnames : Standing excused (.identifier name :: Expr.nodesEach
        (parameters.map .identifier))
          calls p := h.of_cons fun _ => id
      rwa [nodesEach_identifiers] at hnames
    · exact h
  · exact h

/-- The steps in an `error` are supported there, declared or reported. -/
theorem stands_errorStatement : errorStatement.Stands := by
  intro p
  refine delivers_current ?_
  refine stands_operand.bind .start fun value _ _ h => ?_
  exact delivers_pure (standing_errorNode h)

/-- The steps in the statements of a block are backed, up to the closing brace. -/
theorem delivers_statements :
    statements.Delivers support
      (fun body q calls => Backed (At p) (Leafy.nodes body) calls ∧ q.kind = .closeCurly) [] p := by
  refine delivers_look ?_
  change Delivers support _ (if _ then _ else if _ then _ else _) [] p
  split
  · next hclose => exact delivers_pure ⟨.nil, hclose⟩
  · split
    · exact delivers_fail _
    · intro first q _ hfirst
      refine delivers_advance (delivers_need fun rest _ _ hrest => ?_)
      exact delivers_pure ⟨hfirst.toBacked.append hrest.1 hfirst.meets, hrest.2⟩

end Rule

/-! ## The tables -/

namespace Grammar

/-- Of the tokens that a place ends on, only a name begins an expression. -/
theorem eq_name_of_endsPlace {kind : Kind} (h : kind.EndsPlace) :
    ∀ rule ∈ standardLeading kind, rule = .name := by
  rcases h with rfl | rfl <;> decide

/-- No place ends on a token at which an expression goes on. -/
theorem not_endsPlace_of_standardLinking (kind : Kind) : ∀ rule ∈ standardLinking kind,
    ¬ kind.EndsPlace := by
  cases kind <;> decide

/-- No place ends on the first token of a statement with a rule of its own. -/
theorem not_endsPlace_of_standardStatement (kind : Kind) : ∀ rule ∈ standardStatement kind,
    ¬ kind.EndsPlace := by
  cases kind <;> decide

/-- No place ends on an operator that applies to the token before it. -/
theorem not_endsPlace_of_trailing {kind : Kind} (h : standard.trailing kind = true) :
    ¬ kind.EndsPlace := by
  revert h
  cases kind <;> decide

end Grammar

namespace Rule

variable {p : Parser}

/-- The expression is one token, which is a name or ends no place. -/
theorem delivers_leaf {e : Expr} (hnodes : e.nodes = [e]) (hstep : e.isStep = false)
    (hends : p.kind.EndsPlace → e.EndsOn p.window.current) :
    (pure e : Rule Expr).Delivers support (fun e q calls => Complete Never e calls q) [] p := by
  refine delivers_pure (.of_backed ?_ hends)
  rw [hnodes]
  exact Backed.cons .nil hstep

/-- Behind a token that no place ends on, what stands is complete. -/
theorem Stands.completes {rule : Rule Expr} (h : rule.Stands) (hkind : ¬ p.kind.EndsPlace) :
    rule.Delivers support (fun e q calls => Complete Never e calls q) [] p :=
  (h p).imp fun _ _ _ h => (h.of_kind hkind).complete

/-- The rule for the token at hand gives a complete expression. -/
theorem delivers_leading {rule : ExpressionRule} (hrule : rule ∈ Grammar.standardLeading p.kind) :
    rule.plan.Delivers support (fun e q calls => Complete Never e calls q) [] p := by
  have hname : rule ≠ .name → ¬ p.kind.EndsPlace :=
    fun hne hends => hne (Grammar.eq_name_of_endsPlace hends rule hrule)
  have hliteral {e : Expr} (hne : rule ≠ .name) : p.kind.EndsPlace → e.EndsOn p.window.current :=
    fun hends => absurd hends (hname hne)
  have hleading := Grammar.isLeading_of_standard hrule
  cases rule with
  | step | pattern | arrayPattern => cases hleading
  | name => exact delivers_current (delivers_leaf rfl rfl fun _ => rfl)
  | integer =>
    refine delivers_current ?_
    split
    · exact delivers_leaf rfl rfl (hliteral nofun)
    · exact delivers_fail _
  | float =>
    refine delivers_current ?_
    split
    · exact delivers_leaf rfl rfl (hliteral nofun)
    · exact delivers_fail _
  | string => exact delivers_current (delivers_leaf rfl rfl (hliteral nofun))
  | boolean => exact delivers_current (delivers_leaf rfl rfl (hliteral nofun))
  | null => exact delivers_current (delivers_leaf rfl rfl (hliteral nofun))
  | receiver => exact delivers_current (delivers_leaf rfl rfl (hliteral nofun))
  | unary => exact stands_unary.completes (hname nofun)
  | grouping => exact stands_grouping.completes (hname nofun)
  | array =>
    exact delivers_array.imp fun _ _ _ h => .of_backed (h.1.of_kind (hname nofun)) fun _ => h.2
  | dict => exact stands_dict.completes (hname nofun)
  | spread => exact delivers_spread.imp fun _ _ _ h => .of_backed h.1 fun _ => h.2
  | conditional => exact stands_conditional.completes (hname nofun)
  | whileLoop => exact stands_whileLoop.completes (hname nofun)
  | forLoop => exact stands_forLoop.completes (hname nofun)
  | repeatLoop => exact stands_repeatLoop.completes (hname nofun)
  | switch => exact stands_switch.completes (hname nofun)
  | matching => exact stands_matching.completes (hname nofun)
  | function => exact stands_function.completes (hname nofun)
  | asyncFunction => exact stands_asyncFunction.completes (hname nofun)
  | await => exact stands_await.completes (hname nofun)
  | channel => exact stands_channel.completes (hname nofun)
  | importing => exact delivers_importing.imp fun _ _ _ h => .of_backed h.1 fun _ => h.2
  | package => exact stands_package.completes (hname nofun)

/-- Whatever an expression goes on with, the whole is complete. -/
theorem completes_linking (rule : LinkingRule) (left : Expr) (power : Power) :
    (rule.plan left power).Completes left := by
  cases rule with
  | assignment => exact completes_assignment left
  | binary => exact completes_binary left power
  | range => exact completes_range left power
  | call => exact completes_call left
  | index => exact completes_index left
  | member => exact completes_member left

/-- Every rule for the first token of a statement gives one whose steps are supported. -/
theorem stands_statement {rule : StatementRule} (hleading : rule.isLeading = true) :
    rule.plan.Stands := by
  cases rule with
  | expression | any => cases hleading
  | declaration => exact stands_declaration
  | returning => exact stands_returning
  | breaking => exact stands_breaking
  | continuing => exact stands_continuing
  | including => exact stands_including
  | block => exact stands_blockStatement
  | enumeration => exact stands_enumeration
  | go => exact stands_go
  | error => exact stands_errorStatement
  | declarative => exact stands_declarative

end Rule

/-! ## The promise is kept -/

namespace Grammar

open ScriptFront.Rule

variable {p : Parser}

/-- An operator that applies to the token before it gives a step, which is excused at hand. -/
theorem delivers_trailing (power : Power) (htrailing : standard.trailing p.kind = true) :
    Rule.trailing.Delivers support (fun e q calls => Standing (At p) e.nodes calls q)
      [⟨.expr power, p⟩] p := by
  refine delivers_look ?_
  change Delivers support _ (if _ then _ else _) _ p
  split
  · next hprevious =>
    refine delivers_pure (Backed.standing ⟨fun e hmem _ => ?_, fun r hr => ?_⟩
      (not_endsPlace_of_trailing htrailing))
    · rw [List.mem_singleton.1 hmem]
      exact ⟨p, ⟨power, List.mem_cons_self, htrailing⟩, rfl, .inl ⟨rfl, hprevious⟩⟩
    · obtain ⟨_, hcall, -⟩ := hr
      cases List.mem_singleton.1 hcall
      exact .inl ⟨rfl, hprevious⟩
  · exact delivers_fail _

/-- The steps in an expression are supported, but for one on its first token. -/
theorem delivers_expression (power : Power) :
    (standard.expression power).Delivers support
      (fun e q calls => Standing (At p) e.nodes calls q) [⟨.expr power, p⟩] p := by
  rw [standard_expression]
  refine delivers_look ?_
  change Delivers support _ (if _ then _ else _) _ p
  split
  · next htrailing => exact delivers_trailing power htrailing
  · next htrailing =>
    have hcall : Backed (At p) [] [⟨.expr power, p⟩] := by
      refine ⟨fun _ hmem => absurd hmem List.not_mem_nil, fun r hr => ?_⟩
      obtain ⟨_, hmem, hkind⟩ := hr
      cases List.mem_singleton.1 hmem
      exact absurd hkind htrailing
    split
    · exact delivers_fail _
    · next rule hrule =>
      refine (delivers_leading hrule).seq fun left _ _ hleft => ?_
      refine delivers_need fun whole _ _ hwhole => ?_
      exact delivers_pure (hwhole _ _ (Complete.append hcall hleft))

/-- The rest of a complete expression gives one whose steps are supported. -/
theorem delivers_links (power : Power) (left : Expr) :
    (standard.links power left).Delivers support
      (fun whole q calls => ∀ excused before, Complete excused left before p →
        Standing excused whole.nodes (before ++ calls) q) [⟨.links power left, p⟩] p := by
  refine delivers_forall fun excused => delivers_forall fun before =>
    delivers_forall fun hleft => ?_
  suffices hlinks : (standard.links power left).Delivers support
      (fun whole q calls => Standing excused whole.nodes calls q)
      (before ++ [⟨.links power left, p⟩]) p from hlinks.unframe
  have h : Standing excused left.nodes (before ++ [⟨.links power left, p⟩]) p := hleft.standing
  refine delivers_look ?_
  change Delivers support _ (if _ then _ else _) _ p
  split
  · refine delivers_advance (delivers_current ?_)
    split
    · exact delivers_fail _
    · next rule hrule =>
      have hkind := not_endsPlace_of_standardLinking _ rule hrule
      refine (completes_linking rule left _ _ _ _ (h.toBacked.standing hkind)).bind ?_
      intro middle _ _ hmiddle
      refine delivers_need fun whole _ _ hwhole => ?_
      exact delivers_pure (hwhole _ _ hmiddle)
  · exact delivers_pure h

/-- The steps in a statement are supported, but for one on its first token. -/
theorem delivers_statementBody :
    standard.statementBody.Delivers support
      (fun statement q calls => Standing (At p) statement.nodes calls q) [] p := by
  refine delivers_look ?_
  dsimp only [Rule.bind]
  split
  · next rule hrule =>
    have hkind := not_endsPlace_of_standardStatement _ rule hrule
    exact (stands_statement (isLeading_of_standardStatement hrule) p).imp fun _ _ _ h =>
      h.of_kind hkind
  · exact delivers_expressionStatement

end Grammar

open Rule Grammar in
/-- Whatever is asked for, the steps in what is found are supported. -/
theorem support_kept : support.Kept := by
  intro goal p _
  cases goal with
  | expr power => exact delivers_expression power
  | links power left => exact delivers_links power left
  | list close => exact (delivers_listBody close).behind fun _ _ _ h => ⟨h.1.behind nofun, h.2⟩
  | listTail close => exact (stands_listTail close p).behind fun _ _ _ h => h.behind nofun
  | pairs => exact (backsInside_pairs p).behind fun _ _ _ h => ⟨h.1.behind nofun, h.2⟩
  | conditional => exact (stands_conditionalBody p).behind fun _ _ _ h => h.behind nofun
  | clauses => exact (backsInside_clauses p).behind fun _ _ _ h => ⟨h.1.behind nofun, h.2⟩
  | caseValues => exact (stands_caseValues p).behind fun _ _ _ h => h.behind nofun
  | matchCases => exact (backsInside_matchCases p).behind fun _ _ _ h => ⟨h.1.behind nofun, h.2⟩
  | pattern => exact delivers_patternBody.behind fun _ _ _ h => h.behind nofun
  | patternItems restSeen =>
    exact (delivers_patternItems restSeen).behind fun _ _ _ h => ⟨h.1, h.2.behind nofun⟩
  | parameters defaultSeen =>
    exact (delivers_parameters defaultSeen).behind fun _ _ _ h =>
      ⟨h.1.behind nofun, fun parameter hmem value hvalue =>
        (h.2 parameter hmem value hvalue).behind nofun⟩
  | names => exact delivers_names.behind fun _ _ _ h => ⟨h.1.behind nofun, h.2⟩
  | members => exact (backsInside_members p).behind fun _ _ _ h => ⟨h.1.behind nofun, h.2⟩
  | stmt => exact delivers_statementBody.behind fun _ _ _ h => h.behind nofun
  | statements => exact delivers_statements.behind fun _ _ _ h => ⟨h.1.behind nofun, h.2⟩

/-- In a program that is read without a diagnostic, all steps but one on its first token are
supported. -/
theorem backed_program {p : Parser} (hgrammar : p.grammar = .standard)
    (hclean : p.program.2.diagnostics = p.diagnostics) :
    Backed (At p) p.program.1.nodes p.programCalls :=
  support_kept.slots (motive := fun p statements calls =>
    Backed (At p) (Stmt.nodesEach statements) calls)
    (fun _ => .nil) (fun _ _ _ _ _ _ hstatement hrest =>
      hstatement.toBacked.append hrest hstatement.meets)
    p hgrammar (Nat.le_refl _) (Nat.le_refl _) hclean

/-! ## Lists of tokens -/

variable {tokens : List Token}

/-- While the tokens are parsed, it is asked how the expression goes on behind the token at the
place, which is its last one so far. -/
def CompleteAt (tokens : List Token) (e : Expr) (place : Nat) : Prop :=
  ∃ power, ⟨.links power e, advance^[place] (ofTokens tokens)⟩ ∈ (ofTokens tokens).programCalls

/-- While the tokens are parsed, an expression is asked for on the token at the place, which is an
operator that applies to the token before it. -/
def SteppedAt (tokens : List Token) (place : Nat) : Prop :=
  Stepped (ofTokens tokens).programCalls (advance^[place] (ofTokens tokens))

/-- Before the end of the list, the tokens at hand are those of the list. -/
theorem getElem?_eq_current {count : Nat} (h : count < tokens.length) :
    tokens[count]? = some (advance^[count] (ofTokens tokens)).window.current := by
  have hcurrent := current_iterate_ofTokens tokens count
  rw [hcurrent, List.getElem?_eq_getElem h]
  rfl

/-- Where the token at hand is no end of input, it is one of the list. -/
theorem lt_length_of_kind_ne {count : Nat} (h : (advance^[count] (ofTokens tokens)).kind ≠ .eof) :
    count < tokens.length := by
  by_contra hend
  have hcurrent := current_iterate_ofTokens tokens count
  rw [List.getElem?_eq_none (Nat.not_lt.1 hend)] at hcurrent
  exact h (congrArg Token.kind hcurrent)

/-- What supports a step is complete one token before it, and ends on the token that the step
records. -/
theorem completeAt_of_supported {nodes : List Expr} {place : Nat}
    (hclean : (parseTokens tokens).2 = []) (hstepped : SteppedAt tokens place)
    (h : Supported nodes (ofTokens tokens).programCalls (advance^[place] (ofTokens tokens))) :
    ∃ before token mark e, place = before + 1 ∧ tokens[before]? = some token ∧
      tokens[before + 1]? = some mark ∧
      (advance^[place] (ofTokens tokens)).step = .step token mark.value ∧
      CompleteAt tokens e before ∧ e ∈ nodes ∧ e.EndsOn token := by
  obtain ⟨power, e, q, hcall, hnext, hends, hmem⟩ := h
  obtain ⟨before, hq⟩ := reaches_of_programCalls (p := ofTokens tokens) rfl hclean _ hcall
  obtain rfl : q = advance^[before] (ofTokens tokens) := hq
  obtain ⟨-, -, htrailing⟩ := hstepped
  have hlt : place < tokens.length := lt_length_of_kind_ne fun heof => by
    rw [heof] at htrailing
    cases htrailing
  have hplace : place = before + 1 := by
    have hposition := congrArg Parser.position hnext
    rw [position_advance, position_iterate, position_iterate] at hposition
    omega
  subst hplace
  refine ⟨before, _, _, e, rfl, getElem?_eq_current (Nat.lt_of_succ_lt hlt),
    getElem?_eq_current hlt,
    ?_, ⟨power, hcall⟩, hmem, hends⟩
  rw [step, Function.iterate_succ_apply', previous_advance]

/-- What a step consists of: the token before the operator, and the operator. -/
def Expr.step? : Expr → Option (Token × String)
  | .step token operator => some (token, operator)
  | _ => none

/-- The steps in a program, at any depth. -/
def Program.steps (program : Program) : List (Token × String) :=
  program.nodes.filterMap Expr.step?

/-- The steps of a program are those among its nodes. -/
theorem Program.mem_steps {program : Program} {token : Token} {operator : String} :
    (token, operator) ∈ program.steps ↔ .step token operator ∈ program.nodes := by
  have hstep : ∀ e : Expr, e.step? = some (token, operator) ↔ e = .step token operator := by
    intro e
    cases e <;> simp [Expr.step?]
  simp [Program.steps, hstep]

/-- **A step records the last token of what it stands behind.** In a program that is parsed without
a diagnostic, every step stands right behind a complete expression of the program, and it records
the last token of that. The expression is a name, an index or a member access, or it resembles one
by its last token. Nor are other steps read on the way to the program. -/
theorem step_operands (hclean : (parseTokens tokens).2 = []) :
    (∀ token operator, (token, operator) ∈ (parseTokens tokens).1.steps →
      ∃ place mark e, tokens[place]? = some token ∧ tokens[place + 1]? = some mark ∧
        mark.value = operator ∧ SteppedAt tokens (place + 1) ∧ CompleteAt tokens e place ∧
        e ∈ (parseTokens tokens).1.nodes ∧ e.EndsOn token ∧
        (e.isPlace = true ∨ e.resemblesPlace = true)) ∧
    ∀ place, SteppedAt tokens place → ∃ before token e, place = before + 1 ∧
      tokens[before]? = some token ∧ CompleteAt tokens e before ∧ e.EndsOn token ∧
      (e.isPlace = true ∨ e.resemblesPlace = true) := by
  have hbacked := backed_program (p := ofTokens tokens) rfl hclean
  -- the first token has none before it
  have hfirst : ∀ r, ¬ At (ofTokens tokens) r := by
    rintro r ⟨-, hends⟩
    exact absurd (show Kind.EndsPlace .eof from hends) (by decide)
  constructor
  · intro token operator hmem
    obtain ⟨r, hstepped, hnode, hsupported⟩ := hbacked.node _ (Program.mem_steps.1 hmem) rfl
    obtain ⟨power, hcall, htrailing⟩ := hstepped
    obtain ⟨count, hr⟩ := reaches_of_programCalls (p := ofTokens tokens) rfl hclean _ hcall
    obtain rfl : r = advance^[count] (ofTokens tokens) := hr
    have hthere : SteppedAt tokens count := ⟨power, hcall, htrailing⟩
    obtain ⟨place, last, mark, e, rfl, hlast, hmark, hstep, hcomplete, hamong, hends⟩ :=
      completeAt_of_supported hclean hthere (hsupported.resolve_left (hfirst _))
    rw [hstep] at hnode
    cases hnode
    exact ⟨place, mark, e, hlast, hmark, rfl, hthere, hcomplete, hamong, hends, hends.isPlace_or⟩
  · intro place hstepped
    obtain ⟨others, hsupported⟩ := (hbacked.call _ hstepped).resolve_left (hfirst _)
    obtain ⟨before, last, mark, e, hplace, hlast, -, -, hcomplete, -, hends⟩ :=
      completeAt_of_supported hclean hstepped hsupported
    exact ⟨before, last, e, hplace, hlast, hcomplete, hends, hends.isPlace_or⟩

/-- The law at `items[0]--`. -/
theorem step_operands_index :
    let tokens : List Token := [⟨.identifier, "items", 1⟩, ⟨.openBracket, "[", 1⟩,
      ⟨.integer, "0", 1⟩,
      ⟨.closeBracket, "]", 1⟩, ⟨.minusMinus, "--", 1⟩]
    (parseTokens tokens).2 = [] ∧
      (⟨.closeBracket, "]", 1⟩, "--") ∈ (parseTokens tokens).1.steps ∧
      SteppedAt tokens 4 ∧ ∃ e, CompleteAt tokens e 3 ∧ e ∈ (parseTokens tokens).1.nodes ∧
        e.EndsOn ⟨.closeBracket, "]", 1⟩ ∧ (e.isPlace = true ∨ e.resemblesPlace = true) := by
  intro tokens
  have hclean : (parseTokens tokens).2 = [] := by decide +kernel
  have hmem : (⟨.closeBracket, "]", 1⟩, "--") ∈ (parseTokens tokens).1.steps := by decide +kernel
  obtain ⟨place, _, e, htoken, -, -, hstepped, hcomplete, hnode, hends⟩ :=
    (step_operands hclean).1 _ _ hmem
  have hplace : place = 3 := by
    rcases place with _ | _ | _ | _ | _ | place <;> simp [tokens] at htoken ⊢
  subst hplace
  exact ⟨hclean, hmem, hstepped, e, hcomplete, hnode, hends⟩

/-- The rule lets in more than names, indexes and member accesses: `[1]++` is parsed without a
diagnostic, and what the step stands behind is an array. -/
theorem step_of_array :
    let tokens : List Token := [⟨.openBracket, "[", 1⟩, ⟨.integer, "1", 1⟩, ⟨.closeBracket, "]", 1⟩,
      ⟨.plusPlus, "++", 1⟩]
    (parseTokens tokens).2 = [] ∧
      (⟨.closeBracket, "]", 1⟩, "++") ∈ (parseTokens tokens).1.steps ∧
      ∀ e ∈ (parseTokens tokens).1.nodes, e.isPlace = false := by
  decide +kernel

end ScriptFront
