import ScriptFront.Proofs.Parser.TakenTokensPlans

/-!
# Every goal leaves behind its leaves

The rules for statements, the tables that choose a rule by the token at hand, and with them
`leafContract_kept`: whatever is asked for, the tokens from the one at hand to the last one taken
nest and leave behind the leaves of the answer. `Rule.Collects.run` says what follows for a plan
that is followed with an ample budget.
-/

namespace ScriptFront

open ScriptFront.Parser

namespace Rule

variable {p : Parser} {before : List Token}

/-! ## Statements -/

/-- An expression and its semicolon leave behind the expression. -/
theorem takes_operand : operand.TakesTokens [] [] := by
  intro p
  refine takes_nextExpr.bind (.nil []) fun value _ _ h => ?_
  refine takes_skipSemicolon.andThen h fun _ _ h => ?_
  exact collects_pure h

/-- An expression that stands alone leaves behind its leaves. -/
theorem takesHere_expressionStatement : expressionStatement.TakesTokensHere [] [] := by
  intro p
  refine collects_current ?_
  change Collects _ ([] ++ [_]) p _
  refine (takesHere_expr .default).bind (.nil []) fun expression _ _ h => ?_
  refine takes_skipSemicolon.andThen h fun _ _ h => ?_
  exact collects_pure h

/-- A declaration leaves behind its name and its value. -/
theorem takes_declaration : declaration.TakesTokens [] [] := by
  intro p
  refine collects_look ?_
  change Collects (if _ then _ else _) [] p _
  split
  · refine takes_expectIdentifier.bind (.nil []) fun name _ _ h => ?_
    refine (takes_expect rfl).andThen h fun _ _ h => ?_
    refine takes_operand.bind h fun value _ _ h => ?_
    exact collects_pure h
  · exact collects_fail _

/-- A `return` leaves behind its value, if it has one. -/
theorem takes_returning : returning.TakesTokens [] [] := by
  intro p
  refine collects_look ?_
  change Collects (if _ then _ else if _ then _ else _) [] p _
  split
  · next hpeek => exact collects_advance (collects_pure ((TokensFor.nil []).shift hpeek rfl))
  · split
    · exact collects_pure (.nil [])
    · refine takes_operand.bind (.nil []) fun value _ _ h => ?_
      exact collects_pure h

/-- A `break` leaves nothing behind. -/
theorem takes_breaking : breaking.TakesTokens [] [] := by
  intro p
  refine collects_current ?_
  refine takes_skipSemicolon.andThen (.nil []) fun _ _ h => ?_
  exact collects_pure h

/-- A `continue` leaves nothing behind. -/
theorem takes_continuing : continuing.TakesTokens [] [] := by
  intro p
  refine collects_current ?_
  refine takes_skipSemicolon.andThen (.nil []) fun _ _ h => ?_
  exact collects_pure h

/-- An `include` leaves behind its string. -/
theorem takes_including : including.TakesTokens [] [] := by
  intro p
  refine collects_current (collects_expect fun hpeek => collects_current ?_)
  have hpath : TokensOf [] [] (Expr.string p.advance.window.current p.advance.window.current.value)
      [p.advance.window.current] := by
    refine TokensFor.leaf ?_
    rw [current_advance, hpeek]
    rfl
  refine takes_skipSemicolon.andThen hpath fun _ _ h => ?_
  exact collects_pure h

/-- A block that stands alone leaves behind its leaves and closes its brace. -/
theorem takes_blockStatement : blockStatement.TakesTokens [.closeCurly] [] := by
  intro p
  refine takes_block.bind (.nil [.closeCurly]) fun block _ _ h => ?_
  exact collects_pure h

/-- A member of an enumeration leaves behind its name and its value. -/
theorem takes_enumMember : enumMember.TakesTokens [] [] := by
  intro p
  refine takes_expectIdentifier.bind (.nil []) fun name _ _ h => ?_
  refine (takes_expect rfl).andThen h fun _ _ h => ?_
  refine takes_nextExpr.bind h fun value _ _ h => ?_
  refine takes_memberComma.andThen h fun _ _ h => ?_
  exact collects_pure h

/-- The members that are left of an enumeration leave behind their leaves. -/
theorem takesInside_members : members.TakesTokensInside :=
  takesInside_untilBrace _ (.nil []) (fun _ _ => ⟨rfl, rfl⟩) takes_enumMember
    fun _ => collects_need trivial fun _ _ _ h => collects_pure h

/-- An enumeration leaves behind its name and its members. -/
theorem takes_enumeration : enumeration.TakesTokens [] [] := by
  intro p
  refine collects_current ?_
  refine takes_expectIdentifier.bind (.nil []) fun name _ _ h => ?_
  refine (takes_expect rfl).andThen h fun _ _ h => ?_
  refine collects_braces trivial (fun _ _ _ _ h => h) h fun members _ _ h => ?_
  exact collects_pure h

/-- A `go` leaves behind its expression. -/
theorem takes_go : go.TakesTokens [] [] := by
  intro p
  refine collects_current ?_
  refine takes_operand.bind (.nil []) fun expression _ _ h => ?_
  exact collects_pure h

/-- A word that takes one expression leaves behind the expression. -/
theorem takes_declarative : declarative.TakesTokens [] [] := by
  intro p
  refine collects_current ?_
  split
  · refine takes_operand.bind (.nil []) fun value _ _ h => ?_
    exact collects_pure h
  · exact collects_fail _

/-- Where all expressions are bare names, they are these names. -/
theorem bareNames?_eq_some {expressions : List Expr} {names : List Identifier}
    (h : bareNames? expressions = some names) : expressions = names.map Expr.identifier := by
  unfold bareNames? at h
  induction expressions generalizing names with
  | nil => simp_all
  | cons first rest ih =>
    rw [List.mapM_cons] at h
    obtain ⟨name, hname, h⟩ := Option.bind_eq_some_iff.1 h
    obtain ⟨others, hothers, hnames⟩ := Option.bind_eq_some_iff.1 h
    cases hnames
    split at hname
    · cases hname
      rw [ih hothers, List.map_cons]
    · cases hname

/-- The leaves of bare names are their tokens. -/
theorem leavesEach_identifiers (names : List Identifier) :
    Expr.leavesEach (names.map Expr.identifier) = names.map Identifier.token := by
  induction names with
  | nil => rfl
  | cons name rest ih => simp [Expr.leavesEach, Expr.leaves, ih]

/-- The nodes of bare names are those of the names. -/
theorem nodesEach_identifiers (names : List Identifier) :
    Expr.nodesEach (names.map Expr.identifier) = Identifier.nodesEach names := by
  induction names with
  | nil => rfl
  | cons name rest ih => simp [Expr.nodesEach, Expr.nodes, Identifier.nodesEach, ih]

/-- Both readings of an error statement have the leaves of its expression. -/
theorem tokensOf_errorNode {token : Token} {value : Expr} {tokens : List Token}
    (h : TokensOf [] [] value tokens) : TokensOf [] [] (errorNode token value) tokens := by
  unfold errorNode
  split
  · next call name arguments =>
    split
    · next parameters hparameters =>
      obtain rfl := bareNames?_eq_some hparameters
      have hleaves : Leafy.leaves (Expr.call call (.identifier name)
          (parameters.map Expr.identifier)) =
            Leafy.leaves (Stmt.errorDeclaration token name parameters) := by
        simp [Leafy.leaves, Expr.leaves, Stmt.leaves, leavesEach_identifiers]
      rw [TokensOf, hleaves] at h
      refine h.of_nodes fun node hmem => ?_
      rcases List.mem_cons.1 hmem with rfl | hmem
      · exact .inr List.nodup_nil
      · rw [nodesEach_identifiers] at hmem
        exact .inl hmem
    · exact h
  · exact h

/-- An `error` leaves behind the leaves of its expression, declared or reported. -/
theorem takes_errorStatement : errorStatement.TakesTokens [] [] := by
  intro p
  refine collects_current ?_
  refine takes_operand.bind (.nil []) fun value _ _ h => ?_
  exact collects_pure (tokensOf_errorNode h)

/-- The statements of a block leave behind their leaves, up to the closing brace. -/
theorem collects_statements :
    statements.Collects [p.window.current] p fun body tokens q => Enclosed body tokens q := by
  refine collects_look ?_
  change Collects (if _ then _ else if _ then _ else _) _ p _
  split
  · next hclose => exact collects_pure ⟨[], rfl, hclose, .nil []⟩
  · split
    · exact collects_fail _
    · refine collects_salvage trivial (fun _ => trivial) fun first tokens q hfirst => ?_
      refine collects_advance (collects_need trivial ?_)
      rintro rest more r ⟨inner, hinner, hclose, hrest⟩
      refine collects_pure ⟨_, ?_, hclose, TokensFor.append hfirst hrest⟩
      rw [List.append_assoc _ inner, ← hinner, List.append_assoc]
      rfl

end Rule

/-! ## The tables -/

/-- The brackets that are open behind the first token of an expression that is no literal. -/
def ExpressionRule.pending : ExpressionRule → List Kind
  | grouping => [.closeParen]
  | array => [.closeBracket]
  | dict => [.closeCurly]
  | _ => []

/-- The expression is one token, and that is a leaf. -/
def ExpressionRule.isLeaf : ExpressionRule → Bool
  | name | integer | float | string | boolean | null | receiver => true
  | _ => false

/-- The brackets that are open behind the operator. -/
def LinkingRule.pending : LinkingRule → List Kind
  | call => [.closeParen]
  | index => [.closeBracket]
  | _ => []

/-- The brackets that are open behind the first token of a statement. -/
def StatementRule.pending : StatementRule → List Kind
  | block => [.closeCurly]
  | _ => []

namespace Grammar

/-- The token on which an expression starts is a leaf for a rule that reads one leaf, and opens the
brackets that are pending for any other. -/
theorem standardLeading_opens (kind : Kind) : ∀ rule ∈ standardLeading kind,
    if rule.isLeaf then kind.isOperand = true else kind.Opens rule.pending := by
  cases kind <;> decide

/-- The rules that drop names start on their two words only. -/
theorem standardLeading_dropsNames (kind : Kind) : ∀ rule ∈ standardLeading kind,
    rule = .importing ∨ rule = .repeatLoop → kind = .importWord ∨ kind = .repeatWord := by
  cases kind <;> decide

/-- The token at which an expression goes on opens the brackets that are pending for its rule. -/
theorem standardLinking_opens (kind : Kind) : ∀ rule ∈ standardLinking kind,
    kind.Opens rule.pending := by
  cases kind <;> decide

/-- The token on which a statement starts opens the brackets that are pending for its rule. -/
theorem standardStatement_opens (kind : Kind) : ∀ rule ∈ standardStatement kind,
    kind.Opens rule.pending := by
  cases kind <;> decide

/-- An operator that applies to the token before it opens no bracket. -/
theorem opens_of_standardTrailing {kind : Kind} (h : standard.trailing kind = true) :
    kind.Opens [] := by
  revert h
  cases kind <;> decide

end Grammar

namespace Rule

variable {p : Parser}

/-- An expression that is one leaf takes in the token at hand. -/
theorem collects_leaf {e : Expr} (hkind : p.kind.isOperand = true)
    (hleaves : e.leaves = [p.window.current]) :
    (pure e : Rule Expr).Collects [p.window.current] p fun e tokens _ =>
      TokensOf [] [] e tokens := by
  refine collects_pure ?_
  rw [TokensOf, show Leafy.leaves e = [p.window.current] from hleaves]
  exact TokensFor.leaf hkind

/-- Behind one of their words, rules that drop names may do so. -/
theorem collects_dropsNames {rule : Rule Expr}
    (h : rule.Collects [] p fun e tokens _ => DropsNames e tokens)
    (hword : p.kind = .importWord ∨ p.kind = .repeatWord) :
    rule.Collects [p.window.current] p fun e tokens _ => TokensOf [] [] e tokens := by
  rw [← List.append_nil [p.window.current]]
  refine h.frame.imp ?_
  rintro e _ _ ⟨tokens, rfl, hdrops⟩
  exact hdrops.tokensOf hword

/-- The rule for the token at hand collects the tokens of an expression. -/
theorem collects_leading {rule : ExpressionRule}
    (hrule : rule ∈ Grammar.standardLeading p.kind) :
    rule.plan.Collects [p.window.current] p fun e tokens _ => TokensOf [] [] e tokens := by
  have hopens := Grammar.standardLeading_opens p.kind rule hrule
  have hdrops := Grammar.standardLeading_dropsNames p.kind rule hrule
  have hleading := Grammar.isLeading_of_standard hrule
  cases rule with
  | step | pattern | arrayPattern => cases hleading
  | name => exact collects_current (collects_leaf hopens rfl)
  | integer =>
    refine collects_current ?_
    split
    · exact collects_leaf hopens rfl
    · exact collects_fail _
  | float =>
    refine collects_current ?_
    split
    · exact collects_leaf hopens rfl
    · exact collects_fail _
  | string => exact collects_current (collects_leaf hopens rfl)
  | boolean => exact collects_current (collects_leaf hopens rfl)
  | null => exact collects_current (collects_leaf hopens rfl)
  | receiver => exact collects_current (collects_leaf hopens rfl)
  | unary => exact takes_unary.here rfl hopens
  | grouping => exact takes_grouping.here rfl hopens
  | array => exact takes_array.here rfl hopens
  | dict => exact takes_dict.here rfl hopens
  | spread => exact takes_spread.here rfl hopens
  | conditional => exact takes_conditional.here rfl hopens
  | whileLoop => exact takes_whileLoop.here rfl hopens
  | forLoop => exact takes_forLoop.here rfl hopens
  | repeatLoop => exact collects_dropsNames collects_repeatLoop (hdrops (.inr rfl))
  | switch => exact takes_switch.here rfl hopens
  | matching => exact takes_matching.here rfl hopens
  | function => exact takes_function.here rfl hopens
  | asyncFunction => exact takes_asyncFunction.here rfl hopens
  | await => exact takes_await.here rfl hopens
  | channel => exact takes_channel.here rfl hopens
  | importing => exact collects_dropsNames collects_importing (hdrops (.inl rfl))
  | package => exact takes_package.here rfl hopens

/-- Whatever an expression goes on with, it adds the leaves that the tokens leave behind. -/
theorem prolongs_linking (rule : LinkingRule) (left : Expr) (power : Power) :
    (rule.plan left power).Prolongs left rule.pending := by
  cases rule with
  | assignment => exact prolongs_assignment left
  | binary => exact prolongs_binary left power
  | range => exact prolongs_range left power
  | call => exact prolongs_call left
  | index => exact prolongs_index left
  | member => exact prolongs_member left

/-- The rule for the first token of a statement closes what that token opens and leaves behind the
leaves of the statement. -/
theorem takes_statement {rule : StatementRule} (hleading : rule.isLeading = true) :
    rule.plan.TakesTokens rule.pending [] := by
  cases rule with
  | expression | any => cases hleading
  | declaration => exact takes_declaration
  | returning => exact takes_returning
  | breaking => exact takes_breaking
  | continuing => exact takes_continuing
  | including => exact takes_including
  | block => exact takes_blockStatement
  | enumeration => exact takes_enumeration
  | go => exact takes_go
  | error => exact takes_errorStatement
  | declarative => exact takes_declarative

end Rule

/-! ## The contract is kept -/

namespace Grammar

open ScriptFront.Rule

variable {p : Parser}

/-- `x++` and `x--` leave nothing behind that was not left before. -/
theorem collects_trailing (h : standard.trailing p.kind = true) :
    Rule.trailing.Collects [p.window.current] p fun e tokens _ => TokensOf [] [] e tokens := by
  refine collects_look ?_
  change Collects (if _ then _ else _) _ p _
  split
  · exact collects_pure ((TokensFor.opening (opens_of_standardTrailing h)).node _)
  · exact collects_fail _

/-- An expression collects its tokens, the one at hand included. -/
theorem collects_expression (power : Power) :
    (standard.expression power).Collects [p.window.current] p fun e tokens _ =>
      TokensOf [] [] e tokens := by
  rw [standard_expression]
  refine collects_look ?_
  change Collects (if _ then _ else _) _ p _
  split
  · next htrailing => exact collects_trailing htrailing
  · split
    · exact collects_fail _
    · next rule hrule =>
      refine (collects_leading hrule).bind fun left tokens q hleft => ?_
      refine collects_need trivial fun whole more _ hmore => ?_
      exact collects_pure (Extends.tokensOf hmore hleft)

/-- The rest of an expression extends it by its tokens. -/
theorem collects_links (power : Power) (left : Expr) :
    (standard.links power left).Collects [] p fun e tokens _ => Extends [] left e tokens := by
  refine collects_look ?_
  change Collects (if _ then _ else _) _ p _
  split
  · refine collects_advance (collects_current ?_)
    split
    · exact collects_fail _
    · next rule hrule =>
      have hopens := standardLinking_opens _ rule hrule
      rw [← List.append_nil ([] ++ _)]
      refine (prolongs_linking rule left _ p.advance).frame.bind ?_
      rintro middle _ q ⟨tokens, rfl, hmiddle⟩
      refine collects_need trivial fun whole more _ hmore => ?_
      exact collects_pure ((hmiddle.operator hopens).trans hmore)
  · exact collects_pure .refl

/-- A statement collects its tokens, the one at hand included. -/
theorem collects_statementBody :
    standard.statementBody.Collects [p.window.current] p fun statement tokens _ =>
      TokensOf [] [] statement tokens := by
  refine collects_look ?_
  dsimp only [Rule.bind]
  split
  · next rule hrule =>
    exact (takes_statement (isLeading_of_standardStatement hrule)).here rfl
      (standardStatement_opens _ rule hrule)
  · exact takesHere_expressionStatement p

end Grammar

open Rule Grammar in
/-- Whatever is asked for, the tokens that are taken nest, and they leave behind the leaves of what
is found. -/
theorem leafContract_kept : leafContract.Kept := by
  intro goal p hgrammar hasked
  cases goal with
  | expr power => exact collects_expression power
  | links power left => exact collects_links power left
  | list close => exact takes_listBody hasked p
  | listTail close => exact takes_listTail close p
  | pairs => exact takesInside_pairs p
  | conditional => exact takes_conditionalBody p
  | clauses => exact takesInside_clauses p
  | caseValues => exact takes_caseValues p
  | matchCases => exact takesInside_matchCases p
  | pattern => exact takesHere_patternBody p
  | patternItems restSeen => exact collects_patternItems restSeen
  | parameters defaultSeen => exact takes_parameters defaultSeen p
  | names => exact takes_names p
  | members => exact takesInside_members p
  | stmt => exact collects_statementBody
  | statements => exact collects_statements

/-- What a plan that is done has taken, if it was followed with an ample budget. -/
theorem Rule.Collects.run {α : Type} {rule : Rule α} {before : List Token} {p q : Parser}
    {post : α → List Token → Parser → Prop} {value : α} (h : rule.Collects before p post)
    (hgrammar : p.grammar = .standard) (hrun : p.run rule = (some value, q)) :
    ∃ tokens, Steps p tokens q ∧ post value (before ++ tokens) q := by
  have hmeets := Contract.follow_meets (pursue_later p.budget)
    (fun goal _ hq => Contract.pursue_meets leafContract_kept p.budget goal hq) hgrammar h
  unfold Parser.run at hrun
  rcases heq : rule.follow (pursue p.budget) p with ⟨found | _ | _, after⟩ <;>
    rw [heq] at hmeets hrun
  · cases hrun
    exact hmeets
  · cases hrun
  · cases hrun

end ScriptFront
