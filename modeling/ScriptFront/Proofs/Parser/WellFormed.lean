import ScriptFront.Proofs.Parser.SoundnessPlans

/-!
# The trees that are read are well formed

* `soundness_kept` — every goal of the standard grammar has a sound answer.
* `slots_obey` — so have all statements of a program, also those behind a fault.
* `trees_wellFormed` — the law of the trees that are read from a list of tokens.
-/

namespace ScriptFront

open ScriptFront.Parser

variable {known : Token → Prop}

/-! ## The contract is kept -/

namespace Grammar

open ScriptFront.Rule

variable {p : Parser}

/-- Names, integers and fractions are read from tokens of their own kinds only. -/
theorem eq_of_standardLeading (kind : Kind) : ∀ rule ∈ standardLeading kind,
    (rule = .name → kind = .identifier) ∧ (rule = .integer → kind = .integer) ∧
      (rule = .float → kind = .float) := by
  cases kind <;> decide

/-- The rule for the token at hand gives an expression that obeys the law. -/
theorem builds_leading {rule : ExpressionRule} (hp : p.Sees known)
    (hrule : standard.leading p.window.current.kind = some rule) :
    rule.plan.Builds known p fun e => e.Obeys (wellFormed known) .operand := by
  obtain ⟨hname, hinteger, hfloat⟩ := eq_of_standardLeading _ rule hrule
  have hleading := isLeading_of_standard hrule
  cases rule with
  | step | pattern | arrayPattern => cases hleading
  | name => exact builds_current (builds_pure hp ⟨trivial, hp.name_ofToken (hname rfl)⟩)
  | integer =>
    refine builds_current ?_
    split
    · next value hvalue =>
      have hkind := hinteger rfl
      exact builds_pure hp ⟨hp.current (by simp [hkind]), hkind, hvalue⟩
    · exact builds_fail _
  | float =>
    refine builds_current ?_
    split
    · next value hvalue =>
      have hkind := hfloat rfl
      exact builds_pure hp ⟨hp.current (by simp [hkind]), hkind, hvalue⟩
    · exact builds_fail _
  | string => exact builds_current (builds_pure hp trivial)
  | boolean => exact builds_current (builds_pure hp trivial)
  | null => exact builds_current (builds_pure hp trivial)
  | receiver => exact builds_current (builds_pure hp trivial)
  | unary => exact builds_unary hp hrule
  | grouping => exact makes_grouping p hp
  | array => exact makes_array p hp
  | dict => exact makes_dict p hp
  | spread => exact makes_spread p hp
  | conditional => exact makes_need .conditional trivial p hp
  | whileLoop => exact makes_whileLoop p hp
  | forLoop => exact makes_forLoop p hp
  | repeatLoop => exact makes_repeatLoop p hp
  | switch => exact makes_switch p hp
  | matching => exact makes_matching p hp
  | function => exact makes_function p hp
  | asyncFunction => exact makes_asyncFunction p hp
  | await => exact makes_await p hp
  | channel => exact makes_channel p hp
  | importing => exact makes_importing p hp
  | package => exact makes_package p hp

/-- Going on from what obeys the law, by the rule for the token at hand, gives what obeys it. -/
theorem builds_linking {rule : LinkingRule} {left : Expr} (power : Power) (hp : p.Sees known)
    (hleft : left.Obeys (wellFormed known) .operand)
    (hrule : standard.linking p.window.current.kind = some rule) :
    (rule.plan left power).Builds known p fun e => e.Obeys (wellFormed known) .operand := by
  cases rule with
  | assignment => exact builds_assignment hp hleft hrule
  | binary => exact builds_binary power hp hleft hrule
  | range => exact builds_range power hp hleft hrule
  | call => exact makes_call hleft p hp
  | index => exact makes_index hleft p hp
  | member => exact makes_member hleft p hp

/-- The rule for the token at hand gives a statement that obeys the law. -/
theorem builds_statement {rule : StatementRule} (hp : p.Sees known)
    (hrule : standard.statement p.window.current.kind = some rule) :
    rule.plan.Builds known p (Stmt.Obeys (wellFormed known)) := by
  have hleading := isLeading_of_standardStatement hrule
  cases rule with
  | expression | any => cases hleading
  | declaration => exact makes_declaration p hp
  | returning => exact makes_returning p hp
  | breaking => exact makes_breaking p hp
  | continuing => exact makes_continuing p hp
  | including => exact makes_including p hp
  | block => exact makes_blockStatement p hp
  | enumeration => exact makes_enumeration p hp
  | go => exact makes_go p hp
  | error => exact makes_errorStatement p hp
  | declarative => exact builds_declarative hp (by intro h; rw [h] at hrule; cases hrule)

/-- An expression obeys the law. -/
theorem makes_expression (power : Power) :
    (standard.expression power).Makes known fun e => e.Obeys (wellFormed known) .operand := by
  intro p hp
  rw [standard_expression]
  refine builds_look ?_
  change Builds known (if _ then _ else _) p _
  split
  · next htrailing => exact builds_trailing hp htrailing
  · split
    · exact builds_fail _
    · next rule hrule =>
      refine (builds_leading hp hrule).bind fun left hleft => ?_
      exact makes_need (.links power left) hleft

/-- The rest of an expression obeys the law, if what goes on does. -/
theorem makes_links (power : Power) {left : Expr} (hleft : left.Obeys (wellFormed known) .operand) :
    (standard.links power left).Makes known fun e => e.Obeys (wellFormed known) .operand := by
  intro p hp
  refine builds_look ?_
  change Builds known (if _ then _ else _) p _
  split
  · refine builds_advance (builds_current ?_)
    split
    · exact builds_fail _
    · next rule hrule =>
      refine (builds_linking _ hp.advance hleft hrule).bind fun whole hwhole => ?_
      exact makes_need (.links power whole) hwhole
  · exact builds_pure hp hleft

/-- A statement obeys the law. -/
theorem makes_statementBody :
    standard.statementBody.Makes known (Stmt.Obeys (wellFormed known)) := by
  intro p hp
  refine builds_look ?_
  dsimp only [Rule.bind]
  split
  · next rule hrule => exact builds_statement hp hrule
  · exact makes_expressionStatement p hp

end Grammar

open Rule Grammar in
/-- Whatever is asked for, what is found is sound. -/
theorem soundness_kept : (soundness known).Kept := by
  have hkept {α : Type} {rule : Rule α} {post : α → Prop} {p : Parser} (hp : p.Sees known)
      (h : rule.Makes known post) :
      rule.Ensures (soundness known) (fun value _ => post value) (fun _ => True) p :=
    Ensures.imp (h p hp) (fun _ _ => And.right) fun _ => id
  intro goal p hgrammar hasked
  obtain ⟨hp, hready⟩ := hasked
  cases goal with
  | expr power => exact hkept hp (makes_expression power)
  | links power left => exact hkept hp (makes_links power hready)
  | list close => exact hkept hp (makes_listBody close)
  | listTail close => exact hkept hp (makes_listTail close)
  | pairs => exact hkept hp makes_pairs
  | conditional => exact hkept hp makes_conditionalBody
  | clauses => exact hkept hp makes_clauses
  | caseValues => exact hkept hp makes_caseValues
  | matchCases => exact hkept hp makes_matchCases
  | pattern => exact hkept hp makes_patternBody
  | patternItems restSeen => exact hkept hp (makes_patternItems restSeen)
  | parameters defaultSeen => exact hkept hp (makes_parameters defaultSeen)
  | names => exact hkept hp makes_names
  | members => exact hkept hp makes_members
  | stmt => exact hkept hp makes_statementBody
  | statements => exact hkept hp makes_statements

/-! ## Whole programs -/

/-- Every statement among the slots obeys the law, also behind one that could not be read. -/
theorem slots_obey {p : Parser} (hgrammar : p.grammar = .standard) (hp : p.Sees known)
    (budget rounds : Nat) : ∀ statement, some statement ∈ (slots budget rounds p).1 →
      statement.Obeys (wellFormed known) := by
  induction rounds generalizing p with
  | zero => simp [slots]
  | succ rounds ih =>
    have hmeets := Contract.pursue_meets soundness_kept budget .stmt hgrammar ⟨hp, trivial⟩
    have hlater := pursue_later budget .stmt p
    unfold slots
    by_cases heof : p.kind = .eof
    · simp [heof]
    rw [if_neg heof]
    rcases heq : pursue budget .stmt p with ⟨statement | _ | _, after⟩ <;> rw [heq] at hmeets hlater
    · have hnext : Later p after.advance := hlater.advance
      intro other hother
      rcases List.mem_cons.1 hother with hsame | hother
      · cases hsame
        exact hmeets
      · exact ih (hnext.grammar_eq.trans hgrammar) (hp.later hnext) other hother
    · have hnext : Later p (after.synchronize p.checkpoint false) :=
        hlater.trans (synchronize_later after _ _)
      intro other hother
      rcases List.mem_cons.1 hother with hsame | hother
      · cases hsame
      · exact ih (hnext.grammar_eq.trans hgrammar) (hp.later hnext) other hother
    · simp

/-- **Every tree that is read is well formed.** All statements that are read from a list of tokens
obey the law at every node, whatever diagnostics there are: names and integers are what their tokens
say; operators and assignments have tokens of their kinds, and only an index is assigned to by an
indexed assignment; a step has a name or a closing bracket before it; a `switch` has one default
clause at most, and the clauses without values are the default ones; an import has names, each once;
defaults belong to parameters; and array patterns stand only where patterns do. -/
theorem trees_wellFormed (tokens : List Token) :
    ∀ statement ∈ (parseTokens tokens).1.statements,
      statement.Obeys (wellFormed (· ∈ tokens)) := by
  intro statement hstatement
  have hslot : some statement ∈ (parseTokens tokens).1.slots := by
    simpa [Program.statements] using hstatement
  exact slots_obey rfl (sees_ofTokens tokens) (ofTokens tokens).budget (ofTokens tokens).remaining
    statement hslot

/-- The law of a program with a broken statement and a match on an array pattern behind it. -/
theorem trees_wellFormed_broken :
    let tokens : List Token := [⟨.letWord, "let", 1⟩, ⟨.semicolon, ";", 1⟩,
      ⟨.matchWord, "match", 2⟩, ⟨.identifier, "a", 2⟩, ⟨.openCurly, "\x7b", 2⟩,
      ⟨.openBracket, "[", 2⟩, ⟨.identifier, "b", 2⟩, ⟨.closeBracket, "]", 2⟩, ⟨.arrow, "=>", 2⟩,
      ⟨.integer, "0x10", 2⟩, ⟨.closeCurly, "\x7d", 2⟩]
    (parseTokens tokens).2 ≠ [] ∧ (parseTokens tokens).1.statements.length = 1 ∧
      ∀ statement ∈ (parseTokens tokens).1.statements,
        statement.Obeys (wellFormed (· ∈ tokens)) := by
  intro tokens
  exact ⟨by decide +kernel, by decide +kernel, trees_wellFormed tokens⟩

end ScriptFront
