import ScriptFront.Grammar.Body
import ScriptFront.Proofs.Tree.Lines

/-!
# Plans do not look at lines

On a window whose tokens stand on the first line, a plan does what it does on the window itself, and
it gives the same value with all tokens on the first line.

* `Window.flat`, `Goal.flat`, `Goal.flatAnswer` — what plans see and ask for, up to lines. A goal
  holds a tree only where an expression goes on.
* `Rule.Mirrors` — the second plan does on flat windows and answers what the first does on the
  windows and answers themselves; one lemma for each way of putting plans together.
* `Rule.Steady` — a plan that mirrors itself.
* `Grammar.body_mirrors` — the plan for every goal is mirrored by that for the flat goal.
-/

namespace ScriptFront

open ScriptFront.Lined (flat)

/-! ## Windows and goals up to lines -/

/-- The window with every token on the first line. -/
def Window.flat (w : Window) : Window :=
  ⟨w.previous.flat, w.current.flat, w.peek.flat⟩

instance : Lined Window := ⟨Window.flat⟩

/-- The kind of the token at hand does not depend on its line. -/
theorem Window.kind_flat (w : Window) : (Lined.flat w).current.kind = w.current.kind := rfl

/-- The goal with every token on the first line. -/
def Goal.flat : Goal → Goal
  | .links power left => .links power (Lined.flat left)
  | goal => goal

/-- An answer with every token on the first line. -/
def Goal.flatAnswer : (goal : Goal) → goal.Answer → goal.flat.Answer
  | .expr _ => @Lined.flat Expr _
  | .links _ _ => @Lined.flat Expr _
  | .list _ => @Lined.flat (List Expr) _
  | .listTail _ => @Lined.flat (List Expr) _
  | .pairs => @Lined.flat (List (Expr × Expr)) _
  | .conditional => @Lined.flat Expr _
  | .clauses => @Lined.flat (List CaseClause) _
  | .caseValues => @Lined.flat (List Expr) _
  | .matchCases => @Lined.flat (List MatchCase) _
  | .pattern => @Lined.flat Expr _
  | .patternItems _ => @Lined.flat (List Expr × Option Identifier) _
  | .parameters _ => @Lined.flat (List Parameter) _
  | .names => @Lined.flat (List Identifier) _
  | .members => @Lined.flat (List (Identifier × Expr)) _
  | .stmt => @Lined.flat Stmt _
  | .statements => @Lined.flat (List Stmt) _

/-! ## Plans that mirror each other -/

/-- On flat windows and answers, the second plan takes the steps that the first takes on the windows
and answers themselves, and its value is that of the first under the map. -/
inductive Rule.Mirrors {α β : Type} (map : α → β) : Rule α → Rule β → Prop
  | done (value : α) : Mirrors map (.done value) (.done (map value))
  | fail (cause : Cause) : Mirrors map (.fail cause) (.fail cause)
  | look {next : Window → Rule α} {next' : Window → Rule β}
      (h : ∀ w, Mirrors map (next w) (next' w.flat)) : Mirrors map (.look next) (.look next')
  | shift {next : Rule α} {next' : Rule β} (h : Mirrors map next next') :
      Mirrors map (.shift next) (.shift next')
  | need {goal : Goal} {next : goal.Answer → Rule α} {next' : goal.flat.Answer → Rule β}
      (h : ∀ answer, Mirrors map (next answer) (next' (goal.flatAnswer answer))) :
      Mirrors map (.need goal next) (.need goal.flat next')
  | salvage {goal rest : Goal} {next : goal.Answer → Rule α} {next' : goal.flat.Answer → Rule β}
      (h : ∀ answer, Mirrors map (next answer) (next' (goal.flatAnswer answer))) :
      Mirrors map (.salvage goal next rest) (.salvage goal.flat next' rest.flat)

namespace Rule

variable {α β : Type}

/-- Up to lines, the plan does the same on every window as on the flat one. -/
def Steady [Lined α] (rule : Rule α) : Prop :=
  rule.Mirrors flat rule

/-- Plans one after the other mirror each other, if their halves do. -/
theorem Mirrors.bind {γ δ : Type} {map : α → β} {after : γ → δ} {rule : Rule α} {rule' : Rule β}
    {f : α → Rule γ} {f' : β → Rule δ} (h : rule.Mirrors map rule')
    (hf : ∀ value, (f value).Mirrors after (f' (map value))) :
    (rule >>= f).Mirrors after (rule' >>= f') := by
  change (rule.bind f).Mirrors after (rule'.bind f')
  induction h with
  | done value => exact hf value
  | fail cause => exact .fail cause
  | look _ ih => exact .look ih
  | shift _ ih => exact .shift ih
  | need _ ih => exact .need ih
  | salvage _ ih => exact .salvage ih

/-- A plan that is done with the flat value. -/
theorem mirrors_pure {map : α → β} {value : α} {value' : β} (h : value' = map value) :
    (pure value : Rule α).Mirrors map (pure value') := by
  rw [h]
  exact .done value

/-- Choices mirror each other, if they are made alike between plans that do. -/
theorem mirrors_ite {map : α → β} {condition : Prop} [Decidable condition] {yes no : Rule α}
    {yes' no' : Rule β} (hyes : yes.Mirrors map yes') (hno : no.Mirrors map no') :
    (if condition then yes else no).Mirrors map (if condition then yes' else no') := by
  split
  · exact hyes
  · exact hno

/-- Looking at the window is the same up to lines. -/
theorem steady_window : window.Steady :=
  .look fun w => .done w

/-- Looking at the token at hand is the same up to lines. -/
theorem steady_current : current.Steady :=
  .look fun w => .done w.current

/-- Whether the next token has a kind does not depend on lines. -/
theorem steady_peekIs (kind : Kind) : (peekIs kind).Steady :=
  .look fun w => .done (decide (w.peek.kind = kind))

/-- A shift does not depend on lines. -/
theorem steady_advance : advance.Steady :=
  .shift (.done ())

/-- A step onto the next token if it is of the kind, and otherwise something else. -/
theorem mirrors_ifPeek {map : α → β} {kind : Kind} {next : Unit → Rule α} {next' : Unit → Rule β}
    {other : Rule α} {other' : Rule β} (hnext : (next ()).Mirrors map (next' ()))
    (hother : other.Mirrors map other') :
    (peekIs kind >>= fun is => if is = true then advance >>= next else other).Mirrors map
      (peekIs kind >>= fun is => if is = true then advance >>= next' else other') :=
  (steady_peekIs kind).bind fun _ => mirrors_ite (steady_advance.bind fun _ => hnext) hother

/-- A step onto a token asked for by kind does not depend on lines. -/
theorem steady_expect (kind : Kind) : (expect kind).Steady :=
  steady_window.bind fun _ => mirrors_ite steady_advance (.fail _)

/-- A step onto a name gives the same name up to lines. -/
theorem steady_expectIdentifier : expectIdentifier.Steady :=
  (steady_expect _).bind fun _ => steady_current.bind fun _ => mirrors_pure rfl

/-- Taking a semicolon does not depend on lines. -/
theorem steady_skipSemicolon : skipSemicolon.Steady :=
  (steady_peekIs _).bind fun _ => mirrors_ite steady_advance (mirrors_pure rfl)

/-- Asking for an expression does not depend on lines. -/
theorem steady_expr (power : Power) : (expr power).Steady :=
  .need fun e => .done e

/-- Asking for a pattern does not depend on lines. -/
theorem steady_pattern : pattern.Steady :=
  .need fun e => .done e

/-- An expression on the next token does not depend on lines. -/
theorem steady_nextExpr : nextExpr.Steady :=
  steady_advance.bind fun _ => steady_expr _

/-- Asking for a list does not depend on lines. -/
theorem steady_list (close : Kind) : (list close).Steady :=
  .need fun elements => .done elements

/-- A block does not depend on lines. -/
theorem steady_block : block.Steady :=
  steady_current.bind fun _ => steady_advance.bind fun _ => .need fun _ => mirrors_pure rfl

/-- A block on the next token does not depend on lines. -/
theorem steady_body : body.Steady :=
  (steady_expect _).bind fun _ => steady_block

/-! ## Operands -/

/-- An integer literal does not depend on lines. -/
theorem steady_integer : integer.Steady := by
  refine steady_current.bind fun token => ?_
  rw [Token.value_flat]
  cases Numeral.integer? token.value with
  | some value => exact mirrors_pure rfl
  | none => exact .fail _

/-- A literal with a fraction does not depend on lines. -/
theorem steady_float : float.Steady := by
  refine steady_current.bind fun token => ?_
  rw [Token.value_flat]
  cases Numeral.double? token.value with
  | some value => exact mirrors_pure rfl
  | none => exact .fail _

/-- A spread does not depend on lines. -/
theorem steady_spread : spread.Steady :=
  steady_current.bind fun _ => steady_expectIdentifier.bind fun _ => mirrors_pure rfl

/-- Parentheses do not depend on lines. -/
theorem steady_grouping : grouping.Steady :=
  steady_nextExpr.bind fun _ => (steady_expect _).bind fun _ => mirrors_pure rfl

/-- The rest of a list does not depend on lines. -/
theorem steady_listTail (close : Kind) : (listTail close).Steady := by
  refine mirrors_ifPeek ((steady_peekIs _).bind fun _ => ?_) (mirrors_pure rfl)
  refine mirrors_ite (mirrors_pure rfl) (steady_nextExpr.bind fun first => ?_)
  exact .need fun _ => mirrors_pure rfl

/-- A list does not depend on lines. -/
theorem steady_listBody (close : Kind) : (listBody close).Steady := by
  refine mirrors_ifPeek (mirrors_pure rfl) (steady_nextExpr.bind fun first => ?_)
  exact .need fun _ => (steady_expect _).bind fun _ => mirrors_pure rfl

/-- An array does not depend on lines. -/
theorem steady_array : array.Steady :=
  steady_current.bind fun _ => (steady_list _).bind fun _ => mirrors_pure rfl

/-- The comma after a member does not depend on lines. -/
theorem steady_memberComma : memberComma.Steady :=
  (steady_peekIs _).bind fun _ => mirrors_ite (mirrors_pure rfl) (steady_expect _)

/-- A pair of a dict does not depend on lines. -/
theorem steady_pair : pair.Steady :=
  steady_nextExpr.bind fun _ => (steady_expect _).bind fun _ => steady_nextExpr.bind fun _ =>
    steady_memberComma.bind fun _ => mirrors_pure rfl

/-- The remaining members of something in braces. -/
theorem mirrors_untilBrace {map : List α → List α} {each : α → α} (construct : String)
    {member : Rule α} {more : Rule (List α)} (hnil : map [] = [])
    (hcons : ∀ first rest, map (first :: rest) = each first :: map rest)
    (hmember : member.Mirrors each member) (hmore : more.Mirrors map more) :
    (untilBrace construct member more).Mirrors map (untilBrace construct member more) := by
  refine steady_window.bind fun w => mirrors_ite (mirrors_pure hnil.symm) ?_
  refine mirrors_ite (.fail _) (hmember.bind fun first => hmore.bind fun rest => ?_)
  exact mirrors_pure (hcons first rest).symm

/-- A dict does not depend on lines. -/
theorem steady_dict : dict.Steady :=
  steady_current.bind fun _ => .need fun _ => steady_advance.bind fun _ => mirrors_pure rfl

/-! ## Operators -/

/-- `x++` and `x--` do not depend on lines. -/
theorem steady_trailing : trailing.Steady :=
  steady_window.bind fun _ => mirrors_ite (mirrors_pure rfl) (.fail _)

/-- An operator behind a flat operand does what it does behind the operand itself. -/
theorem mirrors_binary (left : Expr) (power : Power) :
    (binary left power).Mirrors flat (binary (flat left) power) :=
  steady_current.bind fun _ => steady_advance.bind fun _ => (steady_expr _).bind fun _ =>
    mirrors_pure rfl

/-- A range from a flat bound is the flat range. -/
theorem mirrors_range (left : Expr) (power : Power) :
    (range left power).Mirrors flat (range (flat left) power) :=
  steady_current.bind fun _ => steady_advance.bind fun _ => (steady_expr _).bind fun _ =>
    mirrors_pure rfl

/-- What can be assigned to does not depend on lines. -/
theorem assignmentNode?_flat (token : Token) (left : Expr) :
    (assignmentNode? token left = none ∧ assignmentNode? (flat token) (flat left) = none) ∨
      ∃ node node', assignmentNode? token left = some node ∧
        assignmentNode? (flat token) (flat left) = some node' ∧
          ∀ value, node' (flat value) = flat (node value) := by
  cases left with
  | identifier name =>
    right
    by_cases hkind : token.kind = .assignment
    · exact ⟨_, _, if_pos hkind, if_pos hkind, fun _ => rfl⟩
    · exact ⟨_, _, if_neg hkind, if_neg hkind, fun _ => rfl⟩
  | property | index => exact .inr ⟨_, _, rfl, rfl, fun _ => rfl⟩
  | _ => exact .inl ⟨rfl, rfl⟩

/-- An assignment to a flat target is the flat assignment, or fails with the same text. -/
theorem mirrors_assignment (left : Expr) :
    (assignment left).Mirrors flat (assignment (flat left)) := by
  refine steady_current.bind fun token => ?_
  obtain ⟨hnone, hnone'⟩ | ⟨node, node', hsome, hsome', hnode⟩ := assignmentNode?_flat token left
  · rw [hnone, hnone']
    dsimp only
    rw [show (flat left).render = left.render from Expr.render_flat left]
    exact .fail _
  · rw [hsome, hsome']
    exact steady_nextExpr.bind fun value => mirrors_pure (hnode value)

/-- A call of what is flat is the flat call. -/
theorem mirrors_call (left : Expr) : (call left).Mirrors flat (call (flat left)) :=
  steady_current.bind fun _ => (steady_list _).bind fun _ => mirrors_pure rfl

/-- The rest of a slice of what is flat gives the flat slice. -/
theorem mirrors_sliceStop (token : Token) (left : Expr) (start : Option Expr) :
    (sliceStop token left start).Mirrors flat (sliceStop (flat token) (flat left) (flat start)) :=
  mirrors_ifPeek (mirrors_pure rfl) <|
    steady_nextExpr.bind fun _ => (steady_expect _).bind fun _ => mirrors_pure rfl

/-- An index or a slice of what is flat is the flat one. -/
theorem mirrors_index (left : Expr) : (index left).Mirrors flat (index (flat left)) := by
  refine steady_current.bind fun token => mirrors_ifPeek (mirrors_sliceStop token left none) ?_
  refine steady_nextExpr.bind fun first => ?_
  refine mirrors_ifPeek (mirrors_sliceStop token left (some first)) ?_
  exact (steady_expect _).bind fun _ => mirrors_pure rfl

/-- A property or a method of what is flat is the flat one. -/
theorem mirrors_member (left : Expr) : (member left).Mirrors flat (member (flat left)) := by
  refine steady_current.bind fun token => steady_expectIdentifier.bind fun name => ?_
  exact mirrors_ifPeek ((steady_list _).bind fun _ => mirrors_pure rfl) (mirrors_pure rfl)

/-! ## Control flow -/

/-- A condition does not depend on lines. -/
theorem steady_condition : condition.Steady :=
  (steady_expect _).bind fun _ => steady_grouping

/-- What follows the consequence of a conditional does not depend on lines. -/
theorem steady_alternative : alternative.Steady := by
  refine mirrors_ifPeek (mirrors_ifPeek (.need fun nested => mirrors_pure ?_) ?_) (mirrors_pure rfl)
  · exact congrArg some (Block.ofExpr_flat nested)
  · exact steady_body.bind fun _ => mirrors_pure rfl

/-- A conditional does not depend on lines. -/
theorem steady_conditionalBody : conditionalBody.Steady :=
  steady_current.bind fun _ => steady_condition.bind fun _ => steady_body.bind fun _ =>
    steady_alternative.bind fun _ => mirrors_pure rfl

/-- A `while` loop does not depend on lines. -/
theorem steady_whileLoop : whileLoop.Steady :=
  steady_current.bind fun _ => steady_condition.bind fun _ => steady_body.bind fun _ =>
    mirrors_pure rfl

/-- The names of a `for` loop do not depend on lines. -/
theorem steady_loopNames : loopNames.Steady :=
  steady_expectIdentifier.bind fun _ =>
    mirrors_ifPeek (steady_expectIdentifier.bind fun _ => mirrors_pure rfl) (mirrors_pure rfl)

/-- A `for` loop does not depend on lines. -/
theorem steady_forLoop : forLoop.Steady :=
  steady_current.bind fun _ => steady_loopNames.bind fun _ => (steady_expect _).bind fun _ =>
    steady_nextExpr.bind fun _ => steady_body.bind fun _ => mirrors_pure rfl

/-- The name of the round in a `repeat` loop does not depend on lines. -/
theorem steady_loopCounter : loopCounter.Steady := by
  refine mirrors_ifPeek (steady_expectIdentifier.bind fun counter => ?_) (mirrors_pure rfl)
  exact (steady_expect _).bind fun _ => mirrors_pure rfl

/-- A `repeat` loop does not depend on lines. -/
theorem steady_repeatLoop : repeatLoop.Steady :=
  steady_current.bind fun _ => steady_loopCounter.bind fun _ => steady_nextExpr.bind fun _ =>
    steady_body.bind fun _ => mirrors_pure rfl

/-! ## Switch and match -/

/-- The other values of a clause do not depend on lines. -/
theorem steady_caseValues : caseValues.Steady := by
  refine mirrors_ifPeek (steady_nextExpr.bind fun value => ?_) (mirrors_pure rfl)
  exact .need fun _ => mirrors_pure rfl

/-- The selection of a clause does not depend on lines. -/
theorem steady_selection : selection.Steady := by
  refine steady_window.bind fun w => mirrors_ite (mirrors_pure rfl) ?_
  refine mirrors_ite (steady_advance.bind fun _ => ?_) (.fail _)
  refine steady_window.bind fun w => mirrors_ite (mirrors_pure rfl) ?_
  exact (steady_expr _).bind fun _ => .need fun _ => mirrors_pure rfl

/-- A clause does not depend on lines. -/
theorem steady_clause : clause.Steady := by
  refine steady_advance.bind fun _ => steady_current.bind fun token => ?_
  refine steady_selection.bind fun values => steady_body.bind fun _ => mirrors_pure ?_
  cases values <;> rfl

/-- A switch does not depend on lines, nor does the number of its defaults. -/
theorem steady_switch : switch.Steady := by
  refine steady_current.bind fun token => steady_condition.bind fun subject => ?_
  refine (steady_expect _).bind fun _ => .need fun clauses => steady_advance.bind fun _ => ?_
  change Mirrors flat _ (if 1 < (flat clauses).countP CaseClause.isDefault then
    fail (.duplicateDefault ((flat clauses).countP CaseClause.isDefault)) else _)
  rw [CaseClause.countP_isDefault_flat]
  exact mirrors_ite (.fail _) (mirrors_pure rfl)

/-- The condition behind a pattern does not depend on lines. -/
theorem steady_guard : guard.Steady :=
  mirrors_ifPeek (steady_nextExpr.bind fun _ => mirrors_pure rfl) (mirrors_pure rfl)

/-- What a case does is the same up to lines. -/
theorem steady_caseBody : caseBody.Steady :=
  mirrors_ifPeek steady_block (steady_nextExpr.bind fun e => mirrors_pure (Block.ofExpr_flat e))

/-- A case does not depend on lines. -/
theorem steady_matchCase : matchCase.Steady := by
  refine steady_advance.bind fun _ => steady_current.bind fun token => ?_
  refine steady_pattern.bind fun pattern => steady_guard.bind fun guard => ?_
  refine (steady_expect _).bind fun _ => steady_caseBody.bind fun body => ?_
  exact mirrors_ifPeek (mirrors_pure rfl) (mirrors_pure rfl)

/-- A match does not depend on lines. -/
theorem steady_matching : matching.Steady :=
  steady_current.bind fun _ => steady_nextExpr.bind fun _ => (steady_expect _).bind fun _ =>
    .need fun _ => steady_advance.bind fun _ => mirrors_pure rfl

/-! ## Patterns -/

/-- The items behind a comma do not depend on lines. -/
theorem steady_patternTail (restSeen : Bool) : (patternTail restSeen).Steady :=
  mirrors_ifPeek (.need fun _ => mirrors_pure rfl) (mirrors_pure rfl)

/-- The items of an array pattern do not depend on lines. -/
theorem steady_patternItems (restSeen : Bool) : (patternItems restSeen).Steady := by
  refine steady_advance.bind fun _ => steady_window.bind fun w => mirrors_ite ?_ ?_
  · refine mirrors_ite (.fail _) (mirrors_ite ?_ (.fail _))
    refine steady_advance.bind fun _ => steady_current.bind fun rest => ?_
    exact (steady_patternTail _).bind fun _ => mirrors_pure rfl
  · refine mirrors_ite (.fail _) (steady_pattern.bind fun element => ?_)
    exact (steady_patternTail _).bind fun _ => mirrors_pure rfl

/-- An array pattern does not depend on lines. -/
theorem steady_arrayPattern : arrayPattern.Steady := by
  refine steady_current.bind fun token => mirrors_ifPeek (mirrors_pure rfl) ?_
  exact .need fun _ => (steady_expect _).bind fun _ => mirrors_pure rfl

/-- The pattern of a case does not depend on lines. -/
theorem steady_patternBody : patternBody.Steady :=
  steady_window.bind fun _ =>
    mirrors_ite steady_arrayPattern (mirrors_ite steady_dict (steady_expr _))

/-! ## Declarations -/

/-- The parameters behind a comma do not depend on lines. -/
theorem steady_parameterTail (defaultSeen : Bool) : (parameterTail defaultSeen).Steady :=
  mirrors_ifPeek (.need fun _ => mirrors_pure rfl) (mirrors_pure rfl)

/-- The parameters of a function do not depend on lines. -/
theorem steady_parameters (defaultSeen : Bool) : (parameters defaultSeen).Steady := by
  refine steady_expectIdentifier.bind fun id => mirrors_ifPeek ?_ (mirrors_ite (.fail _) ?_)
  · exact steady_nextExpr.bind fun _ => (steady_parameterTail _).bind fun _ => mirrors_pure rfl
  · exact (steady_parameterTail _).bind fun _ => mirrors_pure rfl

/-- A parameter list does not depend on lines. -/
theorem steady_parameterList : parameterList.Steady :=
  mirrors_ifPeek (mirrors_pure rfl) (.need fun _ => (steady_expect _).bind fun _ =>
    mirrors_pure rfl)

/-- A name that may be missing does not depend on lines. -/
theorem steady_optionalName : optionalName.Steady :=
  mirrors_ifPeek (steady_current.bind fun _ => mirrors_pure rfl) (mirrors_pure rfl)

/-- A function that keeps a flat token is the flat function. -/
theorem mirrors_functionFrom (async : Bool) (token : Token) :
    (functionFrom async token).Mirrors flat (functionFrom async (flat token)) := by
  refine steady_optionalName.bind fun name => (steady_expect _).bind fun _ => ?_
  refine steady_parameterList.bind fun parameters => steady_body.bind fun body => mirrors_pure ?_
  have hnames : (flat parameters).map Prod.fst = flat (parameters.map Prod.fst) := by
    change (parameters.map flat).map Prod.fst =
      (parameters.map Prod.fst).map (Identifier.mapTokens Token.flat)
    rw [List.map_map, List.map_map]
    rfl
  rw [hnames, Defaults.ofParameters_flat]
  rfl

/-- A function does not depend on lines. -/
theorem steady_function : function.Steady :=
  steady_current.bind fun token => mirrors_functionFrom false token

/-- A function announced by `async` does not depend on lines. -/
theorem steady_asyncFunction : asyncFunction.Steady :=
  steady_current.bind fun token => (steady_expect _).bind fun _ => mirrors_functionFrom true token

/-- A channel does not depend on lines. -/
theorem steady_channel : channel.Steady :=
  steady_current.bind fun _ =>
    mirrors_ifPeek (steady_grouping.bind fun _ => mirrors_pure rfl) (mirrors_pure rfl)

/-- The names of an import do not depend on lines. -/
theorem steady_names : names.Steady :=
  steady_expectIdentifier.bind fun _ =>
    mirrors_ifPeek (.need fun _ => mirrors_pure rfl) (mirrors_pure rfl)

/-- Which names are new does not depend on lines. -/
theorem distinctNames_flat (seen : List String) (names : List Identifier) :
    distinctNames seen (flat names) = flat (distinctNames seen names) := by
  induction names generalizing seen with
  | nil => rfl
  | cons id rest ih =>
    change distinctNames seen (flat id :: flat rest) = _
    have hname : (flat id).name = id.name := rfl
    simp only [distinctNames, hname]
    split
    · exact ih seen
    · exact congrArg (List.cons _) (ih _)

/-- An import drops the same names on all lines. -/
theorem steady_importing : importing.Steady := by
  refine steady_current.bind fun token => .need fun names => mirrors_pure ?_
  exact congrArg (Expr.importing (flat token)) (distinctNames_flat [] names)

/-- A package does not depend on lines. -/
theorem steady_package : package.Steady :=
  steady_current.bind fun _ => steady_expectIdentifier.bind fun _ => steady_body.bind fun _ =>
    mirrors_pure rfl

/-! ## Statements -/

/-- An expression and its semicolon do not depend on lines. -/
theorem steady_operand : operand.Steady :=
  steady_nextExpr.bind fun _ => steady_skipSemicolon.bind fun _ => mirrors_pure rfl

/-- An expression that stands alone does not depend on lines. -/
theorem steady_expressionStatement : expressionStatement.Steady :=
  steady_current.bind fun _ => (steady_expr _).bind fun _ => steady_skipSemicolon.bind fun _ =>
    mirrors_pure rfl

/-- A declaration does not depend on lines. -/
theorem steady_declaration : declaration.Steady := by
  refine steady_window.bind fun w => mirrors_ite ?_ (.fail _)
  exact steady_expectIdentifier.bind fun _ => (steady_expect _).bind fun _ =>
    steady_operand.bind fun _ => mirrors_pure rfl

/-- A `return` does not depend on lines. -/
theorem steady_returning : returning.Steady := by
  refine steady_window.bind fun w => mirrors_ite ?_ (mirrors_ite ?_ ?_)
  · exact steady_advance.bind fun _ => mirrors_pure rfl
  · exact mirrors_pure rfl
  · exact steady_operand.bind fun _ => mirrors_pure rfl

/-- An `include` does not depend on lines. -/
theorem steady_including : including.Steady :=
  steady_current.bind fun _ => (steady_expect _).bind fun _ => steady_current.bind fun _ =>
    steady_skipSemicolon.bind fun _ => mirrors_pure rfl

/-- A member of an enumeration does not depend on lines. -/
theorem steady_enumMember : enumMember.Steady :=
  steady_expectIdentifier.bind fun _ => (steady_expect _).bind fun _ =>
    steady_nextExpr.bind fun _ => steady_memberComma.bind fun _ => mirrors_pure rfl

/-- An enumeration does not depend on lines. -/
theorem steady_enumeration : enumeration.Steady :=
  steady_current.bind fun _ => steady_expectIdentifier.bind fun _ => (steady_expect _).bind fun _ =>
    .need fun _ => steady_advance.bind fun _ => mirrors_pure rfl

/-- A word that takes one expression does not depend on lines. -/
theorem steady_declarative : declarative.Steady := by
  refine steady_current.bind fun token => ?_
  rw [Token.kind_flat]
  cases Declarative.ofKind? token.kind with
  | some word => exact steady_operand.bind fun _ => mirrors_pure rfl
  | none => exact .fail _

/-- A bare name in front of bare names is one of them. -/
theorem bareNames?_cons_identifier (id : Identifier) (rest : List Expr) :
    bareNames? (.identifier id :: rest) = (bareNames? rest).map (List.cons id) := by
  unfold bareNames?
  rw [List.mapM_cons]
  cases List.mapM (m := Option) _ rest <;> rfl

/-- Which expressions are bare names does not depend on lines. -/
theorem bareNames?_flat (expressions : List Expr) :
    bareNames? (flat expressions) = (bareNames? expressions).map flat := by
  induction expressions with
  | nil => rfl
  | cons e rest ih =>
    change bareNames? (flat e :: flat rest) = _
    cases e with
    | identifier id =>
      change bareNames? (.identifier (flat id) :: flat rest) = _
      rw [bareNames?_cons_identifier, bareNames?_cons_identifier, ih, Option.map_map,
        Option.map_map]
      rfl
    | _ => rfl

/-- What `error` and an expression mean does not depend on lines. -/
theorem errorNode_flat (token : Token) (value : Expr) :
    errorNode (flat token) (flat value) = flat (errorNode token value) := by
  cases value with
  | call parenthesis function arguments =>
    cases function with
    | identifier name =>
      change errorNode (flat token) (.call _ (.identifier (flat name)) (flat arguments)) = _
      simp only [errorNode, bareNames?_flat]
      cases bareNames? arguments <;> rfl
    | _ => rfl
  | _ => rfl

/-- Whether an error is declared or reported does not depend on lines. -/
theorem steady_errorStatement : errorStatement.Steady :=
  steady_current.bind fun token => steady_operand.bind fun value =>
    mirrors_pure (errorNode_flat token value)

/-- The statements of a block do not depend on lines. -/
theorem steady_statements : statements.Steady := by
  refine steady_window.bind fun w => mirrors_ite (mirrors_pure rfl) ?_
  refine mirrors_ite (.fail _) (.salvage fun first => ?_)
  exact steady_advance.bind fun _ => .need fun _ => mirrors_pure rfl

end Rule

open Rule

/-! ## The tables -/

/-- Whatever a flat expression goes on with, the plan mirrors that for the expression itself. -/
theorem LinkingRule.plan_mirrors (rule : LinkingRule) (left : Expr) (power : Power) :
    (rule.plan left power).Mirrors flat (rule.plan (flat left) power) := by
  cases rule with
  | assignment => exact mirrors_assignment left
  | binary => exact mirrors_binary left power
  | range => exact mirrors_range left power
  | call => exact mirrors_call left
  | index => exact mirrors_index left
  | member => exact mirrors_member left

/-- No rule for expressions that start on the token at hand looks at lines. -/
theorem ExpressionRule.plan_steady (rule : ExpressionRule) : rule.plan.Steady := by
  cases rule with
  | name | string | boolean | null | receiver =>
    exact steady_current.bind fun _ => mirrors_pure rfl
  | integer => exact steady_integer
  | float => exact steady_float
  | unary | await =>
    exact steady_current.bind fun _ => steady_advance.bind fun _ => (steady_expr _).bind fun _ =>
      mirrors_pure rfl
  | grouping => exact steady_grouping
  | array => exact steady_array
  | dict => exact steady_dict
  | spread => exact steady_spread
  | conditional => exact .need fun e => .done e
  | whileLoop => exact steady_whileLoop
  | forLoop => exact steady_forLoop
  | repeatLoop => exact steady_repeatLoop
  | switch => exact steady_switch
  | matching => exact steady_matching
  | function => exact steady_function
  | asyncFunction => exact steady_asyncFunction
  | channel => exact steady_channel
  | importing => exact steady_importing
  | package => exact steady_package
  | step => exact steady_trailing
  | pattern => exact steady_pattern
  | arrayPattern => exact steady_arrayPattern

/-- No rule for statements looks at lines. -/
theorem StatementRule.plan_steady (rule : StatementRule) : rule.plan.Steady := by
  cases rule with
  | declaration => exact steady_declaration
  | returning => exact steady_returning
  | breaking | continuing =>
    exact steady_current.bind fun _ => steady_skipSemicolon.bind fun _ => mirrors_pure rfl
  | including => exact steady_including
  | block => exact steady_block.bind fun _ => mirrors_pure rfl
  | enumeration => exact steady_enumeration
  | go => exact steady_current.bind fun _ => steady_operand.bind fun _ => mirrors_pure rfl
  | error => exact steady_errorStatement
  | declarative => exact steady_declarative
  | expression => exact steady_expressionStatement
  | any => exact .need fun statement => .done statement

namespace Grammar

variable (grammar : Grammar)

/-- An expression does not depend on lines. -/
theorem expression_steady (power : Power) : (grammar.expression power).Steady := by
  refine steady_window.bind fun w => ?_
  rw [Window.kind_flat]
  cases grammar.trailingRule w.current.kind with
  | some rule => exact rule.plan_steady
  | none =>
    cases grammar.leading w.current.kind with
    | none => exact .fail _
    | some rule => exact rule.plan_steady.bind fun left => .need fun e => .done e

/-- The rest of a flat expression mirrors the rest of the expression itself. -/
theorem links_mirrors (power : Power) (left : Expr) :
    (grammar.links power left).Mirrors flat (grammar.links power (flat left)) := by
  refine steady_window.bind fun w => mirrors_ite ?_ (mirrors_pure rfl)
  refine steady_advance.bind fun _ => steady_current.bind fun operator => ?_
  rw [Token.kind_flat]
  cases grammar.linking operator.kind with
  | none => exact .fail _
  | some rule => exact (rule.plan_mirrors left _).bind fun whole => .need fun e => .done e

/-- A statement does not depend on lines. -/
theorem statementBody_steady : grammar.statementBody.Steady := by
  refine steady_window.bind fun w => ?_
  rw [Window.kind_flat]
  cases grammar.statement w.current.kind with
  | some rule => exact rule.plan_steady
  | none => exact steady_expressionStatement

/-- The plan for a goal is mirrored by the plan for the flat goal, in every grammar. -/
theorem body_mirrors (goal : Goal) :
    (grammar.body goal).Mirrors goal.flatAnswer (grammar.body goal.flat) := by
  cases goal with
  | expr power => exact grammar.expression_steady power
  | links power left => exact grammar.links_mirrors power left
  | list close => exact steady_listBody close
  | listTail close => exact steady_listTail close
  | pairs =>
    exact mirrors_untilBrace _ rfl (fun _ _ => rfl) steady_pair (.need fun pairs => .done pairs)
  | conditional => exact steady_conditionalBody
  | clauses =>
    exact mirrors_untilBrace _ rfl (fun _ _ => rfl) steady_clause (.need fun cases => .done cases)
  | caseValues => exact steady_caseValues
  | matchCases =>
    exact mirrors_untilBrace _ rfl (fun _ _ => rfl) steady_matchCase
      (.need fun cases => .done cases)
  | pattern => exact steady_patternBody
  | patternItems restSeen => exact steady_patternItems restSeen
  | parameters defaultSeen => exact steady_parameters defaultSeen
  | names => exact steady_names
  | members =>
    exact mirrors_untilBrace _ rfl (fun _ _ => rfl) steady_enumMember (.need fun all => .done all)
  | stmt => exact grammar.statementBody_steady
  | statements => exact steady_statements

end Grammar

end ScriptFront
