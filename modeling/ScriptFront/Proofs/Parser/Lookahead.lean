import ScriptFront.Proofs.Parser.StoppingTokens

/-!
# What a plan looks at

A semicolon that was taken ends a statement, and no plan looks over it: what comes next makes no
difference until the next statement is asked for. And only an operator that applies to the token
before it looks back.

* `lookahead` — the contract that says so. The goals that end a statement may leave the parser on a
  semicolon; all others are found only off one.
* `Parser.OffSemicolon` — no semicolon is at hand.
* `Rule.Leads` — from states with one property, a plan that keeps to the contract leads to states
  with another; one lemma for each way of putting plans together.
* `lookahead_kept` — every goal keeps to the contract.
-/

namespace ScriptFront

/-- No semicolon is at hand. -/
def Parser.OffSemicolon (p : Parser) : Prop :=
  p.kind ≠ .semicolon

open ScriptFront.Parser

/-! ## The contract -/

/-- Where a goal may be asked for: a part that begins on the token at hand anywhere, and what is
left of a part that has begun only off a semicolon. -/
def Goal.Enters : Goal → Parser → Prop
  | .expr _, _ | .pattern, _ | .stmt, _ | .statements, _ => True
  | .list close, p => close ≠ .semicolon ∧ p.OffSemicolon
  | _, p => p.OffSemicolon

/-- Where a goal that was found leaves the parser. -/
def Goal.Leaves : Goal → Parser → Prop
  | .stmt, _ => True
  | .pairs, q | .clauses, q | .matchCases, q | .members, q =>
    q.OffSemicolon ∧ q.window.peek.kind = .closeCurly
  | _, q => q.OffSemicolon

/-- A plan sees the token at hand. It sees the next one unless a semicolon is at hand, and the one
before if an operator is at hand that applies to it. -/
def lookahead : Contract where
  free _ := True
  alike p w :=
    w.current = p.window.current ∧ (p.OffSemicolon → w.peek = p.window.peek) ∧
      (Grammar.standard.trailing p.kind = true → w.previous = p.window.previous)
  asked goal p := goal.Enters p
  found goal _ _ q := goal.Leaves q
  absent _ _ _ := True

namespace Rule

variable {α β : Type} {before middle after : Parser → Prop} {p : Parser}

/-- The plan keeps to the contract, and leads from states with the one property to states with the
other. -/
def Leads (before after : Parser → Prop) (rule : Rule α) : Prop :=
  ∀ p, before p → rule.Ensures lookahead (fun _ q => after q) (fun _ => True) p

/-! ## Putting plans together -/

/-- Two plans one after the other lead on, if the second starts where the first leads. -/
theorem Leads.bind {rule : Rule α} {f : α → Rule β} (h : rule.Leads before middle)
    (hf : ∀ value, (f value).Leads middle after) : (rule >>= f).Leads before after :=
  fun p hp => Ensures.bind ((h p hp).imp (fun value q hq => hf value q hq) fun _ hq => hq)

/-- More may be asked of the states before, and less of those after. -/
theorem Leads.imp {before' after' : Parser → Prop} {rule : Rule α} (h : rule.Leads before after)
    (hbefore : ∀ p, before' p → before p) (hafter : ∀ q, after q → after' q) :
    rule.Leads before' after' :=
  fun p hp => (h p (hbefore p hp)).imp (fun _ q hq => hafter q hq) fun _ hq => hq

/-- A plan that starts on a given token which is no semicolon. -/
theorem Leads.on {rule : Rule α} {token : Token} (h : rule.Leads OffSemicolon after)
    (hkind : token.kind ≠ .semicolon) :
    rule.Leads (fun p => before p ∧ p.window.current = token) after :=
  h.imp (fun p hp => by rwa [OffSemicolon, kind, hp.2]) fun _ hq => hq

/-- Nothing needs to be said about where a plan ends that ends a statement. -/
theorem Leads.anywhere {rule : Rule α} (h : rule.Leads before after) :
    rule.Leads before fun _ => True :=
  h.imp (fun _ hp => hp) fun _ _ => trivial

/-- A plan that is done leads nowhere else. -/
theorem leads_pure (value : α) : (pure value : Rule α).Leads before before :=
  fun _ hp => hp

/-- A plan that fails leads anywhere. -/
theorem leads_fail (cause : Cause) : (fail cause : Rule α).Leads before after :=
  fun _ _ => trivial

/-- A choice leads where both plans lead. -/
theorem leads_ite {condition : Prop} [Decidable condition] {yes no : Rule α}
    (hyes : yes.Leads before after) (hno : no.Leads before after) :
    (if condition then yes else no).Leads before after := by
  split
  · exact hyes
  · exact hno

/-- A plan may look at the token at hand in any state. -/
theorem leads_current : current.Leads before before :=
  fun _ hp => ⟨fun _ hw => congrArg done hw.1, hp⟩

/-- Off a semicolon, a plan that does not look back sees the whole window. -/
theorem ensures_offSemicolon {next : Window → Rule α} {found : α → Parser → Prop}
    (hp : p.OffSemicolon)
    (hprevious : ∀ w token, next { w with previous := token } = next w)
    (h : (next p.window).Ensures lookahead found (fun _ => True) p) :
    (window >>= next).Ensures lookahead found (fun _ => True) p := by
  refine ⟨fun w hw => ?_, h⟩
  obtain ⟨hcurrent, hpeek, -⟩ := hw
  have hsame : { w with previous := p.window.previous } = p.window := by
    rw [hcurrent, hpeek hp]
  change next w = next p.window
  rw [← hprevious w p.window.previous, hsame]

/-- A plan that tells from the token at hand how to go on may look at the window anywhere. -/
theorem leads_window {next : Window → Rule α}
    (hnext : ∀ w w' : Window, w.current = w'.current → next w = next w')
    (h : ∀ w, (next w).Leads (fun p => before p ∧ p.window.current = w.current) after) :
    (window >>= next).Leads before after :=
  fun p hp => ⟨fun w hw => hnext w p.window hw.1, h p.window p ⟨hp, rfl⟩⟩

/-- Off a semicolon, a plan may look at the next token. -/
theorem leads_peekIs (kind : Kind) : (peekIs kind).Leads OffSemicolon OffSemicolon :=
  fun _ hp => ⟨fun _ hw => by dsimp only; rw [hw.2.1 hp], hp⟩

/-- A shift may lead anywhere, onto a semicolon too. -/
theorem leads_advance : advance.Leads before fun _ => True :=
  fun _ _ => ⟨trivial, trivial⟩

/-- A step onto the next token if it is of a kind other than a semicolon, and otherwise something
else. -/
theorem leads_ifPeek {kind : Kind} {next : Unit → Rule α} {other : Rule α}
    (hkind : kind ≠ .semicolon) (hnext : (next ()).Leads OffSemicolon after)
    (hother : other.Leads OffSemicolon after) :
    (peekIs kind >>= fun is => if is = true then advance >>= next else other).Leads
      OffSemicolon after := by
  intro p hp
  refine ⟨fun w hw => by dsimp only; rw [hw.2.1 hp], ?_⟩
  change Ensures lookahead _ _ (if decide _ = true then _ else _) p
  split
  · next hpeek =>
    have hnew : p.advance.kind = kind := of_decide_eq_true hpeek
    exact ⟨trivial, hnext p.advance (by rwa [OffSemicolon, hnew])⟩
  · exact hother p hp

/-- A step onto a token that is no semicolon leads off semicolons. -/
theorem leads_expect {kind : Kind} (hkind : kind ≠ .semicolon) :
    (expect kind).Leads OffSemicolon OffSemicolon := by
  intro p hp
  refine ensures_offSemicolon hp (fun _ _ => rfl) ?_
  split
  · next hpeek =>
    have hnew : p.advance.kind = kind := hpeek
    exact ⟨trivial, by rwa [Ensures, OffSemicolon, hnew]⟩
  · trivial

/-- A step onto a name leads off semicolons. -/
theorem leads_expectIdentifier : expectIdentifier.Leads OffSemicolon OffSemicolon :=
  (leads_expect (by decide)).bind fun _ => leads_current.bind fun _ => leads_pure _

/-- A semicolon that may be taken is looked for off a semicolon. -/
theorem leads_skipSemicolon : skipSemicolon.Leads OffSemicolon fun _ => True :=
  (leads_peekIs _).bind fun _ =>
    leads_ite leads_advance (leads_pure _).anywhere

/-! ## Goals -/

/-- What is left of a part is asked for off a semicolon. -/
theorem leads_need {goal : Goal} {next : goal.Answer → Rule α}
    (henters : goal.Enters = OffSemicolon)
    (h : ∀ answer, (next answer).Leads goal.Leaves after) :
    (need goal next).Leads OffSemicolon after :=
  fun p hp => ⟨(congrFun henters p).mpr hp, fun answer q _ hq => h answer q hq, fun _ _ _ =>
    trivial⟩

/-- An expression that was found ends off a semicolon. -/
theorem leads_expr (power : Power) : (expr power).Leads before OffSemicolon :=
  fun _ _ => ⟨trivial, fun _ _ _ hq => hq, fun _ _ _ => trivial⟩

/-- A pattern that was found ends off a semicolon. -/
theorem leads_pattern : pattern.Leads before OffSemicolon :=
  fun _ _ => ⟨trivial, fun _ _ _ hq => hq, fun _ _ _ => trivial⟩

/-- An expression that starts on the next token ends off a semicolon. -/
theorem leads_nextExpr : nextExpr.Leads before OffSemicolon :=
  leads_advance.bind fun _ => leads_expr _

/-- A list is asked for off a semicolon and ends off one, as its closing bracket is none. -/
theorem leads_list {close : Kind} (hclose : close ≠ .semicolon) :
    (list close).Leads OffSemicolon OffSemicolon :=
  fun _ hp => ⟨⟨hclose, hp⟩, fun _ _ _ hq => hq, fun _ _ _ => trivial⟩

/-- A block that was found ends off a semicolon. -/
theorem leads_block : block.Leads before OffSemicolon :=
  leads_current.bind fun _ => leads_advance.bind fun _ =>
    fun _ _ => ⟨trivial, fun _ _ _ hq => hq, fun _ _ _ => trivial⟩

/-- A block on the next token ends off a semicolon. -/
theorem leads_body : body.Leads OffSemicolon OffSemicolon :=
  (leads_expect (by decide)).bind fun _ => leads_block

/-- Behind the last member of something in braces, the closing brace is taken. -/
theorem leads_brace {next : Unit → Rule α} (h : (next ()).Leads OffSemicolon after) :
    (advance >>= next).Leads
      (fun p => p.OffSemicolon ∧ p.window.peek.kind = .closeCurly) after := by
  rintro p ⟨-, hpeek⟩
  have hnew : p.advance.kind = .closeCurly := hpeek
  exact ⟨trivial, h p.advance (by rw [OffSemicolon, hnew]; decide)⟩

/-! ## Operands -/

/-- An integer literal stays off semicolons. -/
theorem leads_integer : integer.Leads OffSemicolon OffSemicolon := by
  refine leads_current.bind fun token => ?_
  split
  · exact leads_pure _
  · exact leads_fail _

/-- A literal with a fraction stays off semicolons. -/
theorem leads_float : float.Leads OffSemicolon OffSemicolon := by
  refine leads_current.bind fun token => ?_
  split
  · exact leads_pure _
  · exact leads_fail _

/-- A spread stays off semicolons. -/
theorem leads_spread : spread.Leads OffSemicolon OffSemicolon :=
  leads_current.bind fun _ => leads_expectIdentifier.bind fun _ => leads_pure _

/-- Parentheses end off a semicolon. -/
theorem leads_grouping : grouping.Leads before OffSemicolon :=
  leads_nextExpr.bind fun _ => (leads_expect (by decide)).bind fun _ => leads_pure _

/-- The rest of a list stays off semicolons. -/
theorem leads_listTail (close : Kind) : (listTail close).Leads OffSemicolon OffSemicolon := by
  refine leads_ifPeek (by decide) ((leads_peekIs close).bind fun _ => ?_) (leads_pure _)
  refine leads_ite (leads_pure _) (leads_nextExpr.bind fun first => ?_)
  exact leads_need rfl fun _ => leads_pure _

/-- A list stays off semicolons, as its closing bracket is none. -/
theorem leads_listBody {close : Kind} (hclose : close ≠ .semicolon) :
    (listBody close).Leads OffSemicolon OffSemicolon := by
  refine leads_ifPeek hclose (leads_pure _) (leads_nextExpr.bind fun first => ?_)
  refine leads_need rfl fun rest => ?_
  exact (leads_expect hclose).bind fun _ => leads_pure _

/-- An array stays off semicolons. -/
theorem leads_array : array.Leads OffSemicolon OffSemicolon :=
  leads_current.bind fun _ => (leads_list (by decide)).bind fun _ => leads_pure _

/-- The comma after a member stays off semicolons. -/
theorem leads_memberComma : memberComma.Leads OffSemicolon OffSemicolon :=
  (leads_peekIs _).bind fun _ => leads_ite (leads_pure _) (leads_expect (by decide))

/-- A pair of a dict stays off semicolons. -/
theorem leads_pair : pair.Leads OffSemicolon OffSemicolon :=
  leads_nextExpr.bind fun _ => (leads_expect (by decide)).bind fun _ =>
    leads_nextExpr.bind fun _ => leads_memberComma.bind fun _ => leads_pure _

/-- The remaining members of something in braces end before the closing brace. -/
theorem leads_untilBrace (construct : String) {goal : Goal} {member : Rule α}
    {more : goal.Answer → List α} (hmember : member.Leads OffSemicolon OffSemicolon)
    (henters : goal.Enters = OffSemicolon)
    (hleaves : goal.Leaves = fun q => q.OffSemicolon ∧ q.window.peek.kind = .closeCurly) :
    (untilBrace construct member (need goal fun answer => done (more answer))).Leads OffSemicolon
      fun q => q.OffSemicolon ∧ q.window.peek.kind = .closeCurly := by
  intro p hp
  refine ensures_offSemicolon hp (fun _ _ => rfl) ?_
  split
  · next hpeek => exact ⟨hp, hpeek⟩
  · split
    · trivial
    · refine hmember.bind (fun first => ?_) p hp
      rw [← hleaves]
      exact (leads_need henters fun _ => leads_pure _).bind fun _ => leads_pure _

/-- A dict stays off semicolons. -/
theorem leads_dict : dict.Leads OffSemicolon OffSemicolon :=
  leads_current.bind fun _ => leads_need rfl fun _ => leads_brace (leads_pure _)

/-! ## Operators -/

/-- An assignment stays off semicolons. -/
theorem leads_assignment (left : Expr) : (assignment left).Leads OffSemicolon OffSemicolon := by
  refine leads_current.bind fun token => ?_
  split
  · exact leads_nextExpr.bind fun _ => leads_pure _
  · exact leads_fail _

/-- The rest of a slice stays off semicolons. -/
theorem leads_sliceStop (token : Token) (left : Expr) (start : Option Expr) :
    (sliceStop token left start).Leads OffSemicolon OffSemicolon :=
  leads_ifPeek (by decide) (leads_pure _) <|
    leads_nextExpr.bind fun _ => (leads_expect (by decide)).bind fun _ => leads_pure _

/-- An index or a slice stays off semicolons. -/
theorem leads_index (left : Expr) : (index left).Leads OffSemicolon OffSemicolon := by
  refine leads_current.bind fun token => leads_ifPeek (by decide) (leads_sliceStop _ _ _) ?_
  refine leads_nextExpr.bind fun first => leads_ifPeek (by decide) (leads_sliceStop _ _ _) ?_
  exact (leads_expect (by decide)).bind fun _ => leads_pure _

/-- A property or a method stays off semicolons. -/
theorem leads_member (left : Expr) : (member left).Leads OffSemicolon OffSemicolon := by
  refine leads_current.bind fun token => leads_expectIdentifier.bind fun name => ?_
  exact leads_ifPeek (by decide) ((leads_list (by decide)).bind fun _ => leads_pure _)
    (leads_pure _)

/-! ## Control flow -/

/-- A condition stays off semicolons. -/
theorem leads_condition : condition.Leads OffSemicolon OffSemicolon :=
  (leads_expect (by decide)).bind fun _ => leads_grouping

/-- What follows the consequence of a conditional stays off semicolons. -/
theorem leads_alternative : alternative.Leads OffSemicolon OffSemicolon := by
  refine leads_ifPeek (by decide) ?_ (leads_pure _)
  refine leads_ifPeek (by decide) (leads_need rfl fun _ => leads_pure _) ?_
  exact leads_body.bind fun _ => leads_pure _

/-- A conditional stays off semicolons. -/
theorem leads_conditionalBody : conditionalBody.Leads OffSemicolon OffSemicolon :=
  leads_current.bind fun _ => leads_condition.bind fun _ => leads_body.bind fun _ =>
    leads_alternative.bind fun _ => leads_pure _

/-- A `while` loop stays off semicolons. -/
theorem leads_whileLoop : whileLoop.Leads OffSemicolon OffSemicolon :=
  leads_current.bind fun _ => leads_condition.bind fun _ => leads_body.bind fun _ => leads_pure _

/-- The names of a `for` loop stay off semicolons. -/
theorem leads_loopNames : loopNames.Leads OffSemicolon OffSemicolon :=
  leads_expectIdentifier.bind fun _ =>
    leads_ifPeek (by decide) (leads_expectIdentifier.bind fun _ => leads_pure _) (leads_pure _)

/-- A `for` loop stays off semicolons. -/
theorem leads_forLoop : forLoop.Leads OffSemicolon OffSemicolon :=
  leads_current.bind fun _ => leads_loopNames.bind fun _ => (leads_expect (by decide)).bind fun _ =>
    leads_nextExpr.bind fun _ => leads_body.bind fun _ => leads_pure _

/-- The name of the round in a `repeat` loop stays off semicolons. -/
theorem leads_loopCounter : loopCounter.Leads OffSemicolon OffSemicolon := by
  refine leads_ifPeek (by decide) ?_ (leads_pure _)
  exact leads_expectIdentifier.bind fun _ => (leads_expect (by decide)).bind fun _ => leads_pure _

/-- A `repeat` loop stays off semicolons. -/
theorem leads_repeatLoop : repeatLoop.Leads OffSemicolon OffSemicolon :=
  leads_current.bind fun _ => leads_loopCounter.bind fun _ => leads_nextExpr.bind fun _ =>
    leads_body.bind fun _ => leads_pure _

/-! ## Switch and match -/

/-- The other values of a clause stay off semicolons. -/
theorem leads_caseValues : caseValues.Leads OffSemicolon OffSemicolon := by
  refine leads_ifPeek (by decide) (leads_nextExpr.bind fun _ => ?_) (leads_pure _)
  exact leads_need rfl fun _ => leads_pure _

/-- The selection of a clause is told from the token at hand and ends off a semicolon. -/
theorem leads_selection : selection.Leads before OffSemicolon := by
  refine leads_window (fun w w' hw => by rw [hw]) fun w => ?_
  split
  · next hdefault => exact (leads_pure _).on (by rw [hdefault]; decide)
  · refine leads_ite (leads_advance.bind fun _ => ?_) (leads_fail _)
    refine leads_window (fun w w' hw => by rw [hw]) fun w => ?_
    split
    · next hdefault => exact (leads_pure _).on (by rw [hdefault]; decide)
    · exact (leads_expr _).bind fun _ => leads_need rfl fun _ => leads_pure _

/-- A clause ends off a semicolon, wherever it is asked for. -/
theorem leads_clause : clause.Leads before OffSemicolon :=
  leads_advance.bind fun _ => leads_current.bind fun _ => leads_selection.bind fun _ =>
    leads_body.bind fun _ => leads_pure _

/-- A switch stays off semicolons. -/
theorem leads_switch : switch.Leads OffSemicolon OffSemicolon := by
  refine leads_current.bind fun token => leads_condition.bind fun subject => ?_
  refine (leads_expect (by decide)).bind fun _ => leads_need rfl fun clauses => leads_brace ?_
  exact leads_ite (leads_fail _) (leads_pure _)

/-- The condition behind a pattern stays off semicolons. -/
theorem leads_guard : guard.Leads OffSemicolon OffSemicolon :=
  leads_ifPeek (by decide) (leads_nextExpr.bind fun _ => leads_pure _) (leads_pure _)

/-- What a case does stays off semicolons. -/
theorem leads_caseBody : caseBody.Leads OffSemicolon OffSemicolon :=
  leads_ifPeek (by decide) leads_block (leads_nextExpr.bind fun _ => leads_pure _)

/-- A case ends off a semicolon, wherever it is asked for. -/
theorem leads_matchCase : matchCase.Leads before OffSemicolon := by
  refine leads_advance.bind fun _ => leads_current.bind fun token => leads_pattern.bind fun _ => ?_
  refine leads_guard.bind fun guard => (leads_expect (by decide)).bind fun _ => ?_
  refine leads_caseBody.bind fun body => ?_
  exact leads_ifPeek (by decide) (leads_pure _) (leads_pure _)

/-- A match stays off semicolons. -/
theorem leads_matching : matching.Leads OffSemicolon OffSemicolon := by
  refine leads_current.bind fun token => leads_nextExpr.bind fun subject => ?_
  exact (leads_expect (by decide)).bind fun _ => leads_need rfl fun _ => leads_brace (leads_pure _)

/-! ## Patterns -/

/-- The items behind a comma stay off semicolons. -/
theorem leads_patternTail (restSeen : Bool) :
    (patternTail restSeen).Leads OffSemicolon OffSemicolon :=
  leads_ifPeek (by decide) (leads_need rfl fun _ => leads_pure _) (leads_pure _)

/-- The items of an array pattern stay off semicolons. -/
theorem leads_patternItems (restSeen : Bool) :
    (patternItems restSeen).Leads OffSemicolon OffSemicolon := by
  refine leads_advance.bind fun _ p _ => ?_
  by_cases hrest : p.window.current.kind = .ellipsis
  · -- only on an ellipsis is the next token looked at
    have hp : p.OffSemicolon := by
      rw [OffSemicolon, kind, hrest]
      decide
    refine ensures_offSemicolon hp (fun _ _ => rfl) ?_
    rw [if_pos hrest]
    split
    · trivial
    · split
      · next hpeek =>
        have hnew : p.advance.kind = .identifier := hpeek
        refine ⟨trivial, ?_⟩
        refine leads_current.bind (fun _ => (leads_patternTail _).bind fun _ => leads_pure _)
          p.advance ?_
        rw [OffSemicolon, hnew]
        decide
      · trivial
  · refine ⟨fun w hw => ?_, ?_⟩
    · dsimp only [Rule.bind]
      rw [hw.1, if_neg hrest, if_neg hrest]
    · dsimp only [Rule.bind]
      rw [if_neg hrest]
      refine (leads_ite (leads_fail _) ?_ : Leads (fun _ => True) OffSemicolon _) p trivial
      exact leads_pattern.bind fun _ => (leads_patternTail _).bind fun _ => leads_pure _

/-- An array pattern stays off semicolons. -/
theorem leads_arrayPattern : arrayPattern.Leads OffSemicolon OffSemicolon := by
  refine leads_current.bind fun token => leads_ifPeek (by decide) (leads_pure _) ?_
  refine leads_need rfl fun items => ?_
  exact (leads_expect (by decide)).bind fun _ => leads_pure _

/-- The pattern of a case is told from its first token and ends off a semicolon. -/
theorem leads_patternBody : patternBody.Leads (fun _ => True) OffSemicolon := by
  refine leads_window (fun w w' hw => by rw [hw]) fun w => ?_
  split
  · next hbracket => exact leads_arrayPattern.on (by rw [hbracket]; decide)
  · split
    · next hcurly => exact leads_dict.on (by rw [hcurly]; decide)
    · exact leads_expr _

/-! ## Declarations -/

/-- The parameters behind a comma stay off semicolons. -/
theorem leads_parameterTail (defaultSeen : Bool) :
    (parameterTail defaultSeen).Leads OffSemicolon OffSemicolon :=
  leads_ifPeek (by decide) (leads_need rfl fun _ => leads_pure _) (leads_pure _)

/-- The parameters of a function stay off semicolons. -/
theorem leads_parameters (defaultSeen : Bool) :
    (parameters defaultSeen).Leads OffSemicolon OffSemicolon := by
  refine leads_expectIdentifier.bind fun id => leads_ifPeek (by decide) ?_ ?_
  · exact leads_nextExpr.bind fun _ => (leads_parameterTail _).bind fun _ => leads_pure _
  · exact leads_ite (leads_fail _) ((leads_parameterTail _).bind fun _ => leads_pure _)

/-- A parameter list stays off semicolons. -/
theorem leads_parameterList : parameterList.Leads OffSemicolon OffSemicolon := by
  refine leads_ifPeek (by decide) (leads_pure _) ?_
  refine leads_need rfl fun parameters => ?_
  exact (leads_expect (by decide)).bind fun _ => leads_pure _

/-- A name that may be missing stays off semicolons. -/
theorem leads_optionalName : optionalName.Leads OffSemicolon OffSemicolon :=
  leads_ifPeek (by decide) (leads_current.bind fun _ => leads_pure _) (leads_pure _)

/-- A function stays off semicolons. -/
theorem leads_functionFrom (async : Bool) (token : Token) :
    (functionFrom async token).Leads OffSemicolon OffSemicolon :=
  leads_optionalName.bind fun _ => (leads_expect (by decide)).bind fun _ =>
    leads_parameterList.bind fun _ => leads_body.bind fun _ => leads_pure _

/-- A channel stays off semicolons. -/
theorem leads_channel : channel.Leads OffSemicolon OffSemicolon :=
  leads_current.bind fun _ =>
    leads_ifPeek (by decide) (leads_grouping.bind fun _ => leads_pure _) (leads_pure _)

/-- The names of an import stay off semicolons. -/
theorem leads_names : names.Leads OffSemicolon OffSemicolon :=
  leads_expectIdentifier.bind fun _ =>
    leads_ifPeek (by decide) (leads_need rfl fun _ => leads_pure _) (leads_pure _)

/-- A package stays off semicolons. -/
theorem leads_package : package.Leads OffSemicolon OffSemicolon :=
  leads_current.bind fun _ => leads_expectIdentifier.bind fun _ => leads_body.bind fun _ =>
    leads_pure _

/-! ## Statements -/

/-- An expression and its semicolon may be asked for anywhere. -/
theorem leads_operand : operand.Leads before fun _ => True :=
  leads_nextExpr.bind fun _ => leads_skipSemicolon.bind fun _ => leads_pure _

/-- An expression that stands alone may be asked for anywhere. -/
theorem leads_expressionStatement : expressionStatement.Leads before fun _ => True :=
  leads_current.bind fun _ => (leads_expr _).bind fun _ => leads_skipSemicolon.bind fun _ =>
    leads_pure _

/-- A declaration starts off a semicolon and may end on one. -/
theorem leads_declaration : declaration.Leads OffSemicolon fun _ => True := by
  intro p hp
  refine ensures_offSemicolon hp (fun _ _ => rfl) ?_
  refine leads_ite (leads_expectIdentifier.bind fun name => ?_) (leads_fail _) p hp
  exact (leads_expect (by decide)).bind fun _ => leads_operand.bind fun _ => leads_pure _

/-- A `return` starts off a semicolon and may end on one. -/
theorem leads_returning : returning.Leads OffSemicolon fun _ => True := by
  intro p hp
  refine ensures_offSemicolon hp (fun _ _ => rfl) ?_
  refine leads_ite (leads_advance.bind fun _ => leads_pure _) (leads_ite ?_ ?_) p hp
  · exact (leads_pure _).anywhere
  · exact leads_operand.bind fun _ => leads_pure _

/-- An `include` starts off a semicolon and may end on one. -/
theorem leads_including : including.Leads OffSemicolon fun _ => True :=
  leads_current.bind fun _ => (leads_expect (by decide)).bind fun _ => leads_current.bind fun _ =>
    leads_skipSemicolon.bind fun _ => leads_pure _

/-- A member of an enumeration stays off semicolons. -/
theorem leads_enumMember : enumMember.Leads OffSemicolon OffSemicolon :=
  leads_expectIdentifier.bind fun _ => (leads_expect (by decide)).bind fun _ =>
    leads_nextExpr.bind fun _ => leads_memberComma.bind fun _ => leads_pure _

/-- An enumeration stays off semicolons. -/
theorem leads_enumeration : enumeration.Leads OffSemicolon OffSemicolon := by
  refine leads_current.bind fun token => leads_expectIdentifier.bind fun name => ?_
  exact (leads_expect (by decide)).bind fun _ => leads_need rfl fun _ => leads_brace (leads_pure _)

/-- A word that takes one expression is told from the token at hand. -/
theorem leads_declarative : declarative.Leads before fun _ => True := by
  refine leads_current.bind fun token => ?_
  split
  · exact leads_operand.bind fun _ => leads_pure _
  · exact leads_fail _

/-- The statements of a block end off a semicolon, in front of the brace. -/
theorem leads_statements : statements.Leads (fun _ => True) OffSemicolon := by
  refine leads_window (fun w w' hw => by rw [hw]) fun w => ?_
  split
  · next hclose => exact (leads_pure _).on (by rw [hclose]; decide)
  · refine leads_ite (leads_fail _) fun p _ => ?_
    refine ⟨trivial, trivial, fun first q _ _ => ?_, fun q _ _ => ?_⟩
    · exact ⟨trivial, trivial, fun rest r _ hr => hr, fun _ _ _ => trivial⟩
    · exact ⟨trivial, fun _ _ _ => trivial, fun _ _ => trivial⟩

end Rule

open Rule

variable {before : Parser → Prop}

/-! ## The tables -/

/-- Whatever an expression goes on with, it stays off semicolons. -/
theorem LinkingRule.plan_leads (rule : LinkingRule) (left : Expr) (power : Power) :
    (rule.plan left power).Leads OffSemicolon OffSemicolon := by
  cases rule with
  | assignment => exact leads_assignment left
  | binary | range =>
    exact leads_current.bind fun _ => leads_advance.bind fun _ => (leads_expr _).bind fun _ =>
      leads_pure _
  | call => exact leads_current.bind fun _ => (leads_list (by decide)).bind fun _ => leads_pure _
  | index => exact leads_index left
  | member => exact leads_member left

/-- Every rule for the first token of an expression stays off semicolons. -/
theorem ExpressionRule.plan_leads {rule : ExpressionRule} (hrule : rule.isLeading = true) :
    rule.plan.Leads OffSemicolon OffSemicolon := by
  cases rule with
  | step | pattern | arrayPattern => cases hrule
  | name | string | boolean | null | receiver => exact leads_current.bind fun _ => leads_pure _
  | integer => exact leads_integer
  | float => exact leads_float
  | unary | await =>
    exact leads_current.bind fun _ => leads_advance.bind fun _ => (leads_expr _).bind fun _ =>
      leads_pure _
  | grouping => exact leads_grouping
  | array => exact leads_array
  | dict => exact leads_dict
  | spread => exact leads_spread
  | conditional => exact leads_need rfl fun _ => leads_pure _
  | whileLoop => exact leads_whileLoop
  | forLoop => exact leads_forLoop
  | repeatLoop => exact leads_repeatLoop
  | switch => exact leads_switch
  | matching => exact leads_matching
  | function => exact leads_current.bind fun _ => leads_functionFrom _ _
  | asyncFunction =>
    exact leads_current.bind fun _ => (leads_expect (by decide)).bind fun _ =>
      leads_functionFrom _ _
  | channel => exact leads_channel
  | importing => exact leads_current.bind fun _ => leads_need rfl fun _ => leads_pure _
  | package => exact leads_package

/-- Every rule for the first token of a statement starts off a semicolon. -/
theorem StatementRule.plan_leads {rule : StatementRule} (hrule : rule.isLeading = true) :
    rule.plan.Leads OffSemicolon fun _ => True := by
  cases rule with
  | expression | any => cases hrule
  | declaration => exact leads_declaration
  | returning => exact leads_returning
  | breaking | continuing =>
    exact leads_current.bind fun _ => leads_skipSemicolon.bind fun _ => leads_pure _
  | including => exact leads_including
  | block => exact (leads_block.bind fun _ => leads_pure _).anywhere
  | enumeration => exact leads_enumeration.anywhere
  | go | error =>
    exact leads_current.bind fun _ => leads_operand.bind fun _ => leads_pure _
  | declarative => exact leads_declarative

namespace Kind

variable {kind : Kind}

/-- No expression starts on a semicolon. -/
theorem ne_semicolon_of_leading {rule : ExpressionRule}
    (h : Grammar.standard.leading kind = some rule) : kind ≠ .semicolon := by
  rintro rfl
  cases h

/-- No statement has a rule of its own for a semicolon. -/
theorem ne_semicolon_of_statement {rule : StatementRule}
    (h : Grammar.standard.statement kind = some rule) : kind ≠ .semicolon := by
  rintro rfl
  cases h

/-- A semicolon is no operator that applies to the token before it. -/
theorem ne_semicolon_of_trailing (h : Grammar.standard.trailing kind = true) :
    kind ≠ .semicolon := by
  rintro rfl
  cases h

end Kind

/-- On an operator that applies to the token before it, a plan sees the whole window. -/
theorem leads_trailing {token : Token} (h : Grammar.standard.trailing token.kind = true) :
    Rule.trailing.Leads (fun p => before p ∧ p.window.current = token) OffSemicolon := by
  rintro p ⟨-, rfl⟩
  have hp : p.OffSemicolon := Kind.ne_semicolon_of_trailing h
  refine ⟨fun w hw => ?_, leads_ite (leads_pure _) (leads_fail _) p hp⟩
  obtain ⟨hcurrent, hpeek, hprevious⟩ := hw
  cases w
  cases hcurrent
  cases hpeek hp
  cases hprevious h
  rfl

/-- An expression ends off a semicolon, wherever it is asked for. -/
theorem leads_expression (power : Power) :
    (Grammar.standard.expression power).Leads (fun _ => True) OffSemicolon := by
  rw [Grammar.standard_expression]
  refine leads_window (fun w w' hw => by rw [hw]) fun w => ?_
  split
  · next htrailing => exact leads_trailing htrailing
  · split
    · exact leads_fail _
    · next rule hleading =>
      refine Leads.on ?_ (Kind.ne_semicolon_of_leading hleading)
      have hrule := Grammar.isLeading_of_standard hleading
      exact (ExpressionRule.plan_leads hrule).bind fun _ => leads_need rfl fun _ => leads_pure _

/-- The rest of an expression stays off semicolons. -/
theorem leads_links (power : Power) (left : Expr) :
    (Grammar.standard.links power left).Leads OffSemicolon OffSemicolon := by
  intro p hp
  refine ensures_offSemicolon hp (fun _ _ => rfl) ?_
  split
  · next hpeek =>
    refine ⟨trivial, ?_⟩
    have hnew : p.advance.OffSemicolon := hpeek.1
    refine leads_current.bind (fun operator => ?_) p.advance hnew
    split
    · exact leads_fail _
    · exact (LinkingRule.plan_leads _ _ _).bind fun _ => leads_need rfl fun _ => leads_pure _
  · exact hp

/-- A statement may be asked for anywhere, and may end anywhere. -/
theorem leads_statementBody :
    Grammar.standard.statementBody.Leads (fun _ => True) fun _ => True := by
  refine leads_window (fun w w' hw => by rw [hw]) fun w => ?_
  split
  · next rule hstatement =>
    have hrule := Grammar.isLeading_of_standardStatement hstatement
    exact (StatementRule.plan_leads hrule).on (Kind.ne_semicolon_of_statement hstatement)
  · exact leads_expressionStatement

/-- No goal looks over a semicolon, or back from a token other than an operator that applies to the
one before it. -/
theorem lookahead_kept : lookahead.Kept := by
  intro goal p _ hasked
  cases goal with
  | expr power => exact leads_expression power p trivial
  | links power left => exact leads_links power left p hasked
  | list close => exact leads_listBody hasked.1 p hasked.2
  | listTail close => exact leads_listTail close p hasked
  | pairs => exact leads_untilBrace _ leads_pair rfl rfl p hasked
  | conditional => exact leads_conditionalBody p hasked
  | clauses => exact leads_untilBrace _ leads_clause rfl rfl p hasked
  | caseValues => exact leads_caseValues p hasked
  | matchCases => exact leads_untilBrace _ leads_matchCase rfl rfl p hasked
  | pattern => exact leads_patternBody p trivial
  | patternItems restSeen => exact leads_patternItems restSeen p hasked
  | parameters defaultSeen => exact leads_parameters defaultSeen p hasked
  | names => exact leads_names p hasked
  | members => exact leads_untilBrace _ leads_enumMember rfl rfl p hasked
  | stmt => exact leads_statementBody p trivial
  | statements => exact leads_statements p trivial

end ScriptFront
