import ScriptFront.Proofs.Parser.Soundness

/-!
# Each rule builds well-formed trees

One lemma for each rule, in the order of the grammar's modules. A rule that takes a value, a name or
an operator from the token at hand needs to know the kind of that token; all others build
well-formed trees from every state.
-/

namespace ScriptFront.Rule

variable {α : Type} {known : Token → Prop} {p : Parser} {post : α → Prop}

/-! ## Operands -/

/-- A spread keeps a name that obeys the law. -/
theorem makes_spread : spread.Makes known fun e => e.Obeys (wellFormed known) .operand := by
  intro p hp
  refine builds_current ?_
  refine (makes_expectIdentifier p hp).bind fun name hname => ?_
  exact makes_pure ⟨trivial, hname⟩

/-- What stands in parentheses obeys the law. -/
theorem makes_grouping : grouping.Makes known fun e => e.Obeys (wellFormed known) .operand := by
  refine makes_nextExpr.bind fun inner hinner => ?_
  exact makes_expect (makes_pure hinner)

/-- The expressions after the first one of a list obey the law. -/
theorem makes_listTail (close : Kind) :
    (listTail close).Makes known (Expr.ObeysEach (wellFormed known) .operand) := by
  refine makes_ifNext ?_ (makes_pure trivial)
  intro p hp
  refine builds_ifPeek (fun _ => builds_pure hp trivial) ?_
  refine (makes_nextExpr p hp).bind fun first hfirst q hq => ?_
  exact builds_need hq trivial fun rest hrest => makes_pure ⟨hfirst, hrest⟩

/-- The expressions of a list obey the law. -/
theorem makes_listBody (close : Kind) :
    (listBody close).Makes known (Expr.ObeysEach (wellFormed known) .operand) := by
  refine makes_ifNext (makes_pure trivial) ?_
  refine makes_nextExpr.bind fun first hfirst p hp => ?_
  refine builds_need hp trivial fun rest hrest => ?_
  exact makes_expect (makes_pure ⟨hfirst, hrest⟩)

/-- An array of expressions that obey the law obeys it. -/
theorem makes_array : array.Makes known fun e => e.Obeys (wellFormed known) .operand := by
  intro p hp
  refine builds_current ?_
  exact (makes_list _ p hp).bind fun elements helements => makes_pure ⟨trivial, helements⟩

/-- The members that are left of something in braces have a property that no members have and each
member in front keeps up. -/
theorem makes_untilBrace {construct : String} {member : Rule α} {more : Rule (List α)}
    {all : List α → Prop} (hnil : all []) (hmember : member.Makes known post)
    (hmore : more.Makes known all)
    (hcons : ∀ first rest, post first → all rest → all (first :: rest)) :
    (untilBrace construct member more).Makes known all := by
  intro p hp
  refine builds_look ?_
  change Builds known (if _ then _ else if _ then _ else _) p all
  split_ifs
  · exact builds_pure hp hnil
  · exact builds_fail _
  · refine (hmember p hp).bind fun first hfirst => ?_
    exact hmore.bind fun rest hrest => makes_pure (hcons first rest hfirst hrest)

/-- The comma after a member may stand in between. -/
theorem makes_memberComma {next : Unit → Rule α} (h : (next ()).Makes known post) :
    (memberComma >>= next).Makes known post := by
  have hcomma : memberComma.Makes known fun _ => True := by
    intro p hp
    refine builds_ifPeek (fun _ => builds_pure hp trivial) ?_
    refine builds_look ?_
    change Builds known (if _ then _ else _) p _
    split
    · exact builds_advance (builds_pure hp.advance trivial)
    · exact builds_fail _
  exact hcomma.bind fun _ _ => h

/-- The key and the value of a pair obey the law. -/
theorem makes_pair : pair.Makes known fun entry =>
    entry.1.Obeys (wellFormed known) .operand ∧ entry.2.Obeys (wellFormed known) .operand := by
  refine makes_nextExpr.bind fun key hkey => makes_expect ?_
  refine makes_nextExpr.bind fun value hvalue => ?_
  exact makes_memberComma (makes_pure ⟨hkey, hvalue⟩)

/-- The pairs that are left of a dict obey the law. -/
theorem makes_pairs : pairs.Makes known (Expr.ObeysPairs (wellFormed known)) :=
  makes_untilBrace trivial makes_pair (makes_need .pairs trivial)
    fun _ _ hfirst hrest => ⟨hfirst.1, hfirst.2, hrest⟩

/-- A dict obeys the law, as an operand and as a pattern. -/
theorem makes_dict {site : Site} : dict.Makes known fun e => e.Obeys (wellFormed known) site := by
  intro p hp
  refine builds_current ?_
  refine builds_need hp trivial fun entries hentries q hq => ?_
  exact builds_advance (builds_pure hq.advance ⟨trivial, hentries⟩)

/-! ## Operators -/

/-- An operator in front of its operand is one of those that stand there. -/
theorem builds_unary (hp : p.Sees known)
    (hkind : Grammar.standard.leading p.window.current.kind = some .unary) :
    unary.Builds known p fun e => e.Obeys (wellFormed known) .operand := by
  have hknown := hp.current (by intro heof; rw [heof] at hkind; cases hkind)
  refine builds_current (builds_advance ?_)
  refine (makes_expr .unary _ hp.advance).bind fun right hright => ?_
  exact makes_pure ⟨⟨hknown, hkind, rfl⟩, hright⟩

/-- An `await` obeys the law, if its operand does. -/
theorem makes_await : await.Makes known fun e => e.Obeys (wellFormed known) .operand := by
  intro p hp
  refine builds_current (builds_advance ?_)
  exact (makes_expr .unary _ hp.advance).bind fun value hvalue => makes_pure ⟨trivial, hvalue⟩

/-- The operand of `x++` and `x--` is a known token, and the operator one of the two. -/
theorem builds_trailing (hp : p.Sees known)
    (hkind : Grammar.standard.trailing p.window.current.kind = true) :
    trailing.Builds known p fun e => e.Obeys (wellFormed known) .operand := by
  have hknown := hp.current (by intro heof; rw [heof] at hkind; cases hkind)
  refine builds_look ?_
  change Builds known (if _ then _ else _) p _
  split
  · next hprevious =>
    have hoperand := hp.previous (by rcases hprevious with h | h <;> simp [h])
    exact builds_pure hp ⟨hoperand, hprevious, p.window.current, hknown, hkind, rfl⟩
  · exact builds_fail _

variable {left : Expr}

/-- An operator between its operands is one of those that stand there. -/
theorem builds_binary (power : Power) (hp : p.Sees known)
    (hleft : left.Obeys (wellFormed known) .operand)
    (hkind : Grammar.standard.linking p.window.current.kind = some .binary) :
    (binary left power).Builds known p fun e => e.Obeys (wellFormed known) .operand := by
  have hknown := hp.current (by intro heof; rw [heof] at hkind; cases hkind)
  refine builds_current (builds_advance ?_)
  refine (makes_expr power _ hp.advance).bind fun right hright => ?_
  exact makes_pure ⟨⟨hknown, hkind, rfl⟩, hleft, hright⟩

/-- A range obeys the law, if its lower bound does. -/
theorem builds_range (power : Power) (hp : p.Sees known)
    (hleft : left.Obeys (wellFormed known) .operand)
    (hkind : Grammar.standard.linking p.window.current.kind = some .range) :
    (range left power).Builds known p fun e => e.Obeys (wellFormed known) .operand := by
  have hknown := hp.current (by intro heof; rw [heof] at hkind; cases hkind)
  refine builds_current (builds_advance ?_)
  refine (makes_expr power _ hp.advance).bind fun stop hstop => ?_
  exact makes_pure ⟨⟨hknown, hkind⟩, hleft, hstop⟩

/-- An operator that assigns, and is not the plain one, computes as well. -/
theorem isCompound_of_linking {kind : Kind}
    (hkind : Grammar.standard.linking kind = some .assignment) (hne : kind ≠ .assignment) :
    kind.isCompound = true := by
  revert hkind hne
  cases kind <;> decide

/-- The node of an assignment to a sound target obeys the law once it has its value. -/
theorem obeys_assignmentNode {token : Token} {node : Expr → Expr} (htoken : known token)
    (hkind : Grammar.standard.linking token.kind = some .assignment)
    (hleft : left.Obeys (wellFormed known) .operand)
    (hnode : assignmentNode? token left = some node) {value : Expr}
    (hvalue : value.Obeys (wellFormed known) .operand) :
    (node value).Obeys (wellFormed known) .operand := by
  unfold assignmentNode? at hnode
  split at hnode
  · next name =>
    split_ifs at hnode with hplain
    · cases hnode
      exact ⟨⟨htoken, hplain⟩, hleft.2, hvalue⟩
    · cases hnode
      exact ⟨⟨htoken, isCompound_of_linking hkind hplain, rfl⟩, hleft.2, hvalue⟩
  · next dot object property =>
    cases hnode
    exact ⟨⟨htoken, hkind, rfl⟩, hleft.2.1, hleft.2.2, hvalue⟩
  · next bracket object position =>
    cases hnode
    exact ⟨⟨htoken, hkind, rfl, bracket, object, position, rfl⟩, hleft, hvalue⟩
  · cases hnode

/-- An assignment is to a name, a property or an index, and its operator fits the target. -/
theorem builds_assignment (hp : p.Sees known) (hleft : left.Obeys (wellFormed known) .operand)
    (hkind : Grammar.standard.linking p.window.current.kind = some .assignment) :
    (assignment left).Builds known p fun e => e.Obeys (wellFormed known) .operand := by
  have hknown := hp.current (by intro heof; rw [heof] at hkind; cases hkind)
  refine builds_current ?_
  split
  · next node hnode =>
    refine (makes_nextExpr p hp).bind fun value hvalue => ?_
    exact makes_pure (obeys_assignmentNode hknown hkind hleft hnode hvalue)
  · exact builds_fail _

/-- A call of what obeys the law obeys it. -/
theorem makes_call (hleft : left.Obeys (wellFormed known) .operand) :
    (call left).Makes known fun e => e.Obeys (wellFormed known) .operand := by
  intro p hp
  refine builds_current ?_
  refine (makes_list _ p hp).bind fun arguments harguments => ?_
  exact makes_pure ⟨trivial, hleft, harguments⟩

/-- A slice of what obeys the law, from a start that does, obeys it. -/
theorem makes_sliceStop {token : Token} {start : Option Expr}
    (hleft : left.Obeys (wellFormed known) .operand)
    (hstart : Expr.Obeys? (wellFormed known) start) :
    (sliceStop token left start).Makes known fun e => e.Obeys (wellFormed known) .operand := by
  refine makes_ifNext (makes_pure ⟨trivial, hleft, hstart, trivial⟩) ?_
  refine makes_nextExpr.bind fun stop hstop => ?_
  exact makes_expect (makes_pure ⟨trivial, hleft, hstart, hstop⟩)

/-- An index or a slice of what obeys the law obeys it. -/
theorem makes_index (hleft : left.Obeys (wellFormed known) .operand) :
    (index left).Makes known fun e => e.Obeys (wellFormed known) .operand := by
  intro p hp
  refine builds_current ?_
  have hopen : Expr.Obeys? (wellFormed known) none := trivial
  refine makes_ifNext (makes_sliceStop hleft hopen) ?_ p hp
  refine makes_nextExpr.bind fun first hfirst => ?_
  refine makes_ifNext (makes_sliceStop hleft hfirst) ?_
  exact makes_expect (makes_pure ⟨trivial, hleft, hfirst⟩)

/-- A property or a method of what obeys the law obeys it. -/
theorem makes_member (hleft : left.Obeys (wellFormed known) .operand) :
    (member left).Makes known fun e => e.Obeys (wellFormed known) .operand := by
  intro p hp
  refine builds_current ?_
  refine (makes_expectIdentifier p hp).bind fun name hname => ?_
  refine makes_ifNext ?_ (makes_pure ⟨trivial, hleft, hname⟩)
  exact (makes_list _).bind fun arguments harguments =>
    makes_pure ⟨trivial, hleft, hname, harguments⟩

/-! ## Control flow -/

/-- A condition obeys the law. -/
theorem makes_condition : condition.Makes known fun e => e.Obeys (wellFormed known) .operand :=
  makes_expect makes_grouping

/-- The part after the consequence obeys the law; `else if` is a block of one conditional. -/
theorem makes_alternative : alternative.Makes known (Block.Obeys? (wellFormed known)) := by
  refine makes_ifNext ?_ (makes_pure trivial)
  refine makes_ifNext (fun p hp => ?_) ?_
  · refine builds_need hp trivial fun nested hnested => makes_pure ?_
    exact ⟨⟨trivial, hnested⟩, trivial⟩
  · exact makes_body.bind fun block hblock => makes_pure hblock

/-- A conditional obeys the law. -/
theorem makes_conditionalBody :
    conditionalBody.Makes known fun e => e.Obeys (wellFormed known) .operand := by
  intro p hp
  refine builds_current ?_
  refine (makes_condition p hp).bind fun condition hcondition => ?_
  refine makes_body.bind fun consequence hconsequence => ?_
  refine makes_alternative.bind fun alternative halternative => ?_
  exact makes_pure ⟨trivial, hcondition, hconsequence, halternative⟩

/-- A `while` loop obeys the law. -/
theorem makes_whileLoop : whileLoop.Makes known fun e => e.Obeys (wellFormed known) .operand := by
  intro p hp
  refine builds_current ?_
  refine (makes_condition p hp).bind fun condition hcondition => ?_
  exact makes_body.bind fun body hbody => makes_pure ⟨trivial, hcondition, hbody⟩

/-- The names of a `for` loop obey the law. -/
theorem makes_loopNames : loopNames.Makes known fun names =>
    (∀ id ∈ names.1, (wellFormed known).name id) ∧ (wellFormed known).name names.2 := by
  refine makes_expectIdentifier.bind fun first hfirst => ?_
  refine makes_ifNext ?_ (makes_pure ⟨by simp, hfirst⟩)
  refine makes_expectIdentifier.bind fun second hsecond => ?_
  exact makes_pure ⟨by simpa using hfirst, hsecond⟩

/-- A `for` loop obeys the law. -/
theorem makes_forLoop : forLoop.Makes known fun e => e.Obeys (wellFormed known) .operand := by
  intro p hp
  refine builds_current ?_
  refine (makes_loopNames p hp).bind fun names hnames => makes_expect ?_
  refine makes_nextExpr.bind fun iterable hiterable => ?_
  exact makes_body.bind fun body hbody =>
    makes_pure ⟨trivial, hnames.1, hnames.2, hiterable, hbody⟩

/-- The name of the round is that of a known token, or `i`. -/
theorem makes_loopCounter : loopCounter.Makes known fun counter =>
    counter = "i" ∨ ∃ token, known token ∧ token.kind = .identifier ∧ token.value = counter := by
  refine makes_ifNext ?_ (makes_pure (.inl rfl))
  refine makes_expectIdentifier.bind fun counter hcounter => makes_expect ?_
  exact makes_pure (.inr ⟨counter.token, hcounter⟩)

/-- A `repeat` loop obeys the law. -/
theorem makes_repeatLoop : repeatLoop.Makes known fun e => e.Obeys (wellFormed known) .operand := by
  intro p hp
  refine builds_current ?_
  refine (makes_loopCounter p hp).bind fun counter hcounter => ?_
  refine makes_nextExpr.bind fun count hcount => ?_
  exact makes_body.bind fun body hbody => makes_pure ⟨hcounter, hcount, hbody⟩

/-! ## Switch and match -/

/-- The other values of a clause obey the law. -/
theorem makes_caseValues :
    caseValues.Makes known (Expr.ObeysEach (wellFormed known) .operand) := by
  refine makes_ifNext ?_ (makes_pure trivial)
  refine makes_nextExpr.bind fun value hvalue p hp => ?_
  exact builds_need hp trivial fun rest hrest => makes_pure ⟨hvalue, hrest⟩

/-- The clauses with values have one at least. -/
theorem makes_selection : selection.Makes known fun selected => ∀ values ∈ selected,
    values ≠ [] ∧ Expr.ObeysEach (wellFormed known) .operand values := by
  intro p hp
  refine builds_look ?_
  change Builds known (if _ then _ else if _ then _ else _) p _
  split_ifs
  · exact builds_pure hp (by simp)
  · refine builds_advance (builds_look ?_)
    change Builds known (if _ then _ else _) p.advance _
    split_ifs
    · exact builds_pure hp.advance (by simp)
    · refine (makes_expr .default _ hp.advance).bind fun first hfirst q hq => ?_
      refine builds_need hq trivial fun rest hrest => makes_pure ?_
      rintro _ ⟨⟩
      exact ⟨List.cons_ne_nil _ _, hfirst, hrest⟩
  · exact builds_fail _

/-- A clause obeys the law; one without values is the default. -/
theorem makes_clause : clause.Makes known (CaseClause.Obeys (wellFormed known)) := by
  intro p hp
  refine builds_advance (builds_current ?_)
  refine (makes_selection _ hp.advance).bind fun selected hselected => ?_
  refine makes_body.bind fun body hbody => makes_pure ?_
  cases selected with
  | none => exact ⟨iff_of_true rfl rfl, trivial, hbody⟩
  | some values =>
    obtain ⟨hvalues, hobeys⟩ := hselected values rfl
    exact ⟨iff_of_false (by simp) hvalues, hobeys, hbody⟩

/-- The clauses that are left of a switch obey the law. -/
theorem makes_clauses : clauses.Makes known (CaseClause.ObeysEach (wellFormed known)) :=
  makes_untilBrace trivial makes_clause (makes_need .clauses trivial)
    fun _ _ hfirst hrest => ⟨hfirst, hrest⟩

/-- A switch obeys the law and has at most one default. -/
theorem makes_switch : switch.Makes known fun e => e.Obeys (wellFormed known) .operand := by
  intro p hp
  refine builds_current ?_
  refine (makes_condition p hp).bind fun subject hsubject => makes_expect fun q hq => ?_
  refine builds_need hq trivial fun clauses hclauses r hr => builds_advance ?_
  change Builds known (if _ then _ else _) r.advance _
  split_ifs with hdefaults
  · exact builds_fail _
  · exact builds_pure hr.advance ⟨Nat.not_lt.1 hdefaults, hsubject, hclauses⟩

/-- The condition behind a pattern obeys the law. -/
theorem makes_guard : guard.Makes known (Expr.Obeys? (wellFormed known)) := by
  refine makes_ifNext ?_ (makes_pure trivial)
  exact makes_nextExpr.bind fun condition hcondition => makes_pure hcondition

/-- What a case does is a block that obeys the law. -/
theorem makes_caseBody : caseBody.Makes known (Block.Obeys (wellFormed known)) := by
  refine makes_ifNext makes_block ?_
  exact makes_nextExpr.bind fun e he => makes_pure ⟨⟨trivial, he⟩, trivial⟩

/-- A case obeys the law. -/
theorem makes_matchCase : matchCase.Makes known (MatchCase.Obeys (wellFormed known)) := by
  intro p hp
  refine builds_advance (builds_current ?_)
  refine (makes_pattern _ hp.advance).bind fun pattern hpattern => ?_
  refine makes_guard.bind fun guard hguard => makes_expect ?_
  refine makes_caseBody.bind fun body hbody => ?_
  have hcase : MatchCase.Obeys (wellFormed known)
      ⟨p.advance.window.current, pattern, guard, body⟩ := ⟨hpattern, hguard, hbody⟩
  intro q hq
  exact builds_ifPeek (fun _ => builds_advance (builds_pure hq.advance hcase))
    (builds_pure hq hcase)

/-- The cases that are left of a match obey the law. -/
theorem makes_matchCases : matchCases.Makes known (MatchCase.ObeysEach (wellFormed known)) :=
  makes_untilBrace trivial makes_matchCase (makes_need .matchCases trivial)
    fun _ _ hfirst hrest => ⟨hfirst, hrest⟩

/-- A match obeys the law. -/
theorem makes_matching : matching.Makes known fun e => e.Obeys (wellFormed known) .operand := by
  intro p hp
  refine builds_current ?_
  refine (makes_nextExpr p hp).bind fun subject hsubject => makes_expect fun q hq => ?_
  refine builds_need hq trivial fun cases hcases r hr => ?_
  exact builds_advance (builds_pure hr.advance ⟨trivial, hsubject, hcases⟩)

/-! ## Patterns -/

/-- The items behind a comma are sound. -/
theorem makes_patternTail (restSeen : Bool) :
    (patternTail restSeen).Makes known (ItemsSound known) :=
  makes_ifNext (makes_need (.patternItems restSeen) trivial) (makes_pure ⟨trivial, by simp⟩)

/-- The items of an array pattern are sound. -/
theorem makes_patternItems (restSeen : Bool) :
    (patternItems restSeen).Makes known (ItemsSound known) := by
  intro p hp
  refine builds_advance (builds_look ?_)
  change Builds known (if _ then if _ then _ else if _ then _ else _ else if _ then _ else _) _ _
  split_ifs with _ _ hpeek
  · exact builds_fail _
  · refine builds_advance (builds_current ?_)
    have hrest := hp.advance.advance.name_ofToken hpeek
    refine (makes_patternTail true _ hp.advance.advance).bind fun items hitems => ?_
    exact makes_pure ⟨hitems.1, by simpa using hrest⟩
  · exact builds_fail _
  · exact builds_fail _
  · refine (makes_pattern _ hp.advance).bind fun element helement => ?_
    refine (makes_patternTail false).bind fun items hitems => ?_
    exact makes_pure ⟨⟨helement, hitems.1⟩, hitems.2⟩

/-- An array pattern of sound items obeys the law for patterns. -/
theorem makes_arrayPattern :
    arrayPattern.Makes known fun e => e.Obeys (wellFormed known) .pattern := by
  intro p hp
  refine builds_current ?_
  refine makes_ifNext ?_ (fun q hq => ?_) p hp
  · exact makes_pure ⟨rfl, trivial, by simp⟩
  · refine builds_need hq trivial fun items hitems => ?_
    exact makes_expect (makes_pure ⟨rfl, hitems.1, hitems.2⟩)

/-- An array pattern apart, what obeys the law as an operand does so as a pattern. -/
theorem obeys_pattern {e : Expr} (h : e.Obeys (wellFormed known) .operand) :
    e.Obeys (wellFormed known) .pattern := by
  cases e with
  | arrayPattern token elements rest => cases h.1
  | _ => exact h

/-- The pattern of a case obeys the law for patterns. -/
theorem makes_patternBody :
    patternBody.Makes known fun e => e.Obeys (wellFormed known) .pattern := by
  intro p hp
  refine builds_look ?_
  change Builds known (if _ then _ else if _ then _ else _) p _
  split_ifs
  · exact makes_arrayPattern p hp
  · exact makes_dict p hp
  · exact (makes_expr .default).imp (fun _ => obeys_pattern) p hp

/-! ## Declarations -/

/-- The parameters behind a comma are sound. -/
theorem makes_parameterTail (defaultSeen : Bool) :
    (parameterTail defaultSeen).Makes known (ParametersSound known defaultSeen) :=
  makes_ifNext (makes_need (.parameters defaultSeen) trivial) (makes_pure ⟨by simp, .nil, by simp⟩)

/-- Parameters are sound: behind one with a default, all have one. -/
theorem makes_parameters (defaultSeen : Bool) :
    (parameters defaultSeen).Makes known (ParametersSound known defaultSeen) := by
  refine makes_expectIdentifier.bind fun id hid => ?_
  refine makes_ifNext ?_ fun p hp => ?_
  · refine makes_nextExpr.bind fun value hvalue => ?_
    refine (makes_parameterTail true).bind fun rest hrest => makes_pure ?_
    obtain ⟨hsound, hordered, hdefaults⟩ := hrest
    refine ⟨List.forall_mem_cons.2 ⟨⟨hid, by simpa using hvalue⟩, hsound⟩,
      List.pairwise_cons.2 ⟨fun q hq _ => hdefaults rfl q hq, hordered⟩, fun _ => ?_⟩
    exact List.forall_mem_cons.2 ⟨rfl, hdefaults rfl⟩
  · change Builds known (if _ then _ else _) p _
    split_ifs with hseen
    · exact builds_fail _
    · refine (makes_parameterTail false p hp).bind fun rest hrest => makes_pure ?_
      obtain ⟨hsound, hordered, -⟩ := hrest
      exact ⟨List.forall_mem_cons.2 ⟨⟨hid, by simp⟩, hsound⟩,
        List.pairwise_cons.2 ⟨by simp, hordered⟩, fun h => absurd h hseen⟩

/-- The parameters of a list are sound. -/
theorem makes_parameterList : parameterList.Makes known (ParametersSound known false) := by
  refine makes_ifNext (makes_pure ⟨by simp, .nil, by simp⟩) fun p hp => ?_
  refine builds_need hp trivial fun parameters hparameters => ?_
  exact makes_expect (makes_pure hparameters)

/-- A name that may be missing obeys the law, if it is there. -/
theorem makes_optionalName :
    optionalName.Makes known fun name => ∀ id ∈ name, (wellFormed known).name id := by
  intro p hp
  refine builds_ifPeek (fun hpeek => ?_) (builds_pure hp (by simp))
  refine builds_advance (builds_current (builds_pure hp.advance ?_))
  simpa using hp.advance.name_ofToken hpeek

/-- A function obeys the law, whatever token it keeps. -/
theorem makes_functionFrom (async : Bool) (token : Token) :
    (functionFrom async token).Makes known fun e => e.Obeys (wellFormed known) .operand := by
  refine makes_optionalName.bind fun name hname => makes_expect ?_
  refine makes_parameterList.bind fun parameters hparameters => ?_
  refine makes_body.bind fun body hbody => makes_pure ?_
  obtain ⟨hsound, hordered, -⟩ := hparameters
  obtain ⟨hfit, hdefaults⟩ := Defaults.fit_ofParameters hordered fun p hp => (hsound p hp).2
  refine ⟨hfit, hname, fun id hid => ?_, hdefaults, hbody⟩
  obtain ⟨parameter, hmem, rfl⟩ := List.mem_map.1 hid
  exact (hsound parameter hmem).1

/-- A function obeys the law. -/
theorem makes_function : function.Makes known fun e => e.Obeys (wellFormed known) .operand :=
  fun p hp => builds_current (makes_functionFrom false _ p hp)

/-- A function announced by `async` obeys the law. -/
theorem makes_asyncFunction :
    asyncFunction.Makes known fun e => e.Obeys (wellFormed known) .operand :=
  fun p hp => builds_current (makes_expect (makes_functionFrom true _) p hp)

/-- A channel obeys the law, with a size or without one. -/
theorem makes_channel : channel.Makes known fun e => e.Obeys (wellFormed known) .operand := by
  intro p hp
  refine builds_current ?_
  refine makes_ifNext ?_ (makes_pure ⟨trivial, trivial⟩) p hp
  exact makes_grouping.bind fun size hsize => makes_pure ⟨trivial, hsize⟩

/-- The names of an import obey the law, and there is one at least. -/
theorem makes_names : names.Makes known fun names =>
    names ≠ [] ∧ ∀ id ∈ names, (wellFormed known).name id := by
  refine makes_expectIdentifier.bind fun id hid => ?_
  refine makes_ifNext (fun p hp => ?_) (makes_pure ⟨by simp, by simpa using hid⟩)
  refine builds_need hp trivial fun rest hrest => ?_
  exact makes_pure ⟨by simp, List.forall_mem_cons.2 ⟨hid, hrest.2⟩⟩

/-- No name is twice among the distinct ones, and none was seen before. -/
theorem nodup_distinctNames (seen : List String) (ids : List Identifier) :
    ((distinctNames seen ids).map Identifier.name).Nodup ∧
      ∀ id ∈ distinctNames seen ids, id ∈ ids ∧ id.name ∉ seen := by
  fun_induction distinctNames seen ids with
  | case1 => simp
  | case2 seen id rest _ ih =>
    exact ⟨ih.1, fun other hother => ⟨List.mem_cons_of_mem _ (ih.2 other hother).1,
      (ih.2 other hother).2⟩⟩
  | case3 seen id rest hfresh ih =>
    obtain ⟨hnodup, hrest⟩ := ih
    constructor
    · rw [List.map_cons, List.nodup_cons]
      refine ⟨fun hmem => ?_, hnodup⟩
      obtain ⟨other, hother, heq⟩ := List.mem_map.1 hmem
      exact (hrest other hother).2 (by simp [heq])
    · refine List.forall_mem_cons.2
        ⟨⟨List.mem_cons_self, by simpa using hfresh⟩, fun other hother => ?_⟩
      obtain ⟨hmem, hseen⟩ := hrest other hother
      exact ⟨List.mem_cons_of_mem _ hmem, fun h => hseen (List.mem_cons_of_mem _ h)⟩

/-- An import has distinct names that obey the law. -/
theorem makes_importing : importing.Makes known fun e => e.Obeys (wellFormed known) .operand := by
  intro p hp
  refine builds_current (builds_need hp trivial fun ids hids => makes_pure ?_)
  obtain ⟨hnodup, hmem⟩ := nodup_distinctNames [] ids
  refine ⟨⟨?_, hnodup⟩, fun id hid => hids.2 id (hmem id hid).1⟩
  obtain ⟨first, rest, rfl⟩ := List.exists_cons_of_ne_nil hids.1
  simp [distinctNames]

/-- A package obeys the law. -/
theorem makes_package : package.Makes known fun e => e.Obeys (wellFormed known) .operand := by
  intro p hp
  refine builds_current ?_
  refine (makes_expectIdentifier p hp).bind fun name hname => ?_
  exact makes_body.bind fun body hbody => makes_pure ⟨trivial, hname, hbody⟩

/-! ## Statements -/

/-- An expression with its semicolon obeys the law. -/
theorem makes_operand : operand.Makes known fun e => e.Obeys (wellFormed known) .operand :=
  makes_nextExpr.bind fun _ hvalue => makes_skipSemicolon (makes_pure hvalue)

/-- An expression that stands alone obeys the law. -/
theorem makes_expressionStatement :
    expressionStatement.Makes known (Stmt.Obeys (wellFormed known)) := by
  intro p hp
  refine builds_current ?_
  refine (makes_expr .default p hp).bind fun e he => ?_
  exact makes_skipSemicolon (makes_pure ⟨trivial, he⟩)

/-- A declaration obeys the law. -/
theorem makes_declaration : declaration.Makes known (Stmt.Obeys (wellFormed known)) := by
  intro p hp
  refine builds_look ?_
  change Builds known (if _ then _ else _) p _
  split
  · refine (makes_expectIdentifier p hp).bind fun name hname => makes_expect ?_
    exact makes_operand.bind fun value hvalue => makes_pure ⟨trivial, hname, hvalue⟩
  · exact builds_fail _

/-- A `return` obeys the law, with a value or without one. -/
theorem makes_returning : returning.Makes known (Stmt.Obeys (wellFormed known)) := by
  intro p hp
  refine builds_look ?_
  change Builds known (if _ then _ else if _ then _ else _) p _
  split_ifs
  · exact builds_advance (builds_pure hp.advance ⟨trivial, trivial⟩)
  · exact builds_pure hp ⟨trivial, trivial⟩
  · exact (makes_operand p hp).bind fun value hvalue => makes_pure ⟨trivial, hvalue⟩

/-- A `break` obeys the law. -/
theorem makes_breaking : breaking.Makes known (Stmt.Obeys (wellFormed known)) := by
  intro p hp
  refine builds_current (makes_skipSemicolon ?_ p hp)
  exact makes_pure trivial

/-- A `continue` obeys the law. -/
theorem makes_continuing : continuing.Makes known (Stmt.Obeys (wellFormed known)) := by
  intro p hp
  refine builds_current (makes_skipSemicolon ?_ p hp)
  exact makes_pure trivial

/-- An `include` obeys the law. -/
theorem makes_including : including.Makes known (Stmt.Obeys (wellFormed known)) := by
  intro p hp
  refine builds_current (makes_expect (fun q hq => ?_) p hp)
  refine builds_current (makes_skipSemicolon ?_ q hq)
  exact makes_pure trivial

/-- A block that stands alone obeys the law. -/
theorem makes_blockStatement : blockStatement.Makes known (Stmt.Obeys (wellFormed known)) :=
  makes_block.bind fun _ hblock => makes_pure ⟨trivial, hblock⟩

/-- A member of an enumeration has a name and a value that obey the law. -/
theorem makes_enumMember : enumMember.Makes known fun entry =>
    (wellFormed known).name entry.1 ∧ entry.2.Obeys (wellFormed known) .operand := by
  refine makes_expectIdentifier.bind fun name hname => makes_expect ?_
  refine makes_nextExpr.bind fun value hvalue => ?_
  exact makes_memberComma (makes_pure ⟨hname, hvalue⟩)

/-- The members that are left of an enumeration obey the law. -/
theorem makes_members : members.Makes known (Stmt.ObeysMembers (wellFormed known)) :=
  makes_untilBrace trivial makes_enumMember (makes_need .members trivial)
    fun _ _ hfirst hrest => ⟨hfirst.1, hfirst.2, hrest⟩

/-- An enumeration obeys the law. -/
theorem makes_enumeration : enumeration.Makes known (Stmt.Obeys (wellFormed known)) := by
  intro p hp
  refine builds_current ?_
  refine (makes_expectIdentifier p hp).bind fun name hname => makes_expect fun q hq => ?_
  refine builds_need hq trivial fun entries hentries r hr => ?_
  exact builds_advance (builds_pure hr.advance ⟨trivial, hname, hentries⟩)

/-- A `go` obeys the law. -/
theorem makes_go : go.Makes known (Stmt.Obeys (wellFormed known)) :=
  fun p hp => builds_current <|
    (makes_operand p hp).bind fun _ hvalue => makes_pure ⟨trivial, hvalue⟩

/-- A word that takes one expression obeys the law, unless it is `error`. -/
theorem builds_declarative (hp : p.Sees known) (hkind : p.window.current.kind ≠ .errorWord) :
    declarative.Builds known p (Stmt.Obeys (wellFormed known)) := by
  refine builds_current ?_
  split
  · next word hword =>
    refine (makes_operand p hp).bind fun value hvalue => makes_pure ⟨?_, hvalue⟩
    have hother : word ≠ .error := by
      rintro rfl
      revert hword hkind
      cases p.window.current.kind <;> decide
    cases word with
    | error => exact absurd rfl hother
    | _ => trivial
  · exact builds_fail _

/-- What `error` and an expression mean obeys the law, if the expression does. -/
theorem obeys_errorNode {token : Token} {value : Expr}
    (hvalue : value.Obeys (wellFormed known) .operand) :
    (errorNode token value).Obeys (wellFormed known) := by
  have hreport (hnode : errorNode token value = .declarative token .error value) :
      (errorNode token value).Obeys (wellFormed known) := by
    rw [hnode]
    exact ⟨hnode, hvalue⟩
  by_cases hcall : ∃ paren name arguments, value = .call paren (.identifier name) arguments
  · obtain ⟨paren, name, arguments, rfl⟩ := hcall
    cases hnames : bareNames? arguments with
    | none => exact hreport (by simp only [errorNode, hnames])
    | some names =>
      obtain rfl := bareNames?_eq_some hnames
      simp only [errorNode, hnames]
      refine ⟨trivial, hvalue.2.1.2, fun id hid => ?_⟩
      exact (Expr.obeysEach_iff.1 hvalue.2.2 _ (List.mem_map_of_mem hid)).2
  · refine hreport ?_
    unfold errorNode
    split
    · next paren name arguments => exact absurd ⟨paren, name, arguments, rfl⟩ hcall
    · rfl

/-- An `error` obeys the law, declared or reported. -/
theorem makes_errorStatement : errorStatement.Makes known (Stmt.Obeys (wellFormed known)) :=
  fun p hp => builds_current <|
    (makes_operand p hp).bind fun _ hvalue => makes_pure (obeys_errorNode hvalue)

/-- The statements of a block obey the law. -/
theorem makes_statements : statements.Makes known (Stmt.ObeysEach (wellFormed known)) := by
  intro p hp
  refine builds_look ?_
  change Builds known (if _ then _ else if _ then _ else _) p _
  split_ifs
  · exact builds_pure hp trivial
  · exact builds_fail _
  · refine builds_salvage hp trivial trivial fun first hfirst q hq => builds_advance ?_
    exact builds_need hq.advance trivial fun rest hrest => makes_pure ⟨hfirst, hrest⟩

end ScriptFront.Rule
