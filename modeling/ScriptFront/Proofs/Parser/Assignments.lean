import ScriptFront.Proofs.Parser.EndOfInput
import ScriptFront.Proofs.Parser.Misses

/-!
# Chains of assignments

A chain of assignments is a number of targets with an operator each, and a name behind them. Targets
are names, indexed names and properties, to which a value can be assigned, and integers and calls,
to which none can.

* `Target`, `Step` — what can stand before an operator, and one operator with its target.
* `Expr.Nests` — the tree is nested to the right, one level for each step.
* `Target.resumes` — a target is read up to where the loop over operators goes on with it.
* `exists_nests`, `exists_missed` — what the parser makes of the steps in front of it: the nested
  tree, or a failure on the operator behind the first target that takes no value.
* `assignments_nest` — both for whole programs.
-/

namespace ScriptFront

open ScriptFront.Parser

/-! ## Chains -/

/-- What stands before an operator of assignment. -/
inductive Target where
  /-- A name. -/
  | name (token : Token) (htoken : token.kind = .identifier)
  /-- A name indexed by a name. -/
  | index (object opening key closing : Token) (hobject : object.kind = .identifier)
      (hopening : opening.kind = .openBracket) (hkey : key.kind = .identifier)
      (hclosing : closing.kind = .closeBracket)
  /-- A property of a name. -/
  | property (object dot member : Token) (hobject : object.kind = .identifier)
      (hdot : dot.kind = .dot) (hmember : member.kind = .identifier)
  /-- An integer literal within range. -/
  | integer (token : Token) (value : Int) (htoken : token.kind = .integer)
      (hvalue : Numeral.integer? token.value = some value)
  /-- A call without arguments. -/
  | call (function opening closing : Token) (hfunction : function.kind = .identifier)
      (hopening : opening.kind = .openParen) (hclosing : closing.kind = .closeParen)

namespace Target

/-- The tokens of a target. -/
def tokens : Target → List Token
  | name token _ => [token]
  | index object opening key closing _ _ _ _ => [object, opening, key, closing]
  | property object dot member _ _ _ => [object, dot, member]
  | integer token _ _ _ => [token]
  | call function opening closing _ _ _ => [function, opening, closing]

/-- The tree of a target. -/
def tree : Target → Expr
  | name token _ => .identifier (.ofToken token)
  | index object opening key _ _ _ _ _ =>
    .index opening (.identifier (.ofToken object)) (.identifier (.ofToken key))
  | property object dot member _ _ _ =>
    .property dot (.identifier (.ofToken object)) (.ofToken member)
  | integer token value _ _ => .integer token value
  | call function opening _ _ _ _ => .call opening (.identifier (.ofToken function)) []

/-- A value can be assigned to the target. -/
def isPlace : Target → Bool
  | name _ _ | index _ _ _ _ _ _ _ _ | property _ _ _ _ _ _ => true
  | integer _ _ _ _ | call _ _ _ _ _ _ => false

end Target

/-- A target and the operator behind it. -/
structure Step where
  /-- What is assigned to. -/
  target : Target
  /-- The operator. -/
  operator : Token
  operator_kind : operator.kind ∈ [Kind.assignment, .plusEquals, .minusEquals, .starEquals,
    .slashEquals, .percentEquals]

/-- The tokens of steps. -/
def Step.tokensEach (steps : List Step) : List Token :=
  steps.flatMap fun step => step.target.tokens ++ [step.operator]

/-- The tree is nested to the right, one level for each step, around the name at the end. -/
inductive Expr.Nests (last : Token) : List Step → Expr → Prop
  | value : Nests last [] (.identifier (.ofToken last))
  | assign {step : Step} {steps : List Step} {value : Expr} {name : Identifier}
      (htarget : step.target.tree = .identifier name) (hkind : step.operator.kind = .assignment)
      (hvalue : Nests last steps value) :
      Nests last (step :: steps) (.assign step.operator name value)
  | compoundAssign {step : Step} {steps : List Step} {value : Expr} {name : Identifier}
      (htarget : step.target.tree = .identifier name) (hkind : step.operator.kind ≠ .assignment)
      (hvalue : Nests last steps value) :
      Nests last (step :: steps)
        (.compoundAssign step.operator name step.operator.value value)
  | indexAssign {step : Step} {steps : List Step} {value object index : Expr} {opening : Token}
      (htarget : step.target.tree = .index opening object index) (hvalue : Nests last steps value) :
      Nests last (step :: steps)
        (.indexAssign step.operator step.target.tree step.operator.value value)
  | propertyAssign {step : Step} {steps : List Step} {value object : Expr} {dot : Token}
      {name : Identifier} (htarget : step.target.tree = .property dot object name)
      (hvalue : Nests last steps value) :
      Nests last (step :: steps)
        (.propertyAssign step.operator dot object name step.operator.value value)

variable {p q : Parser} {t u last : Token} {rest : List Token} {left : Expr}
  {power : Power}

/-! ## Targets -/

/-- A name between brackets is read as an index. -/
theorem gives_index {key closing : Token} (hp : p.Faces (t :: key :: closing :: rest))
    (hkey : key.kind = .identifier) (hclosing : closing.kind = .closeBracket) :
    (LinkingRule.index.plan left power).Gives p (.index t left (.identifier (.ofToken key)))
      p.advance.advance := by
  have hp' : p.advance.Faces (key :: closing :: rest) := hp.advance (by simp)
  have hpeek : p.window.peek.kind = .identifier := by rw [hp.peek_eq, hkey]
  have hpeek' : p.advance.window.peek.kind = .closeBracket := by rw [hp'.peek_eq, hclosing]
  have hreads := reads_name hp' hkey (by rw [hclosing]; decide)
  rw [← show p.window.current = t from hp.current_eq]
  refine .look (.ifNotPeek (by rw [hpeek]; decide) ((Rule.Gives.nextExpr hreads).bind ?_))
  exact .ifNotPeek (by rw [hpeek']; decide) ((Rule.Gives.expect hpeek').bind .done)

/-- A name behind a dot is read as a property, unless a parenthesis opens behind it. -/
theorem gives_property {member : Token} (hp : p.Faces (t :: member :: u :: rest))
    (hmember : member.kind = .identifier) (hu : u.kind ≠ .openParen) :
    (LinkingRule.member.plan left power).Gives p (.property t left (.ofToken member))
      p.advance := by
  have hp' : p.advance.Faces (member :: u :: rest) := hp.advance (by simp)
  rw [← show p.window.current = t from hp.current_eq]
  refine .look ((gives_expectIdentifier hp hmember).bind (.ifNotPeek ?_ .done))
  rwa [hp'.peek_eq]

/-- A pair of parentheses is read as a call without arguments. -/
theorem gives_call {closing : Token} (hp : p.Faces (t :: closing :: rest))
    (hclosing : closing.kind = .closeParen) :
    (LinkingRule.call.plan left power).Gives p (.call t left []) p.advance := by
  have hpeek : p.window.peek.kind = .closeParen := by rw [hp.peek_eq, hclosing]
  have hlist : Reads (.list .closeParen) p [] p.advance :=
    Rule.Gives.ifPeek hpeek (.shift .done)
  rw [← show p.window.current = t from hp.current_eq]
  exact .look ((Rule.Gives.need hlist .done).bind .done)

/-- A target is read up to where the loop over operators goes on with it. -/
theorem Target.resumes (target : Target) (hu : u.kind ≠ .openParen)
    (hp : p.Faces (target.tokens ++ u :: rest)) :
    ∃ last ∈ target.tokens, ∃ q, q.Faces (last :: u :: rest) ∧
      (p.grammar.body (.expr .default)).Resumes p
        (q.grammar.body (.links .default target.tree)) q := by
  have hname : ∀ {t : Token} {rest : List Token}, p.Faces (t :: rest) → t.kind = .identifier →
      (p.grammar.body (.expr .default)).Resumes p
        (p.grammar.body (.links .default (.identifier (.ofToken t)))) p := by
    intro t rest hp ht
    exact resumes_expr hp (by rw [ht]; rfl) (by rw [ht]; rfl) (gives_name hp) .default
  cases target with
  | name token htoken =>
    change p.Faces (token :: u :: rest) at hp
    exact ⟨token, .head _, p, hp, hname hp htoken⟩
  | index object opening key closing hobject hopening hkey hclosing =>
    change p.Faces (object :: opening :: key :: closing :: u :: rest) at hp
    have hopened := hp.advance (by simp)
    have hinside := hopened.advance (by simp)
    refine ⟨closing, by simp [tokens], _, hinside.advance (by simp), (hname hp hobject).trans ?_⟩
    exact resumes_links hp (by rw [hopening]; decide) (by rw [hopening]; rfl)
      (gives_index hopened hkey hclosing)
  | property object dot member hobject hdot hmember =>
    change p.Faces (object :: dot :: member :: u :: rest) at hp
    have hopened := hp.advance (by simp)
    refine ⟨member, by simp [tokens], _, hopened.advance (by simp), (hname hp hobject).trans ?_⟩
    exact resumes_links hp (by rw [hdot]; decide) (by rw [hdot]; rfl)
      (gives_property hopened hmember hu)
  | integer token value htoken hvalue =>
    change p.Faces (token :: u :: rest) at hp
    refine ⟨token, .head _, p, hp, ?_⟩
    exact resumes_expr hp (by rw [htoken]; rfl) (by rw [htoken]; rfl) (gives_integer hp hvalue) _
  | call function opening closing hfunction hopening hclosing =>
    change p.Faces (function :: opening :: closing :: u :: rest) at hp
    have hopened := hp.advance (by simp)
    refine ⟨closing, by simp [tokens], _, hopened.advance (by simp), (hname hp hfunction).trans ?_⟩
    exact resumes_links hp (by rw [hopening]; decide) (by rw [hopening]; rfl)
      (gives_call hopened hclosing)

/-! ## Steps -/

variable {step bad : Step} {steps : List Step}

/-- The tokens of steps begin with the target and the operator of the first. -/
theorem Step.tokensEach_cons (step : Step) (steps : List Step) (rest : List Token) :
    Step.tokensEach (step :: steps) ++ rest =
      step.target.tokens ++ step.operator :: (Step.tokensEach steps ++ rest) := by
  simp [Step.tokensEach]

/-- An expression goes on at the operator of a step, by the rule for assignments. -/
theorem Step.linking (step : Step) :
    Power.default < Grammar.standard.powerOf step.operator.kind ∧
      Grammar.standard.linking step.operator.kind = some .assignment ∧
      step.operator.kind ≠ .openParen := by
  have hall : ∀ kind ∈ [Kind.assignment, .plusEquals, .minusEquals, .starEquals, .slashEquals,
      .percentEquals], Power.default < Grammar.standard.powerOf kind ∧
        Grammar.standard.linking kind = some .assignment ∧ kind ≠ .openParen := by decide
  exact hall _ step.operator_kind

/-- A place has a node for the value that it takes. -/
theorem Step.exists_node (step : Step) (hplace : step.target.isPlace = true) (last : Token) :
    ∃ node, Rule.assignmentNode? step.operator step.target.tree = some node ∧
      ∀ steps value, Expr.Nests last steps value →
        Expr.Nests last (step :: steps) (node value) := by
  obtain ⟨target, operator, hoperator⟩ := step
  cases target with
  | name token htoken =>
    by_cases hkind : operator.kind = .assignment
    · exact ⟨_, if_pos hkind, fun _ _ hvalue => .assign rfl hkind hvalue⟩
    · exact ⟨_, if_neg hkind, fun _ _ hvalue => .compoundAssign rfl hkind hvalue⟩
  | index => exact ⟨_, rfl, fun _ _ hvalue => .indexAssign rfl hvalue⟩
  | property => exact ⟨_, rfl, fun _ _ hvalue => .propertyAssign rfl hvalue⟩
  | integer => cases hplace
  | call => cases hplace

/-- What is no place has no node for a value. -/
theorem Step.assignmentNode?_eq_none (step : Step) (hplace : step.target.isPlace = false) :
    Rule.assignmentNode? step.operator step.target.tree = none := by
  obtain ⟨target, operator, hoperator⟩ := step
  cases target with
  | name => cases hplace
  | index => cases hplace
  | property => cases hplace
  | integer => rfl
  | call => rfl

/-- Steps whose targets take a value are read as the nested tree. -/
theorem exists_nests (hlast : last.kind = .identifier)
    (ht : ¬ Power.default < Grammar.standard.powerOf t.kind)
    (hsteps : ∀ step ∈ steps, step.target.isPlace = true)
    (hp : p.Faces (Step.tokensEach steps ++ last :: t :: rest)) :
    ∃ e r, Expr.Nests last steps e ∧ Reads (.expr .default) p e r ∧
      r.Faces (last :: t :: rest) := by
  induction steps generalizing p with
  | nil => exact ⟨_, p, .value, reads_name hp hlast ht, hp⟩
  | cons step steps ih =>
    obtain ⟨hplace, hsteps⟩ := List.forall_mem_cons.1 hsteps
    obtain ⟨hpower, hrule, hparen⟩ := step.linking
    obtain ⟨node, hnode, hnests⟩ := step.exists_node hplace last
    rw [Step.tokensEach_cons] at hp
    obtain ⟨before, -, q, hq, hresumes⟩ := step.target.resumes hparen hp
    have hoperator := hq.advance (by simp; omega)
    have hvalue := hoperator.advance (by simp; omega)
    -- the value takes all that is left of the chain, so nothing goes on behind the node
    obtain ⟨e, r, he, hreads, hr⟩ := ih hsteps hvalue
    have hgives : (LinkingRule.assignment.plan step.target.tree
        (Grammar.standard.powerOf step.operator.kind)).Gives q.advance (node e) r := by
      refine Rule.Gives.look ?_
      dsimp only [Rule.bind]
      rw [hoperator.current_eq, hnode]
      exact (Rule.Gives.nextExpr hreads).bind .done
    refine ⟨node e, r, hnests steps e he, ?_, hr⟩
    exact hresumes.gives (reads_links hq hpower hrule hgives (reads_links_stop hr ht))

/-- The kinds of the tokens in a chain of assignments. -/
def chainKinds : List Kind :=
  [.identifier, .integer, .openBracket, .closeBracket, .dot, .openParen, .closeParen, .assignment,
   .plusEquals, .minusEquals, .starEquals, .slashEquals, .percentEquals]

/-- The tokens of a target are of the kinds in a chain. -/
theorem Target.kind_of_mem (target : Target) (h : t ∈ target.tokens) : t.kind ∈ chainKinds := by
  cases target <;> simp only [tokens, List.mem_cons, List.not_mem_nil, or_false] at h <;>
    rcases h with rfl | rfl | rfl | rfl <;> simp [chainKinds, *]

/-- The tokens of steps and of the name behind them are of the kinds in a chain. -/
theorem Step.kind_of_mem (hlast : last.kind = .identifier)
    (h : t ∈ Step.tokensEach steps ++ [last]) : t.kind ∈ chainKinds := by
  simp only [Step.tokensEach, List.mem_append, List.mem_flatMap, List.mem_singleton] at h
  rcases h with ⟨step, -, h | rfl⟩ | rfl
  · exact step.target.kind_of_mem h
  · have hall : ∀ kind ∈ [Kind.assignment, .plusEquals, .minusEquals, .starEquals, .slashEquals,
        .percentEquals], kind ∈ chainKinds := by decide
    exact hall _ step.operator_kind
  · rw [hlast]
    decide

/-- Tokens of these kinds start no statement of their own and end none. -/
theorem chainKinds_plain : ∀ kind ∈ chainKinds, kind ≠ .eof ∧ kind ≠ .semicolon ∧
    kind.startsStatement = false ∧ Grammar.standard.statement kind = none := by
  decide

/-- On one line, recovery stops on no token of a chain. -/
theorem Step.noBoundary_of_mem (hlast : last.kind = .identifier) {line : Nat}
    (hline : ∀ t ∈ Step.tokensEach steps ++ [last], t.line = line) :
    ∀ t ∈ Step.tokensEach steps ++ [last], t.NoBoundary line := by
  intro t h
  obtain ⟨-, hsemicolon, hword, -⟩ := chainKinds_plain _ (Step.kind_of_mem hlast h)
  exact ⟨hline t h, hsemicolon, hword⟩

/-- Steps are read up to the operator behind the first target that takes no value. -/
theorem exists_missed {line : Nat} (hpassed : ∀ t ∈ Step.tokensEach steps ++ [last],
    t.NoBoundary line)
    (hfind : steps.find? (fun step => !step.target.isPlace) = some bad)
    (hp : p.Faces (Step.tokensEach steps ++ last :: t :: rest)) :
    ∃ r, Missed (.expr .default) p
        (.invalidAssignmentTarget bad.operator.value bad.target.tree.render) r ∧
      r.SkipsTo line (t :: rest) := by
  induction steps generalizing p with
  | nil => cases hfind
  | cons step steps ih =>
    obtain ⟨hpower, hrule, hparen⟩ := step.linking
    rw [Step.tokensEach_cons, List.forall_mem_append, List.forall_mem_cons] at hpassed
    obtain ⟨htarget, hsign, hlater⟩ := hpassed
    rw [Step.tokensEach_cons] at hp
    obtain ⟨before, hbefore, q, hq, hresumes⟩ := step.target.resumes hparen hp
    have hoperator := hq.advance (by simp; omega)
    cases hplace : step.target.isPlace with
    | true =>
      obtain ⟨node, hnode, -⟩ := step.exists_node hplace last
      rw [List.find?_cons_of_neg (by simp [hplace])] at hfind
      obtain ⟨r, hmissed, hr⟩ := ih hlater hfind (hoperator.advance (by simp; omega))
      have hmisses : (LinkingRule.assignment.plan step.target.tree
          (Grammar.standard.powerOf step.operator.kind)).Misses q.advance
          (.invalidAssignmentTarget bad.operator.value bad.target.tree.render) r := by
        refine Rule.Misses.look ?_
        dsimp only [Rule.bind]
        rw [hoperator.current_eq, hnode]
        exact (Rule.Misses.nextExpr hmissed).bind_first
      exact ⟨r, hresumes.misses (missed_links hq hpower hrule hmisses.bind_first), hr⟩
    | false =>
      rw [List.find?_cons_of_pos (by simp [hplace])] at hfind
      obtain rfl : bad = step := (Option.some.inj hfind).symm
      have hmisses : (LinkingRule.assignment.plan bad.target.tree
          (Grammar.standard.powerOf bad.operator.kind)).Misses q.advance
          (.invalidAssignmentTarget bad.operator.value bad.target.tree.render) q.advance := by
        refine Rule.Misses.look ?_
        dsimp only [Rule.bind]
        rw [hoperator.current_eq, bad.assignmentNode?_eq_none hplace]
        exact .fail
      have hprevious : q.advance.window.previous.kind ≠ .semicolon := by
        change q.window.current.kind ≠ _
        rw [hq.current_eq]
        exact (htarget before hbefore).ne_semicolon
      refine ⟨q.advance, hresumes.misses (missed_links hq hpower hrule hmisses.bind_first),
        hprevious,
        bad.operator :: (Step.tokensEach steps ++ [last]), by simpa using hoperator, ?_,
        List.forall_mem_cons.2 ⟨hsign, hlater⟩⟩
      rw [hoperator.current_eq]
      exact .head _

/-! ## Programs -/

/-- A chain up to an end of input is a program of one statement, or of an empty slot. -/
theorem parseTokens_steps (hlast : last.kind = .identifier) {line : Nat}
    (hline : ∀ u ∈ Step.tokensEach steps ++ [last], u.line = line) (ht : t.kind = .eof)
    (rest : List Token) :
    match steps.find? (fun step => !step.target.isPlace) with
    | none => ∃ token e, parseTokens (Step.tokensEach steps ++ last :: t :: rest) =
        (⟨[some (.expression token e)]⟩, []) ∧ Expr.Nests last steps e
    | some bad => parseTokens (Step.tokensEach steps ++ last :: t :: rest) =
        (⟨[none]⟩, [⟨.invalidAssignmentTarget bad.operator.value bad.target.tree.render,
          line⟩]) := by
  obtain ⟨token, more, htokens, htoken⟩ : ∃ token more,
      Step.tokensEach steps ++ last :: t :: rest = token :: more ∧
        token ∈ Step.tokensEach steps ++ [last] := by
    cases Step.tokensEach steps with
    | nil => exact ⟨last, _, rfl, .head _⟩
    | cons token later => exact ⟨token, _, rfl, .head _⟩
  obtain ⟨hstart, -, -, hstatement⟩ := chainKinds_plain _ (Step.kind_of_mem hlast htoken)
  have hp : (ofTokens (Step.tokensEach steps ++ last :: t :: rest)).Faces
      (Step.tokensEach steps ++ last :: t :: rest) := faces_ofTokens (by simp; omega)
  have hfirst : (ofTokens (Step.tokensEach steps ++ last :: t :: rest)).Faces (token :: more) := by
    rw [← htokens]
    exact hp
  split
  · next hfind =>
    have hsteps : ∀ step ∈ steps, step.target.isPlace = true := by
      simpa using List.find?_eq_none.1 hfind
    obtain ⟨e, r, he, hreads, hr⟩ := exists_nests hlast (by rw [ht]; decide) hsteps hp
    have hpeek : r.window.peek.kind = .eof := (congrArg Token.kind hr.peek_eq).trans ht
    exact ⟨token, e, parseTokens_eq_of_reads_expr hfirst hstart hstatement hreads hpeek, he⟩
  · next bad hfind =>
    obtain ⟨r, hmissed, hr⟩ := exists_missed (Step.noBoundary_of_mem hlast hline) hfind hp
    exact parseTokens_eq_of_missed_expr hfirst hstart hstatement hmissed hr ht

/-- **Chains of assignments nest to the right, and a bad target is reported once.** A chain of any
length on one line, at the end of the list or up to an end of input, is one expression statement if
each target takes a value, and its tree is nested to the right with one level for each step.
Otherwise the program is an empty slot, and there is one diagnostic: it cites the first target that
takes no value, and the operator behind it. -/
theorem assignments_nest (steps : List Step) {last : Token} (hlast : last.kind = .identifier)
    (line : Nat) (hline : ∀ t ∈ Step.tokensEach steps ++ [last], t.line = line)
    {ending : List Token} (hending : ∀ t ∈ ending.head?, t.kind = .eof) :
    match steps.find? (fun step => !step.target.isPlace) with
    | none => ∃ token e, parseTokens (Step.tokensEach steps ++ [last] ++ ending) =
        (⟨[some (.expression token e)]⟩, []) ∧ Expr.Nests last steps e
    | some bad => parseTokens (Step.tokensEach steps ++ [last] ++ ending) =
        (⟨[none]⟩, [⟨.invalidAssignmentTarget bad.operator.value bad.target.tree.render,
          line⟩]) := by
  obtain ⟨t, rest, ht, hparse⟩ := exists_parseTokens_eof (Step.tokensEach steps ++ [last]) hending
  rw [hparse, List.append_assoc, List.singleton_append]
  exact parseTokens_steps hlast hline ht rest

/-- The steps `a[i] += x.y = b -=`. -/
def nestedSteps : List Step :=
  [⟨.index ⟨.identifier, "a", 2⟩ ⟨.openBracket, "[", 2⟩ ⟨.identifier, "i", 2⟩
    ⟨.closeBracket, "]", 2⟩
      rfl rfl rfl rfl, ⟨.plusEquals, "+=", 2⟩, by decide⟩,
   ⟨.property ⟨.identifier, "x", 2⟩ ⟨.dot, ".", 2⟩ ⟨.identifier, "y", 2⟩ rfl rfl rfl,
      ⟨.assignment, "=", 2⟩, by decide⟩,
   ⟨.name ⟨.identifier, "b", 2⟩ rfl, ⟨.minusEquals, "-=", 2⟩, by decide⟩]

/-- The steps `a = f() *= 3 =`, of which the second and the third can take no value. -/
def spoiledSteps : List Step :=
  [⟨.name ⟨.identifier, "a", 2⟩ rfl, ⟨.assignment, "=", 2⟩, by decide⟩,
   ⟨.call ⟨.identifier, "f", 2⟩ ⟨.openParen, "(", 2⟩ ⟨.closeParen, ")", 2⟩ rfl rfl rfl,
      ⟨.starEquals, "*=", 2⟩, by decide⟩,
   ⟨.integer ⟨.integer, "3", 2⟩ 3 rfl (by decide), ⟨.assignment, "=", 2⟩, by decide⟩]

/-- The law at both chains, up to an end of input. -/
theorem assignments_nest_mixed :
    (∃ token e, parseTokens (Step.tokensEach nestedSteps ++ [⟨.identifier, "c", 2⟩] ++
          [Token.eof 2]) = (⟨[some (.expression token e)]⟩, []) ∧
        Expr.Nests ⟨.identifier, "c", 2⟩ nestedSteps e) ∧
      parseTokens (Step.tokensEach spoiledSteps ++ [⟨.identifier, "c", 2⟩] ++ [Token.eof 2]) =
        (⟨[none]⟩, [⟨.invalidAssignmentTarget "*=" "f()", 2⟩]) :=
  ⟨assignments_nest nestedSteps rfl 2 (by decide) (by decide),
    assignments_nest spoiledSteps rfl 2 (by decide) (by decide)⟩

end ScriptFront
