import ScriptFront.Proofs.Parser.TakenTokensKept
import ScriptFront.Proofs.Tree.Law

/-!
# Plans that build well-formed trees

Every goal that is found has an answer that obeys the law `wellFormed`, whatever went wrong before
and whatever is wrong behind it. The only thing that is asked for in return is that the left operand
of an expression which goes on obeys the law itself.

* `Parser.Sees` — the tokens in sight, now and later, are known or ends of input.
* `Goal.Sound` — what the law says of the answer to a goal.
* `soundness` — the contract that every answer is sound.
* `Rule.Builds`, `Rule.Makes` — the plan gives only values with a property, from a state or from
  every state, with one lemma for each way of putting plans together.
-/

namespace ScriptFront

open ScriptFront.Parser

variable {known : Token → Prop}

/-! ## The tokens in sight -/

namespace Parser

variable {p q : Parser}

/-- Every token that is in sight, now or later, is known unless it is an end of input. -/
def Sees (known : Token → Prop) (p : Parser) : Prop :=
  ∀ q, Later p q → ∀ token ∈ [q.window.previous, q.window.current, q.window.peek],
    token.kind ≠ .eof → known token

/-- What is known in sight stays known later. -/
theorem Sees.later (h : p.Sees known) (hlater : Later p q) : q.Sees known :=
  fun r hr => h r (hlater.trans hr)

/-- A shift brings only known tokens into sight. -/
theorem Sees.advance (h : p.Sees known) : p.advance.Sees known :=
  h.later Later.refl.advance

/-- The token taken before is known, unless it is an end of input. -/
theorem Sees.previous (h : p.Sees known) (hkind : p.window.previous.kind ≠ .eof) :
    known p.window.previous :=
  h p .refl _ (by simp) hkind

/-- The token at hand is known, unless it is an end of input. -/
theorem Sees.current (h : p.Sees known) (hkind : p.window.current.kind ≠ .eof) :
    known p.window.current :=
  h p .refl _ (by simp) hkind

/-- A name that was read from a token in sight obeys the law. -/
theorem Sees.name_ofToken (h : p.Sees known) (hkind : p.window.current.kind = .identifier) :
    (wellFormed known).name (Identifier.ofToken p.window.current) :=
  ⟨h.current (by simp [hkind]), hkind, rfl⟩

/-- What a parser for a list of tokens has in sight and to come is from the list. -/
theorem sees_ofTokens (tokens : List Token) : (ofTokens tokens).Sees (· ∈ tokens) := by
  have hnext : ∀ {rest : List Token} {line : Nat}, rest ⊆ tokens →
      ((Source.list rest line).next.1.kind = .eof ∨ (Source.list rest line).next.1 ∈ tokens) ∧
        ∃ rest' line', (Source.list rest line).next.2 = .list rest' line' ∧ rest' ⊆ tokens := by
    intro rest line hrest
    cases rest with
    | nil => exact ⟨.inl rfl, [], line, rfl, hrest⟩
    | cons first rest =>
      rw [List.cons_subset] at hrest
      exact ⟨.inr hrest.1, rest, first.line, rfl, hrest.2⟩
  have hdrawn : ∀ q, Later (ofTokens tokens) q →
      (∀ token ∈ [q.window.previous, q.window.current, q.window.peek],
        token.kind = .eof ∨ token ∈ tokens) ∧
      ∃ rest line, q.source = .list rest line ∧ rest ⊆ tokens := by
    intro q hq
    induction hq with
    | refl =>
      obtain ⟨hcurrent, rest, line, hrest, hsubset⟩ := @hnext tokens 1 (List.Subset.refl tokens)
      obtain ⟨hpeek, hlater⟩ := @hnext rest line hsubset
      rw [← hrest] at hpeek hlater
      refine ⟨?_, hlater⟩
      simpa [List.forall_mem_cons] using ⟨.inl rfl, hcurrent, hpeek⟩
    | @advance q _ ih =>
      obtain ⟨hwindow, rest, line, hsource, hsubset⟩ := ih
      obtain ⟨hpeek, hlater⟩ := @hnext rest line hsubset
      rw [← hsource] at hpeek hlater
      refine ⟨?_, hlater⟩
      simp only [List.forall_mem_cons] at hwindow ⊢
      exact ⟨hwindow.2.1, hwindow.2.2.1, hpeek, by simp⟩
    | report _ _ ih => exact ih
  intro q hq token htoken hkind
  exact ((hdrawn q hq).1 token htoken).resolve_left hkind

end Parser

/-! ## The contract -/

/-- What the law says of the items of an array pattern. -/
def ItemsSound (known : Token → Prop) (items : List Expr × Option Identifier) : Prop :=
  Expr.ObeysEach (wellFormed known) .pattern items.1 ∧ ∀ id ∈ items.2, (wellFormed known).name id

/-- What holds of parameters behind one with a default or not: the law, and that no parameter
without a default stands behind one with a default. -/
def ParametersSound (known : Token → Prop) (defaultSeen : Bool) (parameters : List Parameter) :
    Prop :=
  (∀ parameter ∈ parameters, (wellFormed known).name parameter.1 ∧
      ∀ value ∈ parameter.2, value.Obeys (wellFormed known) .operand) ∧
    parameters.Pairwise (fun p q => p.2.isSome → q.2.isSome) ∧
    (defaultSeen = true → ∀ parameter ∈ parameters, parameter.2.isSome)

/-- What holds of the answer to a goal: the law, and that an import has names. -/
def Goal.Sound (known : Token → Prop) : (goal : Goal) → goal.Answer → Prop
  | .expr _, e | .links _ _, e | .conditional, e => e.Obeys (wellFormed known) .operand
  | .list _, elements | .listTail _, elements | .caseValues, elements =>
    Expr.ObeysEach (wellFormed known) .operand elements
  | .pairs, entries => Expr.ObeysPairs (wellFormed known) entries
  | .clauses, cases => CaseClause.ObeysEach (wellFormed known) cases
  | .matchCases, cases => MatchCase.ObeysEach (wellFormed known) cases
  | .pattern, e => e.Obeys (wellFormed known) .pattern
  | .patternItems _, items => ItemsSound known items
  | .parameters defaultSeen, declared => ParametersSound known defaultSeen declared
  | .names, ids => ids ≠ [] ∧ ∀ id ∈ ids, (wellFormed known).name id
  | .members, entries => Stmt.ObeysMembers (wellFormed known) entries
  | .stmt, statement => statement.Obeys (wellFormed known)
  | .statements, body => Stmt.ObeysEach (wellFormed known) body

/-- What must hold of a goal that is asked for. -/
def Goal.Ready (known : Token → Prop) : Goal → Prop
  | .links _ left => left.Obeys (wellFormed known) .operand
  | _ => True

/-- Every answer is sound, as long as the tokens in sight are known. -/
def soundness (known : Token → Prop) : Contract where
  free _ := True
  alike p w := w = p.window
  asked goal p := p.Sees known ∧ goal.Ready known
  found goal _ answer _ := goal.Sound known answer
  absent _ _ _ := True

namespace Rule

variable {α β : Type} {p : Parser} {post : α → Prop}

/-- Followed from the state, the plan gives only values with the property, and leaves known tokens
in sight. -/
def Builds (known : Token → Prop) (rule : Rule α) (p : Parser) (post : α → Prop) : Prop :=
  rule.Ensures (soundness known) (fun value q => q.Sees known ∧ post value) (fun _ => True) p

/-- The same from every state with known tokens in sight. -/
def Makes (known : Token → Prop) (rule : Rule α) (post : α → Prop) : Prop :=
  ∀ p : Parser, p.Sees known → rule.Builds known p post

/-! ### Single steps -/

/-- A plan that is done gives what has the property. -/
theorem builds_pure {value : α} (hp : p.Sees known) (h : post value) :
    (pure value : Rule α).Builds known p post :=
  ⟨hp, h⟩

/-- A plan that is done gives what has the property, from every state. -/
theorem makes_pure {value : α} (h : post value) : (pure value : Rule α).Makes known post :=
  fun _ hp => builds_pure hp h

/-- A plan that fails gives nothing that would break the law. -/
theorem builds_fail (cause : Cause) : (fail cause : Rule α).Builds known p post :=
  trivial

/-- A plan may look at the window. -/
theorem builds_look {next : Window → Rule α} (h : (next p.window).Builds known p post) :
    (look next).Builds known p post :=
  ⟨fun _ hw => congrArg next hw, h⟩

/-- A plan may look at the token at hand. -/
theorem builds_current {next : Token → Rule α} (h : (next p.window.current).Builds known p post) :
    (current >>= next).Builds known p post :=
  builds_look h

/-- A plan may shift the window. -/
theorem builds_advance {next : Unit → Rule α} (h : (next ()).Builds known p.advance post) :
    (advance >>= next).Builds known p post :=
  ⟨trivial, h⟩

/-- A plan may ask for a goal, and goes on with a sound answer. -/
theorem builds_need {goal : Goal} {next : goal.Answer → Rule α} (hp : p.Sees known)
    (hready : goal.Ready known)
    (h : ∀ answer, goal.Sound known answer → (next answer).Makes known post) :
    (need goal next).Builds known p post :=
  ⟨⟨hp, hready⟩, fun answer q hlater hanswer => h answer hanswer q (hp.later hlater),
    fun _ _ _ => trivial⟩

/-- A plan may ask for a goal and, where it fails, for another behind a fresh start. -/
theorem builds_salvage {goal rest : Goal} {next : goal.Answer → Rule α} (hp : p.Sees known)
    (hready : goal.Ready known) (hrest : rest.Ready known)
    (h : ∀ answer, goal.Sound known answer → (next answer).Makes known post) :
    (salvage goal next rest).Builds known p post := by
  refine ⟨trivial, ⟨hp, hready⟩, fun answer q hlater hanswer =>
    h answer hanswer q (hp.later hlater),
    fun q hlater _ => ⟨⟨?_, hrest⟩, fun _ _ _ => trivial, fun _ _ => trivial⟩⟩
  exact hp.later (hlater.trans (synchronize_later q p.checkpoint true))

/-- From one state, plans one after the other give what the second makes of the first's value. -/
theorem Builds.bind {rule : Rule β} {f : β → Rule α} {first : β → Prop}
    (h : rule.Builds known p first) (hnext : ∀ value, first value → (f value).Makes known post) :
    (rule >>= f).Builds known p post := by
  refine Ensures.bind (Ensures.imp h ?_ fun _ _ => trivial)
  rintro value q ⟨hq, hvalue⟩
  exact hnext value hvalue q hq

/-- From every state, plans one after the other give what the second makes of the first's value. -/
theorem Makes.bind {rule : Rule β} {f : β → Rule α} {first : β → Prop}
    (h : rule.Makes known first) (hnext : ∀ value, first value → (f value).Makes known post) :
    (rule >>= f).Makes known post :=
  fun p hp => (h p hp).bind hnext

/-- What is given may be said to have less. -/
theorem Makes.imp {rule : Rule α} {first : α → Prop} (h : rule.Makes known first)
    (hpost : ∀ value, first value → post value) : rule.Makes known post :=
  fun p hp => Ensures.imp (h p hp) (fun value _ hq => ⟨hq.1, hpost value hq.2⟩) fun _ _ => trivial

/-- From one state, a choice by the kind of the next token gives what both plans give. -/
theorem builds_ifPeek {kind : Kind} {yes no : Rule α}
    (hyes : p.window.peek.kind = kind → yes.Builds known p post)
    (hno : no.Builds known p post) :
    (peekIs kind >>= fun is => if is = true then yes else no).Builds known p post := by
  refine builds_look ?_
  change Builds known (if decide _ = true then _ else _) p post
  split
  · next hpeek => exact hyes (of_decide_eq_true hpeek)
  · exact hno

/-- A step onto the next token if it is of the kind, and otherwise something else. -/
theorem makes_ifNext {kind : Kind} {next : Unit → Rule α} {other : Rule α}
    (hnext : (next ()).Makes known post) (hother : other.Makes known post) :
    (peekIs kind >>= fun is => if is = true then advance >>= next else other).Makes known post :=
  fun p hp => builds_ifPeek (fun _ => builds_advance (hnext _ hp.advance)) (hother p hp)

/-! ### Small plans -/

/-- From one state, what follows a step onto a token of the kind is read with that token at hand. -/
theorem builds_expect {kind : Kind} {next : Unit → Rule α}
    (h : p.window.peek.kind = kind → (next ()).Builds known p.advance post) :
    (expect kind >>= next).Builds known p post := by
  refine builds_look ?_
  change Builds known (Rule.bind (if _ then _ else _) next) p post
  split
  · next hpeek => exact builds_advance (h hpeek)
  · exact builds_fail _

/-- A step onto a token asked for by kind may stand in front. -/
theorem makes_expect {kind : Kind} {next : Unit → Rule α} (h : (next ()).Makes known post) :
    (expect kind >>= next).Makes known post :=
  fun _ hp => builds_expect fun _ => h _ hp.advance

/-- A step onto a name gives a name that obeys the law. -/
theorem makes_expectIdentifier : expectIdentifier.Makes known (wellFormed known).name := by
  intro p hp
  refine builds_expect fun hpeek => builds_current ?_
  exact builds_pure hp.advance (hp.advance.name_ofToken hpeek)

/-- A semicolon that may be taken may stand in front. -/
theorem makes_skipSemicolon {next : Unit → Rule α} (h : (next ()).Makes known post) :
    (skipSemicolon >>= next).Makes known post := by
  have hskip : skipSemicolon.Makes known fun _ => True :=
    makes_ifNext (makes_pure trivial) (makes_pure trivial)
  exact hskip.bind fun _ _ => h

/-- A goal that is asked for gives a sound answer. -/
theorem makes_need (goal : Goal) (hready : goal.Ready known) :
    (need goal done).Makes known (goal.Sound known) :=
  fun _ hp => builds_need hp hready fun _ h => makes_pure h

/-- An expression that was asked for obeys the law. -/
theorem makes_expr (power : Power) :
    (expr power).Makes known fun e => e.Obeys (wellFormed known) .operand :=
  makes_need (.expr power) trivial

/-- An expression on the next token obeys the law. -/
theorem makes_nextExpr : nextExpr.Makes known fun e => e.Obeys (wellFormed known) .operand :=
  fun _ hp => builds_advance (makes_expr .default _ hp.advance)

/-- The expressions of a list obey the law. -/
theorem makes_list (close : Kind) :
    (list close).Makes known (Expr.ObeysEach (wellFormed known) .operand) :=
  makes_need (.list close) trivial

/-- A pattern obeys the law for patterns. -/
theorem makes_pattern : pattern.Makes known fun e => e.Obeys (wellFormed known) .pattern :=
  makes_need .pattern trivial

/-- A block obeys the law. -/
theorem makes_block : block.Makes known (Block.Obeys (wellFormed known)) :=
  fun _ hp => builds_current <| builds_advance <|
    builds_need hp.advance trivial fun _ h => makes_pure h

/-- A block on the next token obeys the law. -/
theorem makes_body : body.Makes known (Block.Obeys (wellFormed known)) :=
  makes_expect makes_block

end Rule

end ScriptFront
