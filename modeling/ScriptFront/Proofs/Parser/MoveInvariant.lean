import ScriptFront.Proofs.Parser.Contract

/-!
# Move invariants

The rules of a language move alike: a plan stands on a token that it has taken, steps onto another
one that it asks for by name, and asks for parts that start on the next token. What such moves keep
up, with a brace opened before each that is closed, is a *move invariant*: two kinds of states, four
relations between states, and the laws under which every plan keeps to them.

* `MoveInvariant` — the states and relations, with their laws; `MoveInvariant.contract` — what they
  say of each goal.
* `MoveInvariant.Fits` — a grammar in which no part starts or goes on at a token that the invariant
  cannot take.
* `Rule.GoesOn`, `Rule.SpansAnywhere`, `Rule.Closes` — plans that go on from a token taken, plans
  for a part that starts on the token at hand, and plans for what is left of something in braces,
  with one lemma for each way of putting plans together.
-/

namespace ScriptFront

open ScriptFront.Parser

/-! ## Kinds and causes -/

/-- The kinds that rules step onto by name, braces and the semicolon apart. -/
def Kind.named : List Kind :=
  [.identifier, .string, .openParen, .closeParen, .openBracket, .closeBracket, .comma, .colon,
   .ellipsis, .arrow, .assignment, .ifWord, .elseWord, .inWord, .caseWord, .defaultWord, .funcWord]

/-- The causes that are given for a token before it was taken. -/
def Cause.ForUntaken : Cause → Prop
  | .unexpectedToken _ | .restPatternNotLast => True
  | .misplacedToken _ detail => detail = "expected `case` or `default` inside switch"
  | _ => False

/-! ## The laws -/

/-- What the plans of a language keep up as they move. -/
structure MoveInvariant where
  /-- Where plans are free to move and what they may tell apart, and what is promised about
  statements. -/
  around : Contract
  /-- The states in which a plan has taken the token at hand. -/
  Taken : Parser → Prop
  /-- The states in which a part may be asked for on the token at hand. -/
  Open : Parser → Prop
  /-- From the first state to the second, tokens were taken behind the one at hand. -/
  Level : Parser → Parser → Prop
  /-- From the first state to the second, a part was read that starts on the token at hand. -/
  Spans : Parser → Parser → Prop
  /-- Behind the token at hand of the first state, reading failed in the second. -/
  Lost : Parser → Parser → Prop
  /-- The part that was to start on the token at hand of the first state failed in the second. -/
  Missed : Parser → Parser → Prop
  /-- The kinds of tokens that a part takes, other than braces of its own. -/
  Step : Kind → Prop
  /-- The causes that may be given for a token that was taken. -/
  Excuse : Cause → Prop
  step_named {kind : Kind} : kind ∈ Kind.named → Step kind
  excuse_of_not_forUntaken {cause : Cause} : ¬ cause.ForUntaken → Excuse cause
  /-- On a token that was taken, a plan may look at the whole window. -/
  window_eq {p : Parser} {w : Window} : Taken p → around.alike p w → w = p.window
  /-- Elsewhere it may look at the token at hand. -/
  current_eq {p : Parser} {w : Window} :
    Open p → around.alike p w → w.current = p.window.current
  free {p : Parser} : Taken p → around.free p
  open_advance {p : Parser} : Taken p → Open p.advance
  level_advance {p : Parser} : Taken p → Step p.window.peek.kind → Level p p.advance
  taken_of_step {p : Parser} : Open p → Step p.kind → Taken p
  taken_of_openCurly {p : Parser} : Open p → p.kind = .openCurly → Taken p
  level_refl {p : Parser} : Taken p → Level p p
  taken_of_level {p q : Parser} : Level p q → Taken q
  taken_of_spans {p q : Parser} : Spans p q → Taken q
  level_trans {p q r : Parser} : Level p q → Level q r → Level p r
  lost_trans {p q r : Parser} : Level p q → Lost q r → Lost p r
  spans_trans {p q r : Parser} : Spans p q → Level q r → Spans p r
  missed_trans {p q r : Parser} : Spans p q → Lost q r → Missed p r
  /-- What starts on the next token lies behind the token at hand. -/
  level_of_spans {p q : Parser} : Taken p → Spans p.advance q → Level p q
  lost_of_missed {p q : Parser} : Taken p → Missed p.advance q → Lost p q
  /-- A part may start on a token other than a brace and go on behind it. -/
  spans_of_level {p q : Parser} : Open p → Step p.kind → Level p q → Spans p q
  missed_of_lost {p q : Parser} : Open p → Step p.kind → Lost p q → Missed p q
  lost_report {p : Parser} {cause : Cause} : Taken p → Excuse cause → Lost p (p.report cause)
  missed_report {p : Parser} {cause : Cause} :
    Open p → cause.ForUntaken ∨ Step p.kind → Missed p (p.report cause)
  /-- A part in braces ends on the brace that closes its own. -/
  spans_braces {p q : Parser} : Taken p → p.kind = .openCurly → Level p q →
    q.window.peek.kind = .closeCurly → Spans p q.advance
  missed_braces {p q : Parser} : Taken p → p.kind = .openCurly → Lost p q → Missed p q
  asked_block {p : Parser} : Taken p → p.kind = .openCurly → around.asked .statements p.advance
  found_block {p q : Parser} {body : List Stmt} : Taken p → p.kind = .openCurly →
    p.advance.Later q → around.found .statements p.advance body q → Spans p q
  absent_block {p q : Parser} : Taken p → p.kind = .openCurly →
    p.advance.Later q → around.absent .statements p.advance q → Missed p q

namespace MoveInvariant

/-- What a move invariant says of each goal. The goals for what is left of something in braces end
before the closing one. -/
def contract (g : MoveInvariant) : Contract where
  free := g.around.free
  alike := g.around.alike
  asked
    | .expr _, p | .pattern, p => g.Open p
    | .list close, p | .listTail close, p => g.Taken p ∧ g.Step close
    | .stmt, p => g.around.asked .stmt p
    | .statements, p => g.around.asked .statements p
    | _, p => g.Taken p
  found
    | .expr _, p, _, q | .pattern, p, _, q => g.Spans p q
    | .pairs, p, _, q | .clauses, p, _, q | .matchCases, p, _, q | .members, p, _, q =>
      g.Level p q ∧ q.window.peek.kind = .closeCurly
    | .stmt, p, answer, q => g.around.found .stmt p answer q
    | .statements, p, answer, q => g.around.found .statements p answer q
    | _, p, _, q => g.Level p q
  absent
    | .expr _, p, q | .pattern, p, q => g.Missed p q
    | .stmt, p, q => g.around.absent .stmt p q
    | .statements, p, q => g.around.absent .statements p q
    | _, p, q => g.Lost p q

/-- No part of the language starts or goes on at a token that the invariant cannot take. -/
structure Fits (g : MoveInvariant) (grammar : Grammar) : Prop where
  first {kind : Kind} {rule : ExpressionRule} :
    grammar.trailingRule kind = some rule ∨ grammar.leading kind = some rule → rule ≠ .dict →
      g.Step kind
  dict {kind : Kind} :
    grammar.trailingRule kind = some .dict ∨ grammar.leading kind = some .dict → kind = .openCurly
  linking {kind : Kind} {power : Power} : power < grammar.powerOf kind → g.Step kind

end MoveInvariant

namespace Goal

/-- The goals that are asked for behind a token taken, and end on one. -/
def Levels (g : MoveInvariant) : Goal → Prop
  | .links _ _ | .conditional | .caseValues | .patternItems _ | .parameters _ | .names => True
  | .list close | .listTail close => g.Step close
  | _ => False

/-- The goals for what is left of something in braces. -/
def Braced : Goal → Prop
  | .pairs | .clauses | .matchCases | .members => True
  | _ => False

variable {g : MoveInvariant} {goal : Goal} {p q : Parser} {answer : goal.Answer}

/-- Such a goal may be asked for behind any token taken. -/
theorem Levels.asked (h : goal.Levels g) (hp : g.Taken p) : g.contract.asked goal p := by
  cases goal <;> first | exact hp | exact ⟨hp, h⟩ | exact h.elim

/-- The answer to such a goal ends on a token taken behind the one at hand. -/
theorem Levels.found (h : goal.Levels g) (hq : g.contract.found goal p answer q) :
    g.Level p q := by
  cases goal <;> first | exact hq | exact h.elim

/-- Where such a goal fails, it fails behind the token at hand. -/
theorem Levels.absent (h : goal.Levels g) (hq : g.contract.absent goal p q) : g.Lost p q := by
  cases goal <;> first | exact hq | exact h.elim

/-- What is left of something in braces may be asked for behind any token taken. -/
theorem Braced.asked (h : goal.Braced) (hp : g.Taken p) : g.contract.asked goal p := by
  cases goal <;> first | exact hp | exact h.elim

/-- What is left of something in braces ends in front of the closing one. -/
theorem Braced.found (h : goal.Braced) (hq : g.contract.found goal p answer q) :
    g.Level p q ∧ q.window.peek.kind = .closeCurly := by
  cases goal <;> first | exact hq | exact h.elim

/-- Where what is left of something in braces fails, it fails behind the token at hand. -/
theorem Braced.absent (h : goal.Braced) (hq : g.contract.absent goal p q) : g.Lost p q := by
  cases goal <;> first | exact hq | exact h.elim

end Goal

/-! ## Plans that keep to a move invariant -/

namespace Rule

variable {α β : Type} {g : MoveInvariant} {p : Parser}

/-- From the state, the plan goes on behind the token at hand. -/
def GoesOnAt (g : MoveInvariant) (rule : Rule α) (p : Parser) : Prop :=
  rule.Ensures g.contract (fun _ q => g.Level p q) (g.Lost p) p

/-- The plan goes on behind any token that was taken. -/
def GoesOn (g : MoveInvariant) (rule : Rule α) : Prop :=
  ∀ p, g.Taken p → rule.GoesOnAt g p

/-- From the state, the plan reads a part that starts on the token at hand. -/
def SpansAt (g : MoveInvariant) (rule : Rule α) (p : Parser) : Prop :=
  rule.Ensures g.contract (fun _ q => g.Spans p q) (g.Missed p) p

/-- The plan reads a part that starts on the token at hand, wherever one may be asked for. -/
def SpansAnywhere (g : MoveInvariant) (rule : Rule α) : Prop :=
  ∀ p, g.Open p → rule.SpansAt g p

/-- The plan reads what is left of something in braces, up to the closing one. -/
def Closes (g : MoveInvariant) (rule : Rule α) : Prop :=
  ∀ p, g.Taken p → rule.Ensures g.contract
    (fun _ q => g.Level p q ∧ q.window.peek.kind = .closeCurly) (g.Lost p) p

/-- A plan that goes on from a later token goes on from the token before, if only tokens were taken
in between. -/
theorem GoesOnAt.of_level {rule : Rule α} {q : Parser} (hlevel : g.Level p q)
    (h : rule.GoesOnAt g q) : rule.Ensures g.contract (fun _ r => g.Level p r) (g.Lost p) q :=
  h.imp (fun _ _ hr => g.level_trans hlevel hr) fun _ hr => g.lost_trans hlevel hr

/-- What goes on behind a part belongs to the part. -/
theorem GoesOnAt.of_spans {rule : Rule α} {q : Parser} (hspans : g.Spans p q)
    (h : rule.GoesOnAt g q) : rule.Ensures g.contract (fun _ r => g.Spans p r) (g.Missed p) q :=
  h.imp (fun _ _ hr => g.spans_trans hspans hr) fun _ hr => g.missed_trans hspans hr

/-- From one state, a plan goes on if its first half does and the second does anywhere. -/
theorem GoesOnAt.bind {rule : Rule α} {f : α → Rule β} (h : rule.GoesOnAt g p)
    (hf : ∀ value, (f value).GoesOn g) : (rule >>= f).GoesOnAt g p :=
  Ensures.bind (h.imp (fun value q hq => (hf value q (g.taken_of_level hq)).of_level hq)
    fun _ hq => hq)

/-- Two plans that go on, one after the other, go on. -/
theorem GoesOn.bind {rule : Rule α} {f : α → Rule β} (h : rule.GoesOn g)
    (hf : ∀ value, (f value).GoesOn g) : (rule >>= f).GoesOn g :=
  fun p hp => (h p hp).bind hf

/-- From one state, a plan reads a part if its first half does and the second goes on. -/
theorem SpansAt.bind {rule : Rule α} {f : α → Rule β} (h : rule.SpansAt g p)
    (hf : ∀ value, (f value).GoesOn g) : (rule >>= f).SpansAt g p :=
  Ensures.bind (h.imp (fun value q hq => (hf value q (g.taken_of_spans hq)).of_spans hq)
    fun _ hq => hq)

/-- A plan for a part may be followed by one that goes on. -/
theorem SpansAnywhere.bind {rule : Rule α} {f : α → Rule β} (h : rule.SpansAnywhere g)
    (hf : ∀ value, (f value).GoesOn g) : (rule >>= f).SpansAnywhere g :=
  fun p hp => (h p hp).bind hf

/-- A plan that goes on behind any token may start on one that a part can take. -/
theorem GoesOn.spansAt {rule : Rule α} (h : rule.GoesOn g) (hp : g.Open p) (hkind : g.Step p.kind) :
    rule.SpansAt g p :=
  (h p (g.taken_of_step hp hkind)).imp (fun _ _ hq => g.spans_of_level hp hkind hq)
    fun _ hq => g.missed_of_lost hp hkind hq

/-- A plan for a part that starts on the next token goes on behind the token at hand. -/
theorem SpansAt.goesOnAt_advance {next : Unit → Rule α} (hp : g.Taken p)
    (h : (next ()).SpansAt g p.advance) : (advance >>= next).GoesOnAt g p :=
  ⟨g.free hp, h.imp (fun _ _ hq => g.level_of_spans hp hq) fun _ hq => g.lost_of_missed hp hq⟩

/-- A plan that shifts the window and reads a part there goes on. -/
theorem SpansAnywhere.goesOn_advance {next : Unit → Rule α} (h : (next ()).SpansAnywhere g) :
    (advance >>= next).GoesOn g :=
  fun p hp => (h p.advance (g.open_advance hp)).goesOnAt_advance hp

/-- A plan that is done goes on. -/
theorem goesOn_pure (value : α) : (pure value : Rule α).GoesOn g :=
  fun _ hp => g.level_refl hp

/-- A plan may fail on a token taken, with a cause that is excused. -/
theorem goesOn_fail {cause : Cause} (hcause : g.Excuse cause) : (fail cause : Rule α).GoesOn g :=
  fun _ hp => g.lost_report hp hcause

/-- Where a part may be asked for, a plan may fail with a cause for tokens not taken, and with any
on a token that a part can take. -/
theorem spansAt_fail {cause : Cause} (hp : g.Open p) (hcause : cause.ForUntaken ∨ g.Step p.kind) :
    (fail cause : Rule α).SpansAt g p :=
  g.missed_report hp hcause

/-- On a token taken, a plan may look at the window. -/
theorem goesOnAt_look {next : Window → Rule α} (hp : g.Taken p) (h : (next p.window).GoesOnAt g p) :
    (look next).GoesOnAt g p :=
  ⟨fun w hw => by rw [g.window_eq hp hw], h⟩

/-- On a token taken, a plan may look at the window as a whole. -/
theorem goesOn_window : window.GoesOn g :=
  fun _ hp => goesOnAt_look hp (g.level_refl hp)

/-- On a token taken, a plan may look at that token. -/
theorem goesOn_current : current.GoesOn g :=
  fun _ hp => goesOnAt_look hp (g.level_refl hp)

/-- On a token taken, a plan may look at the next one. -/
theorem goesOn_peekIs (kind : Kind) : (peekIs kind).GoesOn g :=
  fun _ hp => goesOnAt_look hp (g.level_refl hp)

/-- A plan may look at the token at hand wherever a part may be asked for. -/
theorem ensures_current {next : Token → Rule α} {found : α → Parser → Prop}
    {absent : Parser → Prop} (hp : g.Open p)
    (h : (next p.window.current).Ensures g.contract found absent p) :
    (current >>= next).Ensures g.contract found absent p :=
  ⟨fun _ hw => congrArg next (g.current_eq hp hw), h⟩

/-- A plan for a part may look at the token that it starts on. -/
theorem spans_current {next : Token → Rule α} (h : ∀ token, (next token).SpansAnywhere g) :
    (current >>= next).SpansAnywhere g :=
  fun p hp => ensures_current hp (h _ p hp)

/-- Where a part may be asked for, a plan that looks at the window must tell from the token at hand
how to go on, unless it can take that token. -/
theorem ensures_window {next : Window → Rule α} {found : α → Parser → Prop}
    {absent : Parser → Prop} (hp : g.Open p)
    (hnext : g.Step p.kind ∨ ∀ w, w.current = p.window.current → next w = next p.window)
    (h : (next p.window).Ensures g.contract found absent p) :
    (window >>= next).Ensures g.contract found absent p := by
  refine ⟨fun w hw => ?_, h⟩
  rcases hnext with hkind | hnext
  · rw [g.window_eq (g.taken_of_step hp hkind) hw]
  · exact hnext w (g.current_eq hp hw)

/-- A choice between two plans that go on goes on. -/
theorem goesOn_ite {condition : Prop} [Decidable condition] {yes no : Rule α} (hyes : yes.GoesOn g)
    (hno : no.GoesOn g) : (if condition then yes else no).GoesOn g := by
  split
  · exact hyes
  · exact hno

/-- A step onto a token that a part can take. -/
theorem goesOnAt_advance {next : Unit → Rule α} (hp : g.Taken p)
    (hpeek : g.Step p.window.peek.kind) (h : (next ()).GoesOn g) :
    (advance >>= next).GoesOnAt g p := by
  have hlevel := g.level_advance hp hpeek
  exact ⟨g.free hp, (h p.advance (g.taken_of_level hlevel)).of_level hlevel⟩

/-- A step onto the next token if it is of the kind, and otherwise something else. -/
theorem goesOn_ifPeek {kind : Kind} {next : Unit → Rule α} {other : Rule α} (hkind : g.Step kind)
    (hnext : (next ()).GoesOn g) (hother : other.GoesOn g) :
    (peekIs kind >>= fun is => if is = true then advance >>= next else other).GoesOn g := by
  intro p hp
  refine goesOnAt_look hp ?_
  change GoesOnAt g (if decide _ = true then _ else _) p
  split
  · next hpeek => exact goesOnAt_advance hp (by rwa [of_decide_eq_true hpeek]) hnext
  · exact hother p hp

/-- A step onto a token asked for by kind goes on, if a part can take that kind. -/
theorem goesOn_expect {kind : Kind} (hkind : g.Step kind) : (expect kind).GoesOn g := by
  intro p hp
  refine goesOnAt_look hp ?_
  change GoesOnAt g (if _ then _ else _) p
  split
  · next hpeek => exact goesOnAt_advance hp (by rwa [hpeek]) (goesOn_pure ())
  · exact goesOn_fail (g.excuse_of_not_forUntaken id) p hp

/-- A step onto a name goes on. -/
theorem goesOn_expectIdentifier : expectIdentifier.GoesOn g :=
  (goesOn_expect (g.step_named (by decide))).bind fun _ => goesOn_current.bind fun _ =>
    goesOn_pure _

/-! ### Goals -/

/-- A goal that is asked for behind a token taken. -/
theorem goesOn_need {goal : Goal} {next : goal.Answer → Rule α} (hgoal : goal.Levels g)
    (hnext : ∀ answer, (next answer).GoesOn g) : (need goal next).GoesOn g := by
  intro p hp
  refine ⟨hgoal.asked hp, fun answer q _ hq => ?_, fun q _ hq => hgoal.absent hq⟩
  have hlevel := hgoal.found hq
  exact (hnext answer q (g.taken_of_level hlevel)).of_level hlevel

/-- An expression is a part that starts on the token at hand. -/
theorem spans_expr (power : Power) : (expr power).SpansAnywhere g :=
  fun _ hp => ⟨hp, fun _ _ _ hq => hq, fun _ _ hq => hq⟩

/-- A pattern is a part that starts on the token at hand. -/
theorem spans_pattern : pattern.SpansAnywhere g :=
  fun _ hp => ⟨hp, fun _ _ _ hq => hq, fun _ _ hq => hq⟩

/-- An expression that starts on the next token goes on. -/
theorem goesOn_nextExpr : nextExpr.GoesOn g :=
  (spans_expr .default).goesOn_advance

/-- A list of expressions goes on, up to a closing bracket that a part can take. -/
theorem goesOn_list {close : Kind} (hclose : g.Step close) : (list close).GoesOn g :=
  goesOn_need hclose fun _ => goesOn_pure _

/-! ### Braces -/

/-- Something in braces, asked for on the opening one and ending before the closing one. -/
theorem spansAt_braces {goal : Goal} {next : goal.Answer → Rule α} (hgoal : goal.Braced)
    (hnext : ∀ answer, (next answer).GoesOn g) (hp : g.Taken p) (hkind : p.kind = .openCurly) :
    (need goal fun answer => advance >>= fun _ => next answer).SpansAt g p := by
  refine ⟨hgoal.asked hp, fun answer q _ hq => ?_, fun q _ hq =>
    g.missed_braces hp hkind (hgoal.absent hq)⟩
  obtain ⟨hlevel, hpeek⟩ := hgoal.found hq
  have hspans := g.spans_braces hp hkind hlevel hpeek
  exact ⟨g.free (g.taken_of_level hlevel),
    (hnext answer q.advance (g.taken_of_spans hspans)).of_spans hspans⟩

/-- What is left of something in braces closes, if one member goes on and those after it close. -/
theorem closes_untilBrace (construct : String) {member : Rule α} {more : Rule (List α)}
    (hmember : member.GoesOn g) (hmore : more.Closes g) :
    (untilBrace construct member more).Closes g := by
  intro p hp
  refine ⟨fun w hw => by rw [g.window_eq hp hw], ?_⟩
  change Ensures g.contract _ _ (if _ then _ else if _ then _ else _) p
  split
  · next hpeek => exact ⟨g.level_refl hp, hpeek⟩
  · split
    · exact g.lost_report hp (g.excuse_of_not_forUntaken id)
    · refine Ensures.bind ((hmember p hp).imp (fun first q hq => Ensures.bind ?_) fun _ hq => hq)
      exact (hmore q (g.taken_of_level hq)).imp
        (fun rest r hr => ⟨g.level_trans hq hr.1, hr.2⟩) fun r hr => g.lost_trans hq hr

/-- A goal for what is left of something in braces closes. -/
theorem closes_need {goal : Goal} {f : goal.Answer → α} (hgoal : goal.Braced) :
    (need goal fun answer => done (f answer)).Closes g :=
  fun _ hp => ⟨hgoal.asked hp, fun _ _ _ hq => hgoal.found hq, fun _ _ hq => hgoal.absent hq⟩

/-- Something that starts on an opening brace, which is the next token. -/
theorem goesOn_expect_openCurly {rule : Unit → Rule α}
    (h : ∀ p, g.Taken p → p.kind = .openCurly → (rule ()).SpansAt g p) :
    (expect .openCurly >>= rule).GoesOn g := by
  intro p hp
  refine goesOnAt_look hp ?_
  change GoesOnAt g (Rule.bind (if _ then _ else _) rule) p
  split
  · next hpeek =>
    have htaken := g.taken_of_openCurly (g.open_advance hp) hpeek
    exact (h p.advance htaken hpeek).goesOnAt_advance hp
  · exact goesOn_fail (g.excuse_of_not_forUntaken id) p hp

/-- A block is a part that starts on its opening brace. -/
theorem spansAt_block (hp : g.Taken p) (hkind : p.kind = .openCurly) : block.SpansAt g p :=
  ⟨fun w hw => by rw [g.window_eq hp hw], g.free hp, g.asked_block hp hkind,
    fun _ _ hlater hq => g.found_block hp hkind hlater hq,
    fun _ hlater hq => g.absent_block hp hkind hlater hq⟩

/-- A block that starts on the next token goes on. -/
theorem goesOn_body : body.GoesOn g :=
  goesOn_expect_openCurly fun _ hp hkind => spansAt_block hp hkind

/-! ### Semicolons -/

/-- The state is one of these, or the semicolon right behind one is at hand. -/
def UpToSemicolon (reached : Parser → Prop) (q : Parser) : Prop :=
  reached q ∨ ∃ r, reached r ∧ r.window.peek.kind = .semicolon ∧ q = r.advance

/-- What is reached up to a semicolon may be said to be more. -/
theorem UpToSemicolon.imp {reached reached' : Parser → Prop} {q : Parser}
    (h : UpToSemicolon reached q) (himp : ∀ r, reached r → reached' r) :
    UpToSemicolon reached' q := by
  rcases h with h | ⟨r, h, hpeek, hq⟩
  · exact .inl (himp q h)
  · exact .inr ⟨r, himp r h, hpeek, hq⟩

/-- A semicolon behind what was read may be taken with it. -/
theorem ensures_skipSemicolon {rule : Rule β} {f : β → α} {reached : Parser → Prop}
    {absent : Parser → Prop} (htaken : ∀ q, reached q → g.Taken q)
    (h : rule.Ensures g.contract (fun _ q => reached q) absent p) :
    (rule >>= fun value => skipSemicolon >>= fun _ => pure (f value)).Ensures g.contract
      (fun _ q => UpToSemicolon reached q) absent p := by
  refine Ensures.bind (h.imp (fun value q hq => ?_) fun _ hq => hq)
  refine ⟨fun w hw => by rw [g.window_eq (htaken q hq) hw], ?_⟩
  change Ensures g.contract _ _ (Rule.bind (if decide _ = true then _ else _) _) q
  split
  · next hpeek => exact ⟨g.free (htaken q hq), .inr ⟨q, hq, of_decide_eq_true hpeek, rfl⟩⟩
  · exact .inl hq

/-- From the state, the plan goes on behind the token at hand, and may end on a semicolon. -/
def TrailsAt (g : MoveInvariant) (rule : Rule α) (p : Parser) : Prop :=
  rule.Ensures g.contract (fun _ q => UpToSemicolon (g.Level p) q) (g.Lost p) p

/-- The plan goes on behind any token that was taken, and may end on a semicolon. -/
def Trails (g : MoveInvariant) (rule : Rule α) : Prop :=
  ∀ p, g.Taken p → rule.TrailsAt g p

/-- From one state, a plan trails if its first half goes on and the second trails. -/
theorem GoesOnAt.bind_trails {rule : Rule α} {f : α → Rule β} (h : rule.GoesOnAt g p)
    (hf : ∀ value, (f value).Trails g) : (rule >>= f).TrailsAt g p :=
  Ensures.bind (h.imp (fun value q hq => (hf value q (g.taken_of_level hq)).imp
    (fun _ _ hr => hr.imp fun _ hlevel => g.level_trans hq hlevel)
    fun _ hr => g.lost_trans hq hr) fun _ hq => hq)

/-- A plan that goes on may be followed by one that trails. -/
theorem GoesOn.bind_trails {rule : Rule α} {f : α → Rule β} (h : rule.GoesOn g)
    (hf : ∀ value, (f value).Trails g) : (rule >>= f).Trails g :=
  fun p hp => (h p hp).bind_trails hf

/-- A plan that goes on trails, with no semicolon taken. -/
theorem GoesOn.trails {rule : Rule α} (h : rule.GoesOn g) : rule.Trails g :=
  fun p hp => (h p hp).imp (fun _ _ hq => .inl hq) fun _ hq => hq

/-- A plan that goes on may take a semicolon at its end. -/
theorem GoesOn.trails_skipSemicolon {rule : Rule β} {f : β → α} (h : rule.GoesOn g) :
    (rule >>= fun value => skipSemicolon >>= fun _ => pure (f value)).Trails g :=
  fun p hp => ensures_skipSemicolon (fun _ hq => g.taken_of_level hq) (h p hp)

/-- What is given behind the semicolon does not matter. -/
theorem Trails.map {rule : Rule β} {f : β → α} (h : rule.Trails g) :
    (rule >>= fun value => pure (f value)).Trails g :=
  fun p hp => Ensures.bind (h p hp)

end Rule

end ScriptFront
