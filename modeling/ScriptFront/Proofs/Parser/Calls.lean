import ScriptFront.Proofs.Parser.Composition

/-!
# What is asked for

A reading asks for goals, which ask for goals in turn. `Parser.calls` lists what is asked for while
a goal is pursued, with the parser that asks, in the order of asking; it follows the same plans as
the pursuit itself. `Parser.programCalls` does so for a whole program.

* `Promise` — what is said of a goal that is found: of the parser that asks for it, the answer, the
  parser behind it and the calls.
* `Rule.Delivers` — what a plan gives when all goals that it asks for keep the promise, with one
  lemma for each way of putting plans together.
* `Promise.Kept`, `Promise.pursue` — a promise that every plan delivers holds of every reading.
* `reaching_kept` — what is found is reached by shifts, and so is every parser that asks on the way.
* `slotCalls_of_clean` — the calls of a program that is read without a diagnostic, round by round.
-/

namespace ScriptFront

/-- A goal that is asked for. -/
structure Call where
  /-- What is asked for. -/
  goal : Goal
  /-- The parser that asks. -/
  parser : Parser

/-! ## The calls of a reading -/

/-- What is asked for while a plan is followed. -/
def Rule.calls {α : Type} (pursue : (goal : Goal) → Reading goal.Answer)
    (calls : Goal → Parser → List Call) : Rule α → Parser → List Call
  | done _, _ | fail _, _ => []
  | look next, p => (next p.window).calls pursue calls p
  | shift next, p => next.calls pursue calls p.advance
  | need goal next, p =>
    calls goal p ++
      match pursue goal p with
      | (.found answer, after) => (next answer).calls pursue calls after
      | _ => []
  | salvage goal next rest, p =>
    calls goal p ++
      match pursue goal p with
      | (.found answer, after) => (next answer).calls pursue calls after
      | (.absent, after) => calls rest (after.synchronize p.checkpoint true)
      | (.exhausted, _) => []

namespace Parser

/-- What is asked for while a goal is pursued, the goal itself first. -/
def calls : Nat → Goal → Parser → List Call
  | 0, goal, p => [⟨goal, p⟩]
  | budget + 1, goal, p =>
    ⟨goal, p⟩ :: (p.grammar.body goal).calls (pursue budget) (calls budget) p

/-- What is asked for while statements are read, at most `rounds` of them. -/
def slotCalls (budget : Nat) : Nat → Parser → List Call
  | 0, _ => []
  | rounds + 1, p =>
    if p.kind = .eof then []
    else
      calls budget .stmt p ++
        match pursue budget .stmt p with
        | (.found _, after) => slotCalls budget rounds after.advance
        | (.absent, after) => slotCalls budget rounds (after.synchronize p.checkpoint false)
        | (.exhausted, _) => []

/-- What is asked for while a program is read. -/
def programCalls (p : Parser) : List Call :=
  p.slotCalls p.budget p.remaining

end Parser

/-! ## Promises -/

/-- What is said of a goal that is found: of the parser that asks, the answer, the parser behind it
and the calls. -/
abbrev Promise := (goal : Goal) → Parser → goal.Answer → Parser → List Call → Prop

namespace Rule

variable {α β : Type} {promise : Promise} {post post' : α → Parser → List Call → Prop}
  {before front : List Call} {p q : Parser} {rule : Rule α}

/-- When the plan is done, and every goal that it asked for kept the promise, its value, the parser
and the calls from the given ones on have the property. -/
def Delivers (promise : Promise) (post : α → Parser → List Call → Prop) :
    Rule α → List Call → Parser → Prop
  | done value, before, p => post value p before
  | fail _, _, _ => True
  | look next, before, p => (next p.window).Delivers promise post before p
  | shift next, before, p => next.Delivers promise post before p.advance
  | need goal next, before, p | salvage goal next _, before, p =>
    ∀ answer q calls, promise goal p answer q calls →
      (next answer).Delivers promise post (before ++ calls) q

/-- Less may be said of what a plan gives. -/
theorem Delivers.imp (h : rule.Delivers promise post before p)
    (hpost : ∀ value q calls, post value q calls → post' value q calls) :
    rule.Delivers promise post' before p := by
  induction rule generalizing p before with
  | done value => exact hpost value p before h
  | fail cause => trivial
  | look next ih => exact ih p.window h
  | shift next ih => exact ih h
  | need goal next ih | salvage goal next rest ih =>
    exact fun answer q calls hq => ih answer (h answer q calls hq)

/-- Further calls in front stay there. -/
theorem Delivers.frame
    (h : rule.Delivers promise (fun value q calls => post value q (front ++ calls)) before p) :
    rule.Delivers promise post (front ++ before) p := by
  induction rule generalizing p before with
  | done value => exact h
  | fail cause => trivial
  | look next ih => exact ih p.window h
  | shift next ih => exact ih h
  | need goal next ih | salvage goal next rest ih =>
    intro answer q calls hq
    rw [List.append_assoc]
    exact ih answer (h answer q calls hq)

/-- What a plan gives behind calls in front is known without them. -/
theorem Delivers.unframe (h : rule.Delivers promise post (front ++ before) p) :
    rule.Delivers promise (fun value q calls => post value q (front ++ calls)) before p := by
  induction rule generalizing p before with
  | done value => exact h
  | fail cause => trivial
  | look next ih => exact ih p.window h
  | shift next ih => exact ih h
  | need goal next ih | salvage goal next rest ih =>
    intro answer q calls hq
    refine ih answer ?_
    rw [← List.append_assoc]
    exact h answer q calls hq

/-- A plan goes on with what the plan before it has given. -/
theorem Delivers.bind {rule : Rule β} {f : β → Rule α} {first : β → Parser → List Call → Prop}
    (h : rule.Delivers promise first before p)
    (hnext : ∀ value q calls, first value q calls → (f value).Delivers promise post calls q) :
    (rule >>= f).Delivers promise post before p := by
  change (rule.bind f).Delivers promise post before p
  induction rule generalizing p before with
  | done value => exact hnext value p before h
  | fail cause => trivial
  | look next ih => exact ih p.window h
  | shift next ih => exact ih h
  | need goal next ih | salvage goal next rest ih =>
    exact fun answer q calls hq => ih answer (h answer q calls hq)

/-- A plan behind other calls: what it gives is known from what it gives on its own. -/
theorem Delivers.behind {first : α → Parser → List Call → Prop}
    (h : rule.Delivers promise first [] p)
    (hpost : ∀ value q calls, first value q calls → post value q (before ++ calls)) :
    rule.Delivers promise post before p := by
  rw [← List.append_nil before]
  exact Delivers.frame (h.imp hpost)

/-- A plan goes on behind another of which it is known what it gives on its own. -/
theorem Delivers.seq {rule : Rule β} {f : β → Rule α} {first : β → Parser → List Call → Prop}
    (h : rule.Delivers promise first [] p)
    (hnext : ∀ value q calls, first value q calls →
      (f value).Delivers promise post (before ++ calls) q) :
    (rule >>= f).Delivers promise post before p := by
  have hrule : rule.Delivers promise
      (fun value q calls => (f value).Delivers promise post calls q) before p := h.behind hnext
  exact hrule.bind fun _ _ _ h => h

/-- What holds for every instance holds for all of them at once. -/
theorem delivers_forall {ι : Sort*} {posts : ι → α → Parser → List Call → Prop}
    (h : ∀ i, rule.Delivers promise (posts i) before p) :
    rule.Delivers promise (fun value q calls => ∀ i, posts i value q calls) before p := by
  induction rule generalizing p before with
  | done value => exact h
  | fail cause => trivial
  | look next ih => exact ih p.window h
  | shift next ih => exact ih h
  | need goal next ih | salvage goal next rest ih =>
    exact fun answer q calls hq => ih answer fun i => h i answer q calls hq

/-- A plan that is done has made no further calls. -/
theorem delivers_pure {value : α} (h : post value p before) :
    (pure value : Rule α).Delivers promise post before p :=
  h

/-- A plan that fails gives nothing. -/
theorem delivers_fail (cause : Cause) : (fail cause : Rule α).Delivers promise post before p :=
  trivial

/-- A plan may look at the window. -/
theorem delivers_look {next : Window → Rule α}
    (h : (next p.window).Delivers promise post before p) :
    (look next).Delivers promise post before p :=
  h

/-- A plan may look at the token at hand. -/
theorem delivers_current {next : Token → Rule α}
    (h : (next p.window.current).Delivers promise post before p) :
    (current >>= next).Delivers promise post before p :=
  h

/-- A shift is no call. -/
theorem delivers_advance {next : Unit → Rule α}
    (h : (next ()).Delivers promise post before p.advance) :
    (advance >>= next).Delivers promise post before p :=
  h

/-- A goal that is asked for adds the calls that it makes. -/
theorem delivers_need {goal : Goal} {next : goal.Answer → Rule α}
    (h : ∀ answer q calls, promise goal p answer q calls →
      (next answer).Delivers promise post (before ++ calls) q) :
    (need goal next).Delivers promise post before p :=
  h

/-- A choice by the kind of the next token gives what both plans give. -/
theorem delivers_ifPeek {kind : Kind} {yes no : Rule α}
    (hyes : p.window.peek.kind = kind → yes.Delivers promise post before p)
    (hno : no.Delivers promise post before p) :
    (peekIs kind >>= fun is => if is = true then yes else no).Delivers promise post before p := by
  change Delivers promise post (if decide _ = true then _ else _) before p
  split
  · next hpeek => exact hyes (of_decide_eq_true hpeek)
  · exact hno

/-- A token asked for by kind is no call. -/
theorem delivers_expect {kind : Kind} {next : Unit → Rule α}
    (h : p.window.peek.kind = kind → (next ()).Delivers promise post before p.advance) :
    (expect kind >>= next).Delivers promise post before p := by
  change Delivers promise post (Rule.bind (if _ then _ else _) next) before p
  split
  · next hpeek => exact h hpeek
  · exact delivers_fail _

/-- A name that is taken is no call. -/
theorem delivers_expectIdentifier {next : Identifier → Rule α}
    (h : ∀ id q, (next id).Delivers promise post before q) :
    (expectIdentifier >>= next).Delivers promise post before p := by
  have hname : expectIdentifier.Delivers promise (fun _ _ calls => calls = before) before p :=
    delivers_expect fun _ => delivers_current (delivers_pure rfl)
  refine hname.bind ?_
  rintro id q _ rfl
  exact h id q

/-- A plan that is done has delivered, if the goals that it asked for kept the promise. -/
theorem Delivers.follow {pursue : (goal : Goal) → Reading goal.Answer}
    {calls : Goal → Parser → List Call} {value : α} (h : rule.Delivers promise post before p)
    (hlater : ∀ goal p, Parser.Later p (pursue goal p).2)
    (hpursue : ∀ goal p answer q, p.grammar = .standard → pursue goal p = (.found answer, q) →
      promise goal p answer q (calls goal p))
    (hgrammar : p.grammar = .standard) (hrun : rule.follow pursue p = (.found value, q)) :
    post value q (before ++ rule.calls pursue calls p) := by
  induction rule generalizing p before with
  | done value =>
    cases hrun
    rw [Rule.calls, List.append_nil]
    exact h
  | fail cause => cases hrun
  | look next ih => exact ih p.window h hgrammar hrun
  | shift next ih => exact ih h hgrammar hrun
  | need goal next ih =>
    have hafter := hlater goal p
    simp only [Rule.follow] at hrun
    rcases heq : pursue goal p with ⟨answer | _ | _, after⟩ <;> rw [heq] at hrun hafter
    · simp only [Rule.calls, heq]
      rw [← List.append_assoc before]
      exact ih answer (h answer after _ (hpursue goal p answer after hgrammar heq))
        (hafter.grammar_eq.trans hgrammar) hrun
    · cases hrun
    · cases hrun
  | salvage goal next rest ih =>
    have hafter := hlater goal p
    simp only [Rule.follow] at hrun
    rcases heq : pursue goal p with ⟨answer | _ | _, after⟩ <;> rw [heq] at hrun hafter
    · simp only [Rule.calls, heq]
      rw [← List.append_assoc before]
      exact ih answer (h answer after _ (hpursue goal p answer after hgrammar heq))
        (hafter.grammar_eq.trans hgrammar) hrun
    · -- a part that is asked for to find faults is never found
      have hreply := congrArg Prod.fst hrun
      cases hrest : (pursue rest (after.synchronize p.checkpoint true)).1 <;>
        simp [hrest, Reply.discard] at hreply
    · cases hrun

end Rule

namespace Promise

open ScriptFront.Parser

variable {promise : Promise}

/-- Every plan of the standard grammar delivers what is promised of its goal. -/
def Kept (promise : Promise) : Prop :=
  ∀ goal p, p.grammar = .standard →
    (Grammar.standard.body goal).Delivers promise (promise goal p) [⟨goal, p⟩] p

/-- A promise that is kept holds of whatever is found. -/
theorem Kept.pursue (hkept : promise.Kept) (budget : Nat) (goal : Goal) {p q : Parser}
    {answer : goal.Answer} (hgrammar : p.grammar = .standard)
    (hrun : Parser.pursue budget goal p = (.found answer, q)) :
    promise goal p answer q (Parser.calls budget goal p) := by
  induction budget generalizing goal p q with
  | zero => cases hrun
  | succ budget ih =>
    rw [Parser.pursue, hgrammar] at hrun
    rw [Parser.calls, hgrammar]
    exact (hkept goal p hgrammar).follow (pursue_later budget)
      (fun goal p answer q hp hfound => ih goal hp hfound) hgrammar hrun

end Promise

/-! ## Where calls are made -/

namespace Parser

variable {p q r : Parser}

/-- Nothing but shifts leads from the one state to the other. -/
def Reaches (p q : Parser) : Prop :=
  ∃ count, q = advance^[count] p

/-- A parser reaches itself without a shift. -/
theorem Reaches.refl : p.Reaches p :=
  ⟨0, rfl⟩

/-- One more shift reaches further. -/
theorem Reaches.advance (h : p.Reaches q) : p.Reaches q.advance := by
  obtain ⟨count, rfl⟩ := h
  exact ⟨count + 1, (Function.iterate_succ_apply' _ _ _).symm⟩

/-- What is reached from a parser that is reached is reached. -/
theorem Reaches.trans (h₁ : p.Reaches q) (h₂ : q.Reaches r) : p.Reaches r := by
  obtain ⟨count, rfl⟩ := h₁
  obtain ⟨more, rfl⟩ := h₂
  exact ⟨more + count, (Function.iterate_add_apply _ _ _ _).symm⟩

/-- What is found is reached by shifts, and so is each parser that asks for something on the way. -/
def reaching : Promise :=
  fun _ p _ q calls => p.Reaches q ∧ ∀ call ∈ calls, p.Reaches call.parser

/-- Every plan reaches where it ends, and each of its calls, as long as its goals do. -/
theorem delivers_reaching {α : Type} {before : List Call} (rule : Rule α) (hq : p.Reaches q)
    (hbefore : ∀ call ∈ before, p.Reaches call.parser) :
    rule.Delivers reaching (fun _ r calls => p.Reaches r ∧ ∀ call ∈ calls, p.Reaches call.parser)
      before q := by
  induction rule generalizing q before with
  | done value => exact ⟨hq, hbefore⟩
  | fail cause => trivial
  | look next ih => exact ih q.window hq hbefore
  | shift next ih => exact ih hq.advance hbefore
  | need goal next ih | salvage goal next rest ih =>
    rintro answer r calls ⟨hr, hcalls⟩
    refine ih answer (hq.trans hr) fun call hcall => ?_
    rcases List.mem_append.1 hcall with hcall | hcall
    · exact hbefore call hcall
    · exact hq.trans (hcalls call hcall)

/-- Every plan of the standard grammar keeps the promise. -/
theorem reaching_kept : reaching.Kept := by
  intro goal p hgrammar
  refine delivers_reaching _ .refl fun call hcall => ?_
  rw [List.mem_singleton.1 hcall]
  exact .refl

/-! ## Programs -/

/-- A round that is read without a diagnostic finds a statement, and so do those behind it. -/
theorem slotCalls_of_clean (hgrammar : p.grammar = .standard) (hkind : p.kind ≠ .eof)
    {budget rounds : Nat} (hbudget : p.budget ≤ budget) (hrounds : p.remaining ≤ rounds + 1)
    (hclean : (p.slots budget (rounds + 1)).2.diagnostics = p.diagnostics) :
    ∃ statement after, pursue budget .stmt p = (.found statement, after) ∧
      (p.slots budget (rounds + 1)).1 = some statement :: (after.advance.slots budget rounds).1 ∧
      p.slotCalls budget (rounds + 1) =
        calls budget .stmt p ++ after.advance.slotCalls budget rounds ∧
      after.advance.budget ≤ budget ∧ after.advance.remaining ≤ rounds ∧
      (after.advance.slots budget rounds).2.diagnostics = after.advance.diagnostics := by
  have hprogram := slots_eq_program hgrammar hbudget hrounds
  rw [hprogram] at hclean
  obtain ⟨statement, after, hrun, hslot, hnext⟩ := found_of_program_clean hgrammar hkind hclean
  have haccounted := pursue_accounted p.budget .stmt p
  have hlater := afterStatement_later false p
  have hless := remaining_afterStatement_lt hgrammar hkind false
  have hsucc := slots_succ hgrammar hkind hbudget rounds
  rw [hnext] at hlater hless hsucc
  rw [hrun] at haccounted
  rw [← pursue_eq_of_budget_le hgrammar .stmt hbudget] at hrun
  refine ⟨statement, after, hrun, by rw [hsucc, hslot], ?_,
    Nat.le_trans (budget_le_of_later hlater) hbudget, by omega, ?_⟩
  · rw [slotCalls, if_neg hkind, hrun]
  · have hlast : (p.slots budget (rounds + 1)).2 = (after.advance.slots budget rounds).2 := by
      rw [hsucc]
    rw [← hlast, hprogram, hclean]
    exact haccounted.symm

end Parser

/-- What holds of no statements and no calls, and of a statement of which the promise is kept in
front of what it holds of already, holds of everything that is read without a diagnostic. -/
theorem Promise.Kept.slots {promise : Promise} (hkept : promise.Kept)
    {motive : Parser → List Stmt → List Call → Prop} (nil : ∀ p, motive p [] [])
    (round : ∀ p statement q calls statements more, promise .stmt p statement q calls →
      motive q.advance statements more → motive p (statement :: statements) (calls ++ more))
    (p : Parser) (hgrammar : p.grammar = .standard) {budget rounds : Nat}
    (hbudget : p.budget ≤ budget) (hrounds : p.remaining ≤ rounds)
    (hclean : (p.slots budget rounds).2.diagnostics = p.diagnostics) :
    motive p ((p.slots budget rounds).1.filterMap id) (p.slotCalls budget rounds) := by
  induction rounds generalizing p with
  | zero => exact nil p
  | succ rounds ih =>
    by_cases hkind : p.kind = .eof
    · rw [Parser.slots_of_eof hkind, Parser.slotCalls, if_pos hkind]
      exact nil p
    · obtain ⟨statement, after, hrun, hslots, hcalls, hbudget, hrounds, hclean⟩ :=
        Parser.slotCalls_of_clean hgrammar hkind hbudget hrounds hclean
      have hstatement := hkept.pursue budget .stmt hgrammar hrun
      have hafter := Parser.pursue_later budget .stmt p
      rw [hrun] at hafter
      rw [hslots, hcalls]
      exact round p statement after _ _ _ hstatement
        (ih after.advance (hafter.grammar_eq.trans hgrammar) hbudget hrounds hclean)

namespace Parser

/-- In a program that is read without a diagnostic, shifts lead to every parser that asks for
something. -/
theorem reaches_of_programCalls {p : Parser} (hgrammar : p.grammar = .standard)
    (hclean : p.program.2.diagnostics = p.diagnostics) :
    ∀ call ∈ p.programCalls, p.Reaches call.parser := by
  refine reaching_kept.slots (motive := fun p _ calls => ∀ call ∈ calls, p.Reaches call.parser)
    (fun p call hcall => absurd hcall List.not_mem_nil) ?_ p hgrammar (Nat.le_refl _)
    (Nat.le_refl _) hclean
  rintro p statement q calls statements more ⟨hreaches, hstatement⟩ hmore call hcall
  rcases List.mem_append.1 hcall with hcall | hcall
  · exact hstatement call hcall
  · exact hreaches.advance.trans (hmore call hcall)

end Parser

end ScriptFront
