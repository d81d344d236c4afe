import ScriptFront.Proofs.Parser.Reports

/-!
# Contracts for goals

A contract says what must hold when a goal is asked for and what holds when it was found or not. It
also says in which states a plan is *free* to move on, and which windows are *alike* in a state, so
that no plan may tell them apart there. `Rule.Ensures` computes from a plan, step by step, what the
contract of the goals it asks for gives for the plan itself.

* `Contract.Kept`, `Contract.KeptIn` — every goal's plan ensures what the contract says of the goal,
  in the standard grammar or in another one.
* `Contract.pursue_meets` — a contract that is kept holds of every reading, by induction on the
  budget and on the plan.
* `Lockstep`, `pursue_lockstep` — two runs in states that a relation ties together, and whose
  windows are alike, give the same reply and end tied together.
-/

namespace ScriptFront

/-- What is promised about pursuing goals. -/
structure Contract where
  /-- The states in which a plan may shift the window or skip. -/
  free : Parser → Prop
  /-- The windows that a plan must not tell from the one in sight. -/
  alike : Parser → Window → Prop
  /-- What holds when a goal is asked for. -/
  asked : Goal → Parser → Prop
  /-- What holds of the state before, the answer and the state after, when a goal was found. -/
  found : (goal : Goal) → Parser → goal.Answer → Parser → Prop
  /-- What holds of the states before and after, when a goal was not found. -/
  absent : Goal → Parser → Parser → Prop

variable {α β : Type}

/-- Followed from the state, with goals that keep the contract, the plan moves only where it is free
to, goes on alike from windows that are alike, asks for goals only as the contract wants it, and
ends in one of the two postconditions. -/
def Rule.Ensures (contract : Contract) (found : α → Parser → Prop) (absent : Parser → Prop) :
    Rule α → Parser → Prop
  | .done value, p => found value p
  | .fail cause, p => absent (p.report cause)
  | .look next, p =>
    (∀ w, contract.alike p w → next w = next p.window) ∧
      (next p.window).Ensures contract found absent p
  | .shift next, p => contract.free p ∧ next.Ensures contract found absent p.advance
  | .need goal next, p =>
    contract.asked goal p ∧
      (∀ answer q, p.Later q → contract.found goal p answer q →
        (next answer).Ensures contract found absent q) ∧
      ∀ q, p.Later q → contract.absent goal p q → absent q
  | .salvage goal next rest, p =>
    contract.free p ∧ contract.asked goal p ∧
      (∀ answer q, p.Later q → contract.found goal p answer q →
        (next answer).Ensures contract found absent q) ∧
      ∀ q, p.Later q → contract.absent goal p q →
        contract.asked rest (q.synchronize p.checkpoint true) ∧
          (∀ answer r, contract.found rest (q.synchronize p.checkpoint true) answer r →
            absent r) ∧
          ∀ r, contract.absent rest (q.synchronize p.checkpoint true) r → absent r

namespace Rule

variable {contract : Contract} {found found' : α → Parser → Prop} {absent absent' : Parser → Prop}

/-- A plan that ensures something ensures all that follows from it. -/
theorem Ensures.imp {rule : Rule α} {p : Parser} (h : rule.Ensures contract found absent p)
    (hfound : ∀ value q, found value q → found' value q) (habsent : ∀ q, absent q → absent' q) :
    rule.Ensures contract found' absent' p := by
  induction rule generalizing p with
  | done value => exact hfound value p h
  | fail cause => exact habsent _ h
  | look next ih => exact ⟨h.1, ih p.window h.2⟩
  | shift next ih => exact ⟨h.1, ih h.2⟩
  | need goal next ih =>
    exact ⟨h.1, fun answer q hlater hq => ih answer (h.2.1 answer q hlater hq),
      fun q hlater hq => habsent q (h.2.2 q hlater hq)⟩
  | salvage goal next rest ih =>
    obtain ⟨hfree, hgoal, hnext, hskip⟩ := h
    refine ⟨hfree, hgoal, fun answer q hlater hq => ih answer (hnext answer q hlater hq),
      fun q hlater hq => ?_⟩
    obtain ⟨hasked, hrest, hrest'⟩ := hskip q hlater hq
    exact ⟨hasked, fun answer r hr => habsent r (hrest answer r hr), fun r hr =>
      habsent r (hrest' r hr)⟩

/-- One plan after another: the second must ensure the end from wherever the first is done. -/
theorem Ensures.bind {rule : Rule β} {f : β → Rule α} {p : Parser}
    (h : rule.Ensures contract (fun value q => (f value).Ensures contract found absent q)
      absent p) :
    (rule >>= f).Ensures contract found absent p := by
  change (rule.bind f).Ensures contract found absent p
  induction rule generalizing p with
  | done value => exact h
  | fail cause => exact h
  | look next ih =>
    exact ⟨fun w hw => congrArg (fun r => Rule.bind r f) (h.1 w hw), ih p.window h.2⟩
  | shift next ih => exact ⟨h.1, ih h.2⟩
  | need goal next ih =>
    exact ⟨h.1, fun answer q hlater hq => ih answer (h.2.1 answer q hlater hq), h.2.2⟩
  | salvage goal next rest ih =>
    obtain ⟨hfree, hgoal, hnext, hskip⟩ := h
    exact ⟨hfree, hgoal, fun answer q hlater hq => ih answer (hnext answer q hlater hq), hskip⟩

end Rule

/-! ## Readings meet a contract that is kept -/

/-- The reply and the state after it are what the two postconditions say. -/
def Reply.Meets (found : α → Parser → Prop) (absent : Parser → Prop) :
    Reply α → Parser → Prop
  | .found value, q => found value q
  | .absent, q => absent q
  | .exhausted, _ => True

namespace Contract

/-- Every plan of the standard grammar ensures what the contract says of its goal. -/
def Kept (contract : Contract) : Prop :=
  ∀ goal p, p.grammar = .standard → contract.asked goal p →
    (Grammar.standard.body goal).Ensures contract (contract.found goal p) (contract.absent goal p) p

/-- Every plan of the grammar ensures what the contract says of its goal. -/
def KeptIn (contract : Contract) (grammar : Grammar) : Prop :=
  ∀ goal p, p.grammar = grammar → contract.asked goal p →
    (grammar.body goal).Ensures contract (contract.found goal p) (contract.absent goal p) p

open ScriptFront.Parser

variable {contract : Contract} {grammar : Grammar}

/-- Following a plan that ensures its ends meets them, if the goals keep the contract. -/
theorem follow_meets {pursue : (goal : Goal) → Reading goal.Answer}
    (hlater : ∀ goal q, Later q (pursue goal q).2)
    (hpursue : ∀ goal q, q.grammar = grammar → contract.asked goal q →
      (pursue goal q).1.Meets (contract.found goal q) (contract.absent goal q) (pursue goal q).2)
    {rule : Rule α} {found : α → Parser → Prop} {absent : Parser → Prop} {p : Parser}
    (hgrammar : p.grammar = grammar) (h : rule.Ensures contract found absent p) :
    (rule.follow pursue p).1.Meets found absent (rule.follow pursue p).2 := by
  induction rule generalizing p with
  | done value => exact h
  | fail cause => exact h
  | look next ih => exact ih p.window hgrammar h.2
  | shift next ih => exact ih hgrammar h.2
  | need goal next ih =>
    have hgoal := hpursue goal p hgrammar h.1
    have hafter := hlater goal p
    simp only [Rule.follow]
    rcases heq : pursue goal p with ⟨answer | _ | _, after⟩ <;> rw [heq] at hgoal hafter
    · exact ih answer (hafter.grammar_eq.trans hgrammar) (h.2.1 answer after hafter hgoal)
    · exact h.2.2 after hafter hgoal
    · trivial
  | salvage goal next rest ih =>
    obtain ⟨-, hasked, hnext, hskip⟩ := h
    have hgoal := hpursue goal p hgrammar hasked
    have hafter := hlater goal p
    simp only [Rule.follow]
    rcases heq : pursue goal p with ⟨answer | _ | _, after⟩ <;> rw [heq] at hgoal hafter
    · exact ih answer (hafter.grammar_eq.trans hgrammar) (hnext answer after hafter hgoal)
    · obtain ⟨hasked, hfound, habsent⟩ := hskip after hafter hgoal
      have hskipped := hafter.trans (synchronize_later after p.checkpoint true)
      have hrest := hpursue rest _ (hskipped.grammar_eq.trans hgrammar) hasked
      dsimp only
      rcases hreply : pursue rest (after.synchronize p.checkpoint true) with
        ⟨answer | _ | _, last⟩ <;> rw [hreply] at hrest
      · exact hfound answer last hrest
      · exact habsent last hrest
      · trivial
    · trivial

/-- Every reading meets a contract that is kept. -/
theorem pursue_meets_in (hkept : contract.KeptIn grammar) (budget : Nat) (goal : Goal) {p : Parser}
    (hgrammar : p.grammar = grammar) (hasked : contract.asked goal p) :
    (pursue budget goal p).1.Meets (contract.found goal p) (contract.absent goal p)
      (pursue budget goal p).2 := by
  induction budget generalizing goal p with
  | zero => trivial
  | succ budget ih =>
    rw [pursue, hgrammar]
    exact follow_meets (pursue_later budget) (fun goal q hq h => ih goal hq h) hgrammar
      (hkept goal p hgrammar hasked)

/-- With the standard grammar, every reading meets a contract that is kept. -/
theorem pursue_meets (hkept : contract.Kept) (budget : Nat) (goal : Goal) {p : Parser}
    (hgrammar : p.grammar = .standard) (hasked : contract.asked goal p) :
    (pursue budget goal p).1.Meets (contract.found goal p) (contract.absent goal p)
      (pursue budget goal p).2 :=
  pursue_meets_in hkept budget goal hgrammar hasked

end Contract

/-! ## Two runs in lockstep -/

/-- Parsers that the relation ties together have windows that are alike, and they stay tied together
as they move, report and skip. -/
structure Lockstep (contract : Contract) (rel : Parser → Parser → Prop) : Prop where
  grammar_eq {p q : Parser} : rel p q → q.grammar = p.grammar
  alike {p q : Parser} : rel p q → contract.alike p q.window
  advance {p q : Parser} : rel p q → contract.free p → rel p.advance q.advance
  report {p q : Parser} (cause : Cause) : rel p q → rel (p.report cause) (q.report cause)
  synchronize {goal : Goal} {p₀ q₀ p q : Parser} (inBlock : Bool) : rel p₀ q₀ →
    contract.free p₀ → p₀.Later p → contract.absent goal p₀ p → p.diagnostics ≠ [] → rel p q →
      rel (p.synchronize p₀.checkpoint inBlock) (q.synchronize q₀.checkpoint inBlock)

namespace Lockstep

open ScriptFront.Parser

variable {contract : Contract} {rel : Parser → Parser → Prop}

/-- Parsers in lockstep follow a plan alike, if they pursue its goals alike. -/
theorem follow_lockstep (hlock : Lockstep contract rel)
    {pursue : (goal : Goal) → Reading goal.Answer}
    (hlater : ∀ goal q, Later q (pursue goal q).2)
    (haccounted : ∀ goal q, (pursue goal q).1.Accounted q (pursue goal q).2)
    (hmeets : ∀ goal q, q.grammar = .standard → contract.asked goal q →
      (pursue goal q).1.Meets (contract.found goal q) (contract.absent goal q) (pursue goal q).2)
    (hpursue : ∀ goal {p q : Parser}, p.grammar = .standard → rel p q → contract.asked goal p →
      (pursue goal q).1 = (pursue goal p).1 ∧ rel (pursue goal p).2 (pursue goal q).2)
    {rule : Rule α} {found : α → Parser → Prop} {absent : Parser → Prop} {p q : Parser}
    (hgrammar : p.grammar = .standard) (hrel : rel p q)
    (h : rule.Ensures contract found absent p) :
    (rule.follow pursue q).1 = (rule.follow pursue p).1 ∧
      rel (rule.follow pursue p).2 (rule.follow pursue q).2 := by
  induction rule generalizing p q with
  | done value => exact ⟨rfl, hrel⟩
  | fail cause => exact ⟨rfl, hlock.report cause hrel⟩
  | look next ih =>
    simp only [Rule.follow]
    rw [h.1 q.window (hlock.alike hrel)]
    exact ih p.window hgrammar hrel h.2
  | shift next ih => exact ih hgrammar (hlock.advance hrel h.1) h.2
  | need goal next ih =>
    obtain ⟨hasked, hnext, -⟩ := h
    obtain ⟨hreply, hafter⟩ := hpursue goal hgrammar hrel hasked
    have hgoal := hmeets goal p hgrammar hasked
    have hgone := hlater goal p
    simp only [Rule.follow]
    rcases hp : pursue goal p with ⟨answer | _ | _, after⟩ <;>
      rcases hq : pursue goal q with ⟨reply, after'⟩ <;>
      rw [hp] at hreply hafter hgoal hgone <;> rw [hq] at hreply hafter <;>
      obtain rfl : reply = _ := hreply
    · exact ih answer (hgone.grammar_eq.trans hgrammar) hafter (hnext answer after hgone hgoal)
    · exact ⟨rfl, hafter⟩
    · exact ⟨rfl, hafter⟩
  | salvage goal next rest ih =>
    obtain ⟨hfree, hasked, hnext, hskip⟩ := h
    obtain ⟨hreply, hafter⟩ := hpursue goal hgrammar hrel hasked
    have hgoal := hmeets goal p hgrammar hasked
    have hgone := hlater goal p
    have hnew := haccounted goal p
    simp only [Rule.follow]
    rcases hp : pursue goal p with ⟨answer | _ | _, after⟩ <;>
      rcases hq : pursue goal q with ⟨reply, after'⟩ <;>
      rw [hp] at hreply hafter hgoal hgone hnew <;> rw [hq] at hreply hafter <;>
      obtain rfl : reply = _ := hreply
    · exact ih answer (hgone.grammar_eq.trans hgrammar) hafter (hnext answer after hgone hgoal)
    · -- both skip to the same place and look for further faults from there
      obtain ⟨added, hadded, hdiagnostics⟩ := hnew
      have hskipped := hlock.synchronize true hrel hfree hgone hgoal
        (by rw [hdiagnostics]; simp [hadded]) hafter
      have hgrammar' := (hgone.trans (synchronize_later after p.checkpoint true)).grammar_eq
      obtain ⟨hrest, hlast⟩ :=
        hpursue rest (hgrammar'.trans hgrammar) hskipped (hskip after hgone hgoal).1
      exact ⟨congrArg Reply.discard hrest, hlast⟩
    · exact ⟨rfl, hafter⟩

/-- Parsers in lockstep read a goal alike. -/
theorem pursue_lockstep (hlock : Lockstep contract rel) (hkept : contract.Kept) (budget : Nat)
    (goal : Goal) {p q : Parser} (hgrammar : p.grammar = .standard) (hrel : rel p q)
    (hasked : contract.asked goal p) :
    (pursue budget goal q).1 = (pursue budget goal p).1 ∧
      rel (pursue budget goal p).2 (pursue budget goal q).2 := by
  induction budget generalizing goal p q with
  | zero => exact ⟨rfl, hrel⟩
  | succ budget ih =>
    rw [pursue, pursue, hlock.grammar_eq hrel, hgrammar]
    exact hlock.follow_lockstep (pursue_later budget) (pursue_accounted budget)
      (fun goal q hq h => Contract.pursue_meets hkept budget goal hq h)
      (fun goal {p q} hp hrel h => ih goal hp hrel h) hgrammar hrel (hkept goal p hgrammar hasked)

end Lockstep

end ScriptFront
