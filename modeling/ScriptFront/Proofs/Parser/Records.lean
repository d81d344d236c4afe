import ScriptFront.Proofs.Parser.Completion

/-!
# When diagnostics are recorded

A diagnostic keeps its cause and its line, but not the token that was at hand when it was recorded.
`Parser.records` lists, for the pursuit of a goal, the diagnostics with the states in which they are
recorded; it follows the same plans as the pursuit itself. `Parser.programRecords` does so for a
whole program.

* `Logged p log q` — shifts and exactly the diagnostics of the log lead from `p` to `q`.
* `pursue_logged`, `slots_logged` — the records are those of the reading.
* `records_of_found` — what is found leaves no record.
-/

namespace ScriptFront

/-- A diagnostic as it is recorded. -/
structure Record where
  /-- The parser just before. -/
  parser : Parser
  /-- What is wrong. -/
  cause : Cause

/-- The diagnostic that is recorded. -/
def Record.diagnostic (record : Record) : Diagnostic :=
  ⟨record.cause, record.parser.window.current.line⟩

/-! ## What a reading records -/

/-- What is recorded while a plan is followed. -/
def Rule.records {α : Type} (pursue : (goal : Goal) → Reading goal.Answer)
    (records : Goal → Parser → List Record) : Rule α → Parser → List Record
  | done _, _ => []
  | fail cause, p => [⟨p, cause⟩]
  | look next, p => (next p.window).records pursue records p
  | shift next, p => next.records pursue records p.advance
  | need goal next, p =>
    records goal p ++
      match pursue goal p with
      | (.found answer, after) => (next answer).records pursue records after
      | _ => []
  | salvage goal next rest, p =>
    records goal p ++
      match pursue goal p with
      | (.found answer, after) => (next answer).records pursue records after
      | (.absent, after) => records rest (after.synchronize p.checkpoint true)
      | (.exhausted, _) => []

namespace Parser

/-- What is recorded while a goal is pursued. -/
def records : Nat → Goal → Parser → List Record
  | 0, _, _ => []
  | budget + 1, goal, p => (p.grammar.body goal).records (pursue budget) (records budget) p

/-- What is left of a block records what the plan for the token at hand does. -/
theorem records_statements {p : Parser} (hgrammar : p.grammar = .standard) (budget : Nat) :
    records (budget + 1) .statements p =
      (statementsAt p.kind).records (pursue budget) (records budget) p := by
  rw [records, hgrammar]
  rfl

/-- What is recorded while statements are read, at most `rounds` of them. -/
def slotRecords (budget : Nat) : Nat → Parser → List Record
  | 0, _ => []
  | rounds + 1, p =>
    if p.kind = .eof then []
    else
      records budget .stmt p ++
        match pursue budget .stmt p with
        | (.found _, after) => slotRecords budget rounds after.advance
        | (.absent, after) => slotRecords budget rounds (after.synchronize p.checkpoint false)
        | (.exhausted, _) => []

/-- What is recorded while a program is read. -/
def programRecords (p : Parser) : List Record :=
  p.slotRecords p.budget p.remaining

/-! ## Logs -/

/-- Shifts of the window and exactly the diagnostics of the log lead from the first state to the
second. -/
inductive Logged (p : Parser) : List Record → Parser → Prop
  | refl : Logged p [] p
  | advance {log : List Record} {q : Parser} (h : Logged p log q) : Logged p log q.advance
  | report {log : List Record} {q : Parser} (h : Logged p log q) (cause : Cause) :
      Logged p (log ++ [⟨q, cause⟩]) (q.report cause)

variable {p q r : Parser} {log log' : List Record} {record : Record}

namespace Logged

/-- A log leads to a later state. -/
theorem later (h : Logged p log q) : Later p q := by
  induction h with
  | refl => exact .refl
  | advance _ ih => exact ih.advance
  | report _ cause ih => exact ih.report cause

/-- One log after another is a log. -/
theorem trans (h₁ : Logged p log q) (h₂ : Logged q log' r) : Logged p (log ++ log') r := by
  induction h₂ with
  | refl => rwa [List.append_nil]
  | advance _ ih => exact ih.advance
  | report _ cause ih =>
    rw [← List.append_assoc]
    exact ih.report cause

/-- The diagnostics of a log come behind those that were there. -/
theorem diagnostics_eq (h : Logged p log q) :
    q.diagnostics = p.diagnostics ++ log.map Record.diagnostic := by
  induction h with
  | refl => simp
  | advance _ ih => exact ih
  | @report log q _ cause ih =>
    rw [List.map_append, ← List.append_assoc, ← ih]
    rfl

/-- A record is made between the two states. -/
theorem mem (h : Logged p log q) (hrecord : record ∈ log) :
    Later p record.parser ∧ record.parser.position ≤ q.position := by
  induction h with
  | refl => cases hrecord
  | @advance log q _ ih =>
    obtain ⟨hlater, hle⟩ := ih hrecord
    exact ⟨hlater, Nat.le_succ_of_le hle⟩
  | @report log q h cause ih =>
    rcases List.mem_append.1 hrecord with hrecord | hrecord
    · exact ih hrecord
    · rw [List.mem_singleton.1 hrecord]
      exact ⟨h.later, Nat.le_refl _⟩

/-- What was recorded on the token at hand was recorded last. -/
theorem errorPosition_eq (h : Logged p log q) (hrecord : record ∈ log)
    (hposition : record.parser.position = q.position) : q.errorPosition = q.position := by
  cases h with
  | refl => cases hrecord
  | @advance _ q h =>
    have hle := (h.mem hrecord).2
    rw [position_advance] at hposition
    omega
  | report h cause => rfl

end Logged

/-- Skipping from token to token records nothing. -/
theorem skipTo_logged (p : Parser) (start : Checkpoint) (inBlock : Bool)
    (failedLine failedAt : Nat) : Logged p [] (p.skipTo start inBlock failedLine failedAt) := by
  fun_induction Parser.skipTo p start inBlock failedLine failedAt with
  | case1 => exact .refl
  | case2 => exact .refl
  | case3 p _ _ ih => exact Logged.refl.advance.trans ih

/-- Skipping to a fresh start records nothing. -/
theorem synchronize_logged (p : Parser) (start : Checkpoint) (inBlock : Bool) :
    Logged p [] (p.synchronize start inBlock) :=
  skipTo_logged p start inBlock _ _

/-! ## The records are those of the reading -/

/-- Following a plan records what its log says, if its goals do. -/
theorem follow_logged {α : Type} {pursue : (goal : Goal) → Reading goal.Answer}
    {records : Goal → Parser → List Record}
    (hpursue : ∀ goal p, Logged p (records goal p) (pursue goal p).2) (rule : Rule α) (p : Parser) :
    Logged p (rule.records pursue records p) (rule.follow pursue p).2 := by
  induction rule generalizing p with
  | done value => exact .refl
  | fail cause => exact Logged.refl.report cause
  | look next ih => exact ih p.window p
  | shift next ih => exact Logged.refl.advance.trans (ih p.advance)
  | need goal next ih =>
    have hgoal := hpursue goal p
    simp only [Rule.follow, Rule.records]
    rcases heq : pursue goal p with ⟨answer | _ | _, after⟩ <;> rw [heq] at hgoal
    · exact hgoal.trans (ih answer after)
    · simpa using hgoal
    · simpa using hgoal
  | salvage goal next rest ih =>
    have hgoal := hpursue goal p
    simp only [Rule.follow, Rule.records]
    rcases heq : pursue goal p with ⟨answer | _ | _, after⟩ <;> rw [heq] at hgoal
    · exact hgoal.trans (ih answer after)
    · exact hgoal.trans ((synchronize_logged after p.checkpoint true).trans (hpursue rest _))
    · simpa using hgoal

/-- Pursuing a goal records what its log says. -/
theorem pursue_logged (budget : Nat) (goal : Goal) (p : Parser) :
    Logged p (records budget goal p) (pursue budget goal p).2 := by
  induction budget generalizing goal p with
  | zero => exact .refl
  | succ budget ih => exact follow_logged ih _ p

/-- What is found leaves no record. -/
theorem records_of_found {budget : Nat} {goal : Goal} {answer : goal.Answer}
    (h : pursue budget goal p = (.found answer, q)) : records budget goal p = [] := by
  have haccounted := pursue_accounted budget goal p
  have hlogged := (pursue_logged budget goal p).diagnostics_eq
  rw [h] at haccounted hlogged
  rw [show q.diagnostics = p.diagnostics from haccounted] at hlogged
  simpa using hlogged.symm

/-- Reading statements records what their log says. -/
theorem slots_logged (budget rounds : Nat) (p : Parser) :
    Logged p (p.slotRecords budget rounds) (p.slots budget rounds).2 := by
  induction rounds generalizing p with
  | zero => exact .refl
  | succ rounds ih =>
    unfold slotRecords slots
    split
    · exact .refl
    · have hstmt := pursue_logged budget .stmt p
      rcases heq : pursue budget .stmt p with ⟨statement | _ | _, after⟩ <;> rw [heq] at hstmt
      · exact hstmt.trans (Logged.refl.advance.trans (ih after.advance))
      · exact hstmt.trans ((synchronize_logged after p.checkpoint false).trans (ih _))
      · simpa using hstmt

end Parser

end ScriptFront
