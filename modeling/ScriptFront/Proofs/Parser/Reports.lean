import ScriptFront.Proofs.Parser.Budget

/-!
# What is absent has been reported

A part that is found leaves the diagnostics as they are, and a part that is absent has added to
them. Both hold of every plan by induction on the plan (`Reply.Accounted`, `follow_accounted`), and
so of every goal (`pursue_accounted`); no rule has to be looked at for that. That a plan which gives
no value was not just out of budget is the matter of `follow_ne_exhausted`.

* `parseTokens_clean_iff` — a list of tokens is free of diagnostics when it has no empty slot.
* `absent_iff_reported` — the law for every plan and for whole programs.
-/

namespace ScriptFront

/-- The reply to a reading that began in the given state is accounted for by the diagnostics: none
are new when the part was found, and some are when it was not. -/
def Reply.Accounted {α : Type} (p : Parser) : Reply α → Parser → Prop
  | .found _, after => after.diagnostics = p.diagnostics
  | .absent, after => ∃ added, added ≠ [] ∧ after.diagnostics = p.diagnostics ++ added
  | .exhausted, _ => True

/-- An account can start at an earlier state with the same diagnostics. -/
theorem Reply.Accounted.of_eq {α : Type} {p q after : Parser} {reply : Reply α}
    (h : reply.Accounted q after) (hpq : q.diagnostics = p.diagnostics) :
    reply.Accounted p after := by
  cases reply with
  | found value => exact Eq.trans h hpq
  | absent =>
    obtain ⟨added, hadded, hafter⟩ := h
    exact ⟨added, hadded, by rw [hafter, hpq]⟩
  | exhausted => trivial

namespace Parser

variable {α : Type}

/-- Skipping to a fresh start records nothing. -/
@[simp] theorem diagnostics_synchronize (p : Parser) (start : Checkpoint) (inBlock : Bool) :
    (p.synchronize start inBlock).diagnostics = p.diagnostics := by
  unfold synchronize
  generalize p.window.current.line = failedLine, p.errorPosition = failedAt
  fun_induction skipTo p start inBlock failedLine failedAt with
  | case1 => rfl
  | case2 => rfl
  | case3 p _ _ ih => rw [ih, diagnostics_advance]

/-- Following a plan is accounted for when pursuing goals is. -/
theorem follow_accounted {pursue : (goal : Goal) → Reading goal.Answer}
    (hlater : ∀ goal q, Later q (pursue goal q).2)
    (hpursue : ∀ goal q, (pursue goal q).1.Accounted q (pursue goal q).2)
    (rule : Rule α) (p : Parser) :
    (rule.follow pursue p).1.Accounted p (rule.follow pursue p).2 := by
  induction rule generalizing p with
  | done value => rfl
  | fail cause => exact ⟨_, List.cons_ne_nil _ _, rfl⟩
  | look next ih => exact ih p.window p
  | shift next ih => exact (ih p.advance).of_eq rfl
  | need goal next ih =>
    have hgoal := hpursue goal p
    simp only [Rule.follow]
    split <;> rename_i heq <;> rw [heq] at hgoal
    · exact (ih _ _).of_eq hgoal
    · exact hgoal
    · trivial
  | salvage goal next rest ih =>
    have hgoal := hpursue goal p
    simp only [Rule.follow]
    split <;> rename_i heq <;> rw [heq] at hgoal
    · exact (ih _ _).of_eq hgoal
    · next after =>
      -- the failure has been reported before the rest is asked for, which can only add to it
      obtain ⟨added, hadded, hafter⟩ := hgoal
      obtain ⟨more, hmore⟩ := (hlater rest (after.synchronize p.checkpoint true)).diagnostics_le
      rw [diagnostics_synchronize] at hmore
      have habsent : ∃ added, added ≠ [] ∧
          (pursue rest (after.synchronize p.checkpoint true)).2.diagnostics =
            p.diagnostics ++ added := by
        refine ⟨added ++ more, by simp [hadded], ?_⟩
        rw [← hmore, ← List.append_assoc]
        exact congrArg (· ++ more) hafter
      cases hreply : (pursue rest (after.synchronize p.checkpoint true)).1 with
      | found value => exact habsent
      | absent => exact habsent
      | exhausted => trivial
    · trivial

/-- Pursuing a goal is accounted for, whatever the grammar and the budget. -/
theorem pursue_accounted (budget : Nat) (goal : Goal) (p : Parser) :
    (pursue budget goal p).1.Accounted p (pursue budget goal p).2 := by
  induction budget generalizing goal p with
  | zero => trivial
  | succ budget ih => exact follow_accounted (pursue_later budget) ih _ p

/-- What a plan gives, and what its diagnostics say. -/
theorem run_accounted {p : Parser} (hgrammar : p.grammar = .standard) (rule : Rule α) :
    ∃ added, (p.run rule).2.diagnostics = p.diagnostics ++ added ∧
      ((p.run rule).1.isSome ↔ added = []) := by
  have haccounted := follow_accounted (pursue_later p.budget) (pursue_accounted p.budget) rule p
  have hreply := follow_ne_exhausted hgrammar rule (Nat.le_refl p.budget)
  unfold run
  rcases heq : rule.follow (pursue p.budget) p with ⟨value | _ | _, after⟩ <;>
    rw [heq] at haccounted hreply
  · exact ⟨[], by rw [List.append_nil]; exact haccounted, by simp [Reply.toOption]⟩
  · obtain ⟨added, hadded, hafter⟩ := haccounted
    exact ⟨added, hafter, by simp [Reply.toOption, hadded]⟩
  · exact absurd rfl hreply

/-! ## Whole programs -/

/-- Each empty slot comes with a diagnostic of its own, and without empty slots there is none. -/
theorem slots_accounted {p : Parser} (hgrammar : p.grammar = .standard) {budget : Nat}
    (hbudget : p.budget ≤ budget) (rounds : Nat) :
    ∃ added, (slots budget rounds p).2.diagnostics = p.diagnostics ++ added ∧
      (slots budget rounds p).1.countP Option.isNone ≤ added.length ∧
      ((slots budget rounds p).1.countP Option.isNone = 0 → added = []) := by
  induction rounds generalizing p with
  | zero => exact ⟨[], by simp [slots]⟩
  | succ rounds ih =>
    unfold slots
    by_cases heof : p.kind = .eof
    · exact ⟨[], by simp [heof]⟩
    rw [if_neg heof]
    have haccounted := pursue_accounted budget .stmt p
    have hreply := pursue_ne_exhausted hgrammar .stmt hbudget
    have hlater := pursue_later budget .stmt p
    rcases heq : pursue budget .stmt p with ⟨statement | _ | _, after⟩ <;>
      rw [heq] at haccounted hreply hlater
    · -- a statement that was read adds nothing
      have hnext : Later p after.advance := hlater.advance
      obtain ⟨added, hdiagnostics, hcount, hzero⟩ :=
        ih (hnext.grammar_eq.trans hgrammar) (Nat.le_trans (budget_le_of_later hnext) hbudget)
      refine ⟨added, ?_, by simpa using hcount, by simpa using hzero⟩
      rw [← show after.diagnostics = p.diagnostics from haccounted]
      exact hdiagnostics
    · -- one that was not has left a diagnostic behind
      have hnext : Later p (after.synchronize p.checkpoint false) :=
        hlater.trans (synchronize_later after _ _)
      obtain ⟨added, hdiagnostics, hcount, -⟩ :=
        ih (hnext.grammar_eq.trans hgrammar) (Nat.le_trans (budget_le_of_later hnext) hbudget)
      obtain ⟨first, hfirst, hafter⟩ := haccounted
      have hpos : 0 < first.length := List.length_pos_iff.2 hfirst
      refine ⟨first ++ added, ?_, ?_, by simp⟩
      · rw [hdiagnostics, diagnostics_synchronize, ← List.append_assoc]
        exact congrArg (· ++ added) hafter
      · simp only [List.countP_cons, Option.isNone_none, if_true, List.length_append]
        omega
    · exact absurd rfl hreply

end Parser

open ScriptFront.Parser

/-- A list of tokens never has more empty slots than diagnostics. -/
theorem parseTokens_countP_isNone_le (tokens : List Token) :
    (parseTokens tokens).1.slots.countP Option.isNone ≤ (parseTokens tokens).2.length := by
  obtain ⟨added, hdiagnostics, hcount, -⟩ :=
    slots_accounted (p := ofTokens tokens) rfl (Nat.le_refl _) (ofTokens tokens).remaining
  have hadded : (parseTokens tokens).2 = added := hdiagnostics
  rw [hadded]
  exact hcount

/-- A list of tokens gives no diagnostics exactly when every statement of it could be read. -/
theorem parseTokens_clean_iff (tokens : List Token) :
    (parseTokens tokens).2 = [] ↔ ∀ slot ∈ (parseTokens tokens).1.slots, slot.isSome := by
  have hfilled : (parseTokens tokens).1.slots.countP Option.isNone = 0 ↔
      ∀ slot ∈ (parseTokens tokens).1.slots, slot.isSome := by
    simp [List.countP_eq_zero, Option.isSome_iff_ne_none]
  rw [← hfilled]
  constructor
  · intro hnil
    have hcount := parseTokens_countP_isNone_le tokens
    rw [hnil] at hcount
    exact Nat.le_zero.1 hcount
  · intro hzero
    obtain ⟨added, hdiagnostics, -, hempty⟩ :=
      slots_accounted (p := ofTokens tokens) rfl (Nat.le_refl _) (ofTokens tokens).remaining
    exact hdiagnostics.trans (hempty hzero)

/-- **Absent if and only if reported.** With the standard grammar, following any plan from any state
only adds diagnostics: none when it gives a value, and at least one when it gives none. The plans
are those for expressions of every power, for lists, patterns, statements and blocks, those that the
grammar's tables name, and every other. So a program is free of diagnostics exactly when it has no
empty slot, and it never has more empty slots than diagnostics. -/
theorem absent_iff_reported :
    (∀ p : Parser, p.grammar = .standard → ∀ (α : Type) (rule : Rule α),
      ∃ added, (p.run rule).2.diagnostics = p.diagnostics ++ added ∧
        ((p.run rule).1.isSome → added = []) ∧ ((p.run rule).1 = none → added ≠ [])) ∧
    ∀ tokens : List Token,
      ((parseTokens tokens).2 = [] ↔ (parseTokens tokens).1.hasAbsent = false) ∧
        (parseTokens tokens).1.slots.countP Option.isNone ≤ (parseTokens tokens).2.length := by
  refine ⟨fun p hgrammar α rule => ?_, fun tokens => ?_⟩
  · obtain ⟨added, hdiagnostics, hadded⟩ := run_accounted hgrammar rule
    refine ⟨added, hdiagnostics, hadded.1, fun hnone hnil => ?_⟩
    simpa [hnone] using hadded.2 hnil
  · refine ⟨?_, parseTokens_countP_isNone_le tokens⟩
    rw [parseTokens_clean_iff, Program.hasAbsent]
    simp [Option.isSome_iff_ne_none]

/-- The law at a statement that cannot be read. -/
theorem absent_iff_reported_lone_let :
    ((ofTokens [⟨.letWord, "let", 1⟩]).run Rule.stmt).1.isSome = false ∧
      ∃ added, ((ofTokens [⟨.letWord, "let", 1⟩]).run Rule.stmt).2.diagnostics = [] ++ added ∧
        (((ofTokens [⟨.letWord, "let", 1⟩]).run Rule.stmt).1.isSome → added = []) ∧
        (((ofTokens [⟨.letWord, "let", 1⟩]).run Rule.stmt).1 = none → added ≠ []) :=
  ⟨rfl, absent_iff_reported.1 (ofTokens [⟨.letWord, "let", 1⟩]) rfl Stmt Rule.stmt⟩

end ScriptFront
