import ScriptFront.Proofs.Parser.Composition
import ScriptFront.Proofs.Parser.EndOfInput
import ScriptFront.Proofs.Parser.Mirror

/-!
# Lines never change what a program means

Lines are looked at in two places only: a diagnostic keeps the line of the token at hand, and
skipping after a failure compares lines. So two parsers that meet the same tokens on different lines
read alike up to the first failure.

* `Parser.Relined` — the second parser meets the tokens of the first, all on the first line.
* `Parser.Agrees` — two readings find the same up to lines, or neither finds anything and the first
  diagnostics have one cause.
* `Relined.pursue_agrees` — so it is with every goal, and with every plan that mirrors another.
* `lines_mean_nothing` — two lists of tokens that differ only in lines are parsed alike up to the
  first empty slot, and report the same first.
-/

namespace ScriptFront

open ScriptFront.Lined (flat)

namespace Parser

variable {p q : Parser}

/-- The cause of the first diagnostic. -/
def firstCause (p : Parser) : Option Cause :=
  p.diagnostics.head?.map Diagnostic.cause

/-- Once there is a diagnostic, those that follow leave its cause the first. -/
theorem Later.firstCause_eq (h : Later p q) (hne : p.diagnostics ≠ []) :
    q.firstCause = p.firstCause := by
  obtain ⟨more, hmore⟩ := h.diagnostics_le
  rw [firstCause, firstCause, ← hmore, List.head?_append_of_ne_nil _ hne]

/-- The parsers have reported nothing, and the second meets the tokens of the first, all of them on
the first line. -/
structure Relined (p q : Parser) : Prop where
  grammar_eq : p.grammar = .standard ∧ q.grammar = .standard
  diagnostics_eq : p.diagnostics = [] ∧ q.diagnostics = []
  window_eq : ∀ count, (advance^[count] q).window = (advance^[count] p).window.flat

/-- The readings move equally far and find values that the map ties together, or neither finds
anything and the first diagnostics have one cause. -/
def Agrees {α β : Type} (p q : Parser) (map : α → β) (x : Reply α × Parser) (y : Reply β × Parser) :
    Prop :=
  (∃ value count,
    x = (.found value, advance^[count] p) ∧ y = (.found (map value), advance^[count] q)) ∨
  (x.1.toOption = none ∧ y.1.toOption = none ∧ y.2.firstCause = x.2.firstCause)

end Parser

open ScriptFront.Parser

namespace Rule

variable {α : Type} {goal : Goal} {p : Parser} {pursue : (goal : Goal) → Reading goal.Answer}

/-- A plan misses what it needs. -/
theorem follow_need_missed (next : goal.Answer → Rule α) (h : (pursue goal p).1.toOption = none) :
    ((need goal next).follow pursue p).1.toOption = none ∧
      ((need goal next).follow pursue p).2 = (pursue goal p).2 := by
  rw [follow]
  rcases heq : pursue goal p with ⟨answer | _ | _, after⟩ <;> rw [heq] at h
  · cases h
  · exact ⟨rfl, rfl⟩
  · exact ⟨rfl, rfl⟩

/-- What is read after a failure, for the faults to be found there, leaves the first cause. -/
theorem follow_salvage_missed (hlater : ∀ goal q, Later q (pursue goal q).2)
    (haccounted : ∀ goal q, (pursue goal q).1.Accounted q (pursue goal q).2)
    (next : goal.Answer → Rule α) (rest : Goal) (h : (pursue goal p).1.toOption = none) :
    ((salvage goal next rest).follow pursue p).1.toOption = none ∧
      ((salvage goal next rest).follow pursue p).2.firstCause = (pursue goal p).2.firstCause := by
  have hnew := haccounted goal p
  rw [follow]
  rcases heq : pursue goal p with ⟨answer | _ | _, after⟩ <;> rw [heq] at h hnew
  · cases h
  · obtain ⟨added, hadded, hafter⟩ := hnew
    have hlast := (synchronize_later after p.checkpoint true).trans
      (hlater rest (after.synchronize p.checkpoint true))
    constructor
    · dsimp only
      cases (pursue rest (after.synchronize p.checkpoint true)).1 <;> rfl
    · exact hlast.firstCause_eq (by rw [hafter]; simp [hadded])
  · exact ⟨rfl, rfl⟩

end Rule

namespace Parser.Relined

variable {α β : Type} {p q : Parser}

/-- Plans that mirror each other agree when goals do. -/
theorem follow_agrees (h : Relined p q) {pursue : (goal : Goal) → Reading goal.Answer}
    (hlater : ∀ goal r, Later r (pursue goal r).2)
    (haccounted : ∀ goal r, (pursue goal r).1.Accounted r (pursue goal r).2)
    (hpursue : ∀ goal count, Agrees p q goal.flatAnswer (pursue goal (advance^[count] p))
      (pursue goal.flat (advance^[count] q)))
    {map : α → β} {rule : Rule α} {rule' : Rule β} (hrule : rule.Mirrors map rule') (count : Nat) :
    Agrees p q map (rule.follow pursue (advance^[count] p))
      (rule'.follow pursue (advance^[count] q)) := by
  induction hrule generalizing count with
  | done value => exact .inl ⟨value, count, rfl, rfl⟩
  | fail cause =>
    refine .inr ⟨rfl, rfl, ?_⟩
    simp [Rule.follow, firstCause, Parser.report, reportAt, h.diagnostics_eq]
  | look _ ih =>
    rw [Rule.follow, Rule.follow, h.window_eq]
    exact ih _ count
  | shift _ ih =>
    rw [Rule.follow, Rule.follow, ← Function.iterate_succ_apply' advance,
      ← Function.iterate_succ_apply' advance]
    exact ih (count + 1)
  | @need goal next next' _ ih =>
    obtain ⟨answer, moved, hp, hq⟩ | ⟨hp, hq, hcause⟩ := hpursue goal count
    · rw [Rule.follow, Rule.follow, hp, hq]
      exact ih answer moved
    · obtain ⟨hnone, hlast⟩ := Rule.follow_need_missed next hp
      obtain ⟨hnone', hlast'⟩ := Rule.follow_need_missed next' hq
      exact .inr ⟨hnone, hnone', by rw [hlast, hlast', hcause]⟩
  | @salvage goal rest next next' _ ih =>
    obtain ⟨answer, moved, hp, hq⟩ | ⟨hp, hq, hcause⟩ := hpursue goal count
    · rw [Rule.follow, Rule.follow, hp, hq]
      exact ih answer moved
    · -- from here on the two may part, but what they add comes after the first diagnostic
      obtain ⟨hnone, hlast⟩ := Rule.follow_salvage_missed hlater haccounted next rest hp
      obtain ⟨hnone', hlast'⟩ := Rule.follow_salvage_missed hlater haccounted next' rest.flat hq
      exact .inr ⟨hnone, hnone', by rw [hlast, hlast', hcause]⟩

/-- Goals that differ in lines are found alike up to lines, or missed for the same first cause. -/
theorem pursue_agrees (h : Relined p q) (budget : Nat) (goal : Goal) (count : Nat) :
    Agrees p q goal.flatAnswer (pursue budget goal (advance^[count] p))
      (pursue budget goal.flat (advance^[count] q)) := by
  induction budget generalizing goal count with
  | zero =>
    refine .inr ⟨rfl, rfl, ?_⟩
    simp [pursue, firstCause, h.diagnostics_eq]
  | succ budget ih =>
    have hp := (later_iterate count p).grammar_eq.trans h.grammar_eq.1
    have hq := (later_iterate count q).grammar_eq.trans h.grammar_eq.2
    rw [pursue, pursue, hp, hq]
    exact h.follow_agrees (pursue_later budget) (pursue_accounted budget) ih
      (Grammar.standard.body_mirrors goal) count

end Parser.Relined

/-! ## Programs -/

namespace Parser

variable {p q : Parser}

/-- A round that misses its statement leaves its slot empty, and the cause that it has reported
first stays the first one. -/
theorem program_of_missed (hgrammar : p.grammar = .standard) (hkind : p.kind ≠ .eof)
    (h : (pursue p.budget .stmt p).1.toOption = none) :
    p.slot = none ∧ p.program.2.firstCause = (pursue p.budget .stmt p).2.firstCause := by
  have hreply := pursue_ne_exhausted hgrammar .stmt (Nat.le_refl p.budget)
  have hnew := pursue_accounted p.budget .stmt p
  have hround := afterStatement_later false p
  have hrest := (program_later (hround.grammar_eq.trans hgrammar)).1
  refine ⟨h, ?_⟩
  rw [program_of_ne hgrammar hkind]
  unfold afterStatement at hrest ⊢
  rcases heq : pursue p.budget .stmt p with ⟨statement | _ | _, after⟩ <;>
    rw [heq] at h hreply hnew hrest
  · cases h
  · obtain ⟨added, hadded, hafter⟩ := hnew
    have hlast := (synchronize_later after p.checkpoint false).trans hrest
    exact hlast.firstCause_eq (by rw [hafter]; simp [hadded])
  · exact absurd rfl hreply

/-- After as many shifts, the tokens at hand are of one kind. -/
theorem Relined.kind_eq (h : Relined p q) (count : Nat) :
    (advance^[count] q).kind = (advance^[count] p).kind := by
  rw [kind, h.window_eq]
  rfl

/-- A round finds the same statement up to lines, or misses it for the same first cause. -/
theorem Relined.round_agrees (h : Relined p q) (count : Nat) :
    Agrees p q flat (pursue (advance^[count] p).budget .stmt (advance^[count] p))
      (pursue (advance^[count] q).budget .stmt (advance^[count] q)) := by
  have hp := (later_iterate count p).grammar_eq.trans h.grammar_eq.1
  have hq := (later_iterate count q).grammar_eq.trans h.grammar_eq.2
  rw [← pursue_eq_of_budget_le hp .stmt (Nat.le_max_left _ (advance^[count] q).budget),
    ← pursue_eq_of_budget_le hq .stmt (Nat.le_max_right (advance^[count] p).budget _)]
  exact h.pursue_agrees _ .stmt count

/-- A round that has found its statement after some shifts goes on after one more. -/
theorem round_of_found {count : Nat} {statement : Stmt} {r : Parser}
    (h : pursue r.budget .stmt r = (.found statement, advance^[count] p)) :
    r.slot = some statement ∧ r.afterStatement false = advance^[count + 1] p := by
  rw [slot, afterStatement, h, Function.iterate_succ_apply']
  exact ⟨rfl, rfl⟩

/-- Up to the first empty slot, the two programs are the same up to lines, and the first causes are
the same. -/
theorem Relined.program_agrees (h : Relined p q) (count : Nat) :
    (advance^[count] q).program.2.firstCause = (advance^[count] p).program.2.firstCause ∧
      (advance^[count] q).program.1.slots.takeWhile Option.isSome =
        ((advance^[count] p).program.1.slots.takeWhile Option.isSome).map (Option.map flat) := by
  induction hremaining : (advance^[count] p).remaining using Nat.strongRecOn generalizing count with
  | ind remaining ih =>
    have hp := (later_iterate count p).grammar_eq.trans h.grammar_eq.1
    have hq := (later_iterate count q).grammar_eq.trans h.grammar_eq.2
    have hkind := h.kind_eq count
    by_cases heof : (advance^[count] p).kind = .eof
    · rw [program_of_eof heof, program_of_eof (hkind.trans heof)]
      exact ⟨by simp [firstCause, h.diagnostics_eq], rfl⟩
    · have hless := remaining_afterStatement_lt hp heof false
      have hprogram := program_of_ne hp heof
      have hprogram' := program_of_ne hq (by rwa [hkind])
      obtain ⟨statement, moved, hfound, hfound'⟩ | ⟨hnone, hnone', hcause⟩ := h.round_agrees count
      · obtain ⟨hslot, hnext⟩ := round_of_found hfound
        obtain ⟨hslot', hnext'⟩ := round_of_found hfound'
        rw [hnext] at hless
        obtain ⟨hfirst, hslots⟩ := ih _ (hremaining ▸ hless) (moved + 1) rfl
        rw [hprogram, hprogram', hslot, hslot', hnext, hnext']
        refine ⟨hfirst, ?_⟩
        rw [List.takeWhile_cons_of_pos rfl, List.takeWhile_cons_of_pos rfl, hslots]
        rfl
      · obtain ⟨hslot, hfirst⟩ := program_of_missed hp heof hnone
        obtain ⟨hslot', hfirst'⟩ := program_of_missed hq (by rwa [hkind]) hnone'
        refine ⟨by rw [hfirst, hfirst', hcause], ?_⟩
        rw [hprogram, hprogram', hslot, hslot']
        rfl

/-! ## Lists of tokens -/

/-- On the first line, the last token is on the first line. -/
theorem lastLine_flat (tokens : List Token) : lastLine 1 (tokens.map Token.flat) = 1 := by
  unfold lastLine
  rw [List.getLast?_map, Option.map_map]
  cases tokens.getLast? <;> rfl

/-- A parser for tokens on the first line comes to the tokens themselves, on the first line. -/
theorem current_iterate_flat (tokens : List Token) (count : Nat) :
    (advance^[count] (ofTokens (tokens.map Token.flat))).window.current =
      (advance^[count] (ofTokens tokens)).window.current.flat := by
  rw [current_iterate_ofTokens, current_iterate_ofTokens, lastLine_flat, List.getElem?_map]
  cases tokens[count]? <;> rfl

/-- The parser for tokens on the first line meets what the parser for the tokens themselves does. -/
theorem relined_ofTokens (tokens : List Token) :
    Relined (ofTokens tokens) (ofTokens (tokens.map Token.flat)) := by
  refine ⟨⟨rfl, rfl⟩, ⟨rfl, rfl⟩, fun count => ?_⟩
  have hcurrent := current_iterate_flat tokens count
  have hpeek := current_iterate_flat tokens (count + 1)
  rw [Function.iterate_succ_apply', Function.iterate_succ_apply', current_advance,
    current_advance] at hpeek
  have hprevious : (advance^[count] (ofTokens (tokens.map Token.flat))).window.previous =
      (advance^[count] (ofTokens tokens)).window.previous.flat := by
    cases count with
    | zero => rfl
    | succ count =>
      rw [Function.iterate_succ_apply', Function.iterate_succ_apply', previous_advance,
        previous_advance]
      exact current_iterate_flat tokens count
  rw [Window.flat, ← hprevious, ← hcurrent, ← hpeek]

end Parser

/-- Without its lines, a list of tokens is parsed as it is, up to lines and to the first failure. -/
theorem parseTokens_flat (tokens : List Token) :
    (parseTokens (tokens.map Token.flat)).2.head?.map Diagnostic.cause =
        (parseTokens tokens).2.head?.map Diagnostic.cause ∧
      (parseTokens (tokens.map Token.flat)).1.slots.takeWhile Option.isSome =
        ((parseTokens tokens).1.slots.takeWhile Option.isSome).map (Option.map flat) :=
  (relined_ofTokens tokens).program_agrees 0

/-- A program without diagnostics has no empty slot. -/
theorem takeWhile_isSome_of_clean {tokens : List Token} (h : (parseTokens tokens).2 = []) :
    (parseTokens tokens).1.slots.takeWhile Option.isSome = (parseTokens tokens).1.slots := by
  rw [List.takeWhile_eq_self_iff]
  exact (parseTokens_clean_iff tokens).1 h

/-- Lists that are the same without their lines agree on the first failure and on the slots before
it. -/
theorem agree_of_flat_eq {tokens others : List Token}
    (h : tokens.map Token.flat = others.map Token.flat) :
    (parseTokens tokens).2.head?.map Diagnostic.cause =
        (parseTokens others).2.head?.map Diagnostic.cause ∧
      ((parseTokens tokens).1.slots.takeWhile Option.isSome).map (Option.map flat) =
        ((parseTokens others).1.slots.takeWhile Option.isSome).map (Option.map flat) := by
  obtain ⟨hcause, hslots⟩ := parseTokens_flat tokens
  obtain ⟨hcause', hslots'⟩ := parseTokens_flat others
  rw [h] at hcause hslots
  exact ⟨hcause.symm.trans hcause', hslots.symm.trans hslots'⟩

/-- Lists that are the same without their lines are both parsed without a diagnostic, or neither
is. -/
theorem clean_iff_of_flat_eq {tokens others : List Token}
    (h : tokens.map Token.flat = others.map Token.flat) :
    (parseTokens tokens).2 = [] ↔ (parseTokens others).2 = [] := by
  rw [← List.head?_eq_none_iff, ← List.head?_eq_none_iff, ← Option.map_eq_none_iff,
    (agree_of_flat_eq h).1, Option.map_eq_none_iff]

/-- **Lines never change what a program means.** Take two lists of tokens that have the same kinds
and the same texts, on whatever lines. One is parsed without a diagnostic if and only if the other
is, and then the programs are the same up to lines. Otherwise the first diagnostics have the same
cause, and the slots before the first empty one are the same up to lines. -/
theorem lines_mean_nothing {tokens others : List Token}
    (h : List.Forall₂ (fun token other => token.kind = other.kind ∧ token.value = other.value)
      tokens others) :
    ((parseTokens tokens).2 = [] ↔ (parseTokens others).2 = []) ∧
    ((parseTokens tokens).2 = [] → (parseTokens tokens).1.flat = (parseTokens others).1.flat) ∧
    (parseTokens tokens).2.head?.map Diagnostic.cause =
      (parseTokens others).2.head?.map Diagnostic.cause ∧
    ((parseTokens tokens).1.slots.takeWhile Option.isSome).map (Option.map flat) =
      ((parseTokens others).1.slots.takeWhile Option.isSome).map (Option.map flat) := by
  have hsame : tokens.map Token.flat = others.map Token.flat := by
    induction h with
    | nil => rfl
    | @cons token other tokens others hfirst _ ih =>
      rw [List.map_cons, List.map_cons, ih, Token.flat, Token.flat, hfirst.1, hfirst.2]
  obtain ⟨hfirst, hfront⟩ := agree_of_flat_eq hsame
  have hclean := clean_iff_of_flat_eq hsame
  refine ⟨hclean, fun hnone => ?_, hfirst, hfront⟩
  rw [takeWhile_isSome_of_clean hnone, takeWhile_isSome_of_clean (hclean.1 hnone)] at hfront
  exact congrArg Program.mk hfront

/-- The law at a declaration and a statement that breaks off, on one line and on several: a later
line is a place to start anew, so that the second list has more slots. -/
theorem lines_mean_nothing_broken :
    let tokens : List Token := [⟨.letWord, "let", 1⟩, ⟨.identifier, "x", 1⟩,
      ⟨.assignment, "=", 1⟩, ⟨.identifier, "y", 1⟩, ⟨.semicolon, ";", 1⟩, ⟨.closeParen, ")", 1⟩,
      ⟨.identifier, "z", 1⟩]
    let others : List Token := [⟨.letWord, "let", 1⟩, ⟨.identifier, "x", 2⟩,
      ⟨.assignment, "=", 2⟩, ⟨.identifier, "y", 3⟩, ⟨.semicolon, ";", 3⟩, ⟨.closeParen, ")", 4⟩,
      ⟨.identifier, "z", 5⟩]
    List.Forall₂ (fun token other => token.kind = other.kind ∧ token.value = other.value)
        tokens others ∧
      (parseTokens tokens).2.head?.map Diagnostic.cause =
        (parseTokens others).2.head?.map Diagnostic.cause := by
  intro tokens others
  have h : List.Forall₂ (fun token other : Token => token.kind = other.kind ∧
      token.value = other.value) tokens others := by
    simp [tokens, others]
  exact ⟨h, (lines_mean_nothing h).2.2.1⟩

end ScriptFront
