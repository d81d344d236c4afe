import ScriptFront.Proofs.Parser.Completion

/-!
# Errors stay where they are

What comes before a stopping token does not reach behind it, and what lies behind it does not reach
before it.

* `Lockstep.round` — a round of two parsers in lockstep fills the same slot.
* `Parser.Twin` — two parsers that have met the same tokens and will, up to the stopping token
  (`twin_lockstep`).
* `Parser.Shifted` — a parser that starts afresh, and one that has come the same way after other
  tokens; the second reads on as the first does (`shifted_lockstep`).
* `error_isolation` — a list of tokens with balanced braces adds its own slots and diagnostics to
  those of what follows from a word that begins a statement, and changes nothing else.
-/

namespace ScriptFront

open ScriptFront.Parser

/-! ## Rounds in lockstep -/

/-- A round of two parsers in lockstep fills the same slot and ends in lockstep. -/
theorem Lockstep.round {contract : Contract} {rel : Parser → Parser → Prop}
    (hlock : Lockstep contract rel) (hkept : contract.Kept) {p q : Parser}
    (hgrammar : p.grammar = .standard) (hrel : rel p q) (hfree : contract.free p)
    (hasked : contract.asked .stmt p)
    (hfound : ∀ answer after, contract.found .stmt p answer after → contract.free after) :
    q.slot = p.slot ∧ rel (p.afterStatement false) (q.afterStatement false) := by
  -- the parsers may have different budgets, and what is read depends on neither
  have hp := pursue_eq_of_budget_le hgrammar .stmt (Nat.le_max_left p.budget q.budget)
  have hq := pursue_eq_of_budget_le ((hlock.grammar_eq hrel).trans hgrammar) .stmt
    (Nat.le_max_right p.budget q.budget)
  have hlater := pursue_later p.budget .stmt p
  have hnew := pursue_accounted p.budget .stmt p
  have hreply := pursue_ne_exhausted hgrammar .stmt (Nat.le_refl p.budget)
  have hmeets := Contract.pursue_meets hkept p.budget .stmt hgrammar hasked
  obtain ⟨hsame, hafter⟩ := hlock.pursue_lockstep hkept (max p.budget q.budget) .stmt hgrammar hrel
    hasked
  rw [hp, hq] at hsame hafter
  unfold slot afterStatement
  rw [hsame]
  refine ⟨rfl, ?_⟩
  rcases heqp : pursue p.budget .stmt p with ⟨statement | _ | _, after⟩ <;>
    rcases heqq : pursue q.budget .stmt q with ⟨reply, after'⟩ <;>
    rw [heqp] at hsame hafter hlater hnew hreply hmeets <;> rw [heqq] at hsame hafter <;>
    obtain rfl : reply = _ := hsame
  · exact hlock.advance hafter (hfound statement after hmeets)
  · obtain ⟨added, hadded, hdiagnostics⟩ := hnew
    refine hlock.synchronize false hrel hfree hlater hmeets ?_ hafter
    rw [hdiagnostics]
    simp [hadded]
  · exact absurd rfl hreply

/-- Some rounds lead from one parser to another and fill the slots. -/
inductive Parser.Rounds : Parser → List (Option Stmt) → Parser → Prop
  | refl (p : Parser) : Rounds p [] p
  | round {p last : Parser} {slots : List (Option Stmt)} (hkind : p.kind ≠ .eof)
      (h : Rounds (p.afterStatement false) slots last) : Rounds p (p.slot :: slots) last

namespace Parser

variable {n : Nat} {p q : Parser}

/-- Rounds lead to a later state. -/
theorem Rounds.later {slots : List (Option Stmt)} (h : Rounds p slots q) : Later p q := by
  induction h with
  | refl p => exact .refl
  | round _ _ ih => exact (afterStatement_later false _).trans ih

/-- A program is what some rounds give and the program from where they lead. -/
theorem Rounds.program_eq {slots : List (Option Stmt)} (h : Rounds p slots q)
    (hgrammar : p.grammar = .standard) :
    p.program = (⟨slots ++ q.program.1.slots⟩, q.program.2) := by
  induction h with
  | refl p => rfl
  | @round p last slots hkind _ ih =>
    have hnext := (afterStatement_later false p).grammar_eq.trans hgrammar
    rw [program_of_ne hgrammar hkind, ih hnext, List.cons_append]

/-- Skipping keeps parsers tied together that see the same reasons to stop. -/
theorem skipTo_lockstep {rel : Parser → Parser → Prop} {start start' : Checkpoint} {inBlock : Bool}
    {failedLine failedAt failedAt' : Nat} (hkind : ∀ {p q}, rel p q → q.kind = p.kind)
    (hstop : ∀ {p q}, rel p q →
      (start'.position < q.position ∧ q.atBoundary start' inBlock failedLine failedAt' = true ↔
        start.position < p.position ∧ p.atBoundary start inBlock failedLine failedAt = true))
    (hadvance : ∀ {p q}, rel p q → p.kind ≠ .eof →
      ¬ (start.position < p.position ∧ p.atBoundary start inBlock failedLine failedAt = true) →
        rel p.advance q.advance) (h : rel p q) :
    rel (p.skipTo start inBlock failedLine failedAt)
      (q.skipTo start' inBlock failedLine failedAt') := by
  fun_induction Parser.skipTo p start inBlock failedLine failedAt generalizing q with
  | case1 p heof =>
    rw [skipTo.eq_def q, dif_pos ((hkind h).trans heof)]
    exact h
  | case2 p heof hthere =>
    rw [skipTo.eq_def q, dif_neg (by rwa [hkind h]), if_pos ((hstop h).2 hthere)]
    exact h
  | case3 p heof hthere ih =>
    rw [skipTo.eq_def q, dif_neg (by rwa [hkind h]), if_neg (mt (hstop h).1 hthere)]
    exact ih (hadvance h heof hthere)

/-! ## Before the stopping token -/

/-- The parsers are in the same state but for the tokens behind the stopping token. -/
structure Twin (n : Nat) (p q : Parser) : Prop where
  within : Within n p
  grammar_eq : p.grammar = .standard ∧ q.grammar = .standard
  position_eq : q.position = p.position
  depth_eq : q.depth = p.depth
  errorPosition_eq : q.errorPosition = p.errorPosition
  diagnostics_eq : q.diagnostics = p.diagnostics
  previous_eq : q.window.previous = p.window.previous
  current_eq : ∀ count, p.position + count ≤ n →
    (advance^[count] q).window.current = (advance^[count] p).window.current

/-- Twins have the same token at hand. -/
theorem Twin.current (h : Twin n p q) : q.window.current = p.window.current :=
  h.current_eq 0 h.within.position_le

/-- Twins have tokens of one kind at hand. -/
theorem Twin.kind_eq (h : Twin n p q) : q.kind = p.kind :=
  congrArg Token.kind h.current

/-- Before the stopping token, twins stay twins behind a shift. -/
theorem Twin.advance (h : Twin n p q) (hbefore : p.position < n) :
    Twin n p.advance q.advance where
  within := Inside.advance ⟨h.within, hbefore⟩
  grammar_eq := h.grammar_eq
  position_eq := congrArg (· + 1) h.position_eq
  depth_eq := by rw [depth_advance, depth_advance, depthPast, depthPast, h.kind_eq, h.depth_eq]
  errorPosition_eq := h.errorPosition_eq
  diagnostics_eq := h.diagnostics_eq
  previous_eq := h.current
  current_eq := by
    intro count hle
    rw [position_advance] at hle
    have hcurrent := h.current_eq (count + 1) (by omega)
    rwa [Function.iterate_succ_apply, Function.iterate_succ_apply] at hcurrent

/-- Twins stay twins behind a diagnostic. -/
theorem Twin.report (h : Twin n p q) (cause : Cause) :
    Twin n (p.report cause) (q.report cause) where
  within := h.within.report cause
  grammar_eq := h.grammar_eq
  position_eq := h.position_eq
  depth_eq := h.depth_eq
  errorPosition_eq := h.position_eq
  diagnostics_eq := by
    simp only [Parser.report, reportAt]
    rw [h.diagnostics_eq, h.current]
  previous_eq := h.previous_eq
  current_eq := by
    intro count hle
    rw [advance_iterate_report, advance_iterate_report]
    exact h.current_eq count hle

/-- Twins see the same reasons to stop. -/
theorem Twin.atBoundary_eq (h : Twin n p q) (start : Checkpoint) (inBlock : Bool)
    (failedLine failedAt : Nat) :
    q.atBoundary start inBlock failedLine failedAt =
      p.atBoundary start inBlock failedLine failedAt := by
  unfold atBoundary
  rw [h.current, h.previous_eq, h.position_eq, h.depth_eq, h.grammar_eq.1, h.grammar_eq.2]

/-- Before a stopping token, twins read alike and stay twins. -/
theorem twin_lockstep (n : Nat) : Lockstep (stopContract n) (Twin n) where
  grammar_eq h := h.grammar_eq.2.trans h.grammar_eq.1.symm
  alike h := ⟨h.previous_eq, h.current, fun hbefore => h.current_eq 1 hbefore⟩
  advance h hbefore := h.advance hbefore
  report cause h := h.report cause
  synchronize := by
    intro goal p₀ q₀ p q inBlock h₀ hbefore hlater _ _ h
    have hbehind : p₀.checkpoint.position < n := hbefore
    have hstart : q₀.checkpoint = p₀.checkpoint := by
      simp [checkpoint, h₀.position_eq, h₀.depth_eq]
    unfold Parser.synchronize
    rw [hstart, h.current, h.errorPosition_eq]
    apply skipTo_lockstep _ _ _ h
    · exact fun h => h.kind_eq
    · intro p q h
      rw [h.position_eq, h.atBoundary_eq]
    · intro p q h heof hstop
      exact h.advance (h.within.inside_of_skipping h.grammar_eq.1 hbehind heof hstop).position_lt

/-- From within a stopping token that is no end of input, rounds lead up to it, and a twin comes
along. -/
theorem exists_rounds (hgrammar : p.grammar = .standard) (h : Within n p)
    (hkind : ∀ q, Later p q → q.position ≤ n → q.kind ≠ .eof) :
    ∃ slots last, Rounds p slots last ∧ last.position = n ∧
      ∀ q, Twin n p q → ∃ last', Rounds q slots last' ∧ Twin n last last' := by
  induction hgap : n - p.position using Nat.strongRecOn generalizing p with
  | ind gap ih =>
    have hle := h.position_le
    by_cases hthere : p.position = n
    · exact ⟨[], p, .refl p, hthere, fun q hq => ⟨q, .refl q, hq⟩⟩
    · have hinside : Inside n p := ⟨h, Nat.lt_of_le_of_ne hle hthere⟩
      have heof := hkind p .refl hle
      have hmoved := position_lt_afterStatement hgrammar heof false
      have hlater := afterStatement_later false p
      obtain ⟨slots, last, hrounds, hlast, htwins⟩ :=
        ih (n - (p.afterStatement false).position) (by omega) (hlater.grammar_eq.trans hgrammar)
          (Inside.afterStatement hgrammar hinside) (fun q hq => hkind q (hlater.trans hq)) rfl
      refine ⟨p.slot :: slots, last, .round heof hrounds, hlast, fun q hq => ?_⟩
      obtain ⟨hslot, hnext⟩ := (twin_lockstep n).round (stopContract_kept n) hgrammar hq
        hinside.position_lt hinside fun _ _ hfound => hfound.position_lt
      obtain ⟨last', hrounds', hlast'⟩ := htwins _ hnext
      refine ⟨last', ?_, hlast'⟩
      rw [← hslot]
      exact .round (hq.kind_eq ▸ heof) hrounds'

/-! ## Behind the stopping token -/

/-- The second parser is in the state of the first, which has just started, but for the tokens and
diagnostics that it had before. The token before the first one at hand is not the same, and the
place of the last diagnostic is not either, until there is a new one. -/
structure Shifted (n : Nat) (before : List Diagnostic) (p q : Parser) : Prop where
  grammar_eq : p.grammar = .standard ∧ q.grammar = .standard
  source_eq : q.source = p.source
  current_eq : q.window.current = p.window.current
  peek_eq : q.window.peek = p.window.peek
  previous_eq : 0 < p.position → q.window.previous = p.window.previous
  position_eq : q.position = p.position + n
  depth_eq : q.depth = p.depth
  diagnostics_eq : q.diagnostics = before ++ p.diagnostics
  errorPosition_eq : p.diagnostics ≠ [] → q.errorPosition = p.errorPosition + n

variable {before : List Diagnostic}

/-- The token at hand is of the same kind, with other tokens before it or without. -/
theorem Shifted.kind_eq (h : Shifted n before p q) : q.kind = p.kind :=
  congrArg Token.kind h.current_eq

/-- Parsers that differ by what came before do so behind a shift. -/
theorem Shifted.advance (h : Shifted n before p q) : Shifted n before p.advance q.advance where
  grammar_eq := h.grammar_eq
  source_eq := congrArg (·.next.2) h.source_eq
  current_eq := h.peek_eq
  peek_eq := congrArg (·.next.1) h.source_eq
  previous_eq _ := h.current_eq
  position_eq := by
    have hposition := h.position_eq
    simp only [position_advance]
    omega
  depth_eq := by rw [depth_advance, depth_advance, depthPast, depthPast, h.kind_eq, h.depth_eq]
  diagnostics_eq := h.diagnostics_eq
  errorPosition_eq := h.errorPosition_eq

/-- Parsers that differ by what came before do so behind a diagnostic. -/
theorem Shifted.report (h : Shifted n before p q) (cause : Cause) :
    Shifted n before (p.report cause) (q.report cause) where
  grammar_eq := h.grammar_eq
  source_eq := h.source_eq
  current_eq := h.current_eq
  peek_eq := h.peek_eq
  previous_eq := h.previous_eq
  position_eq := h.position_eq
  depth_eq := h.depth_eq
  diagnostics_eq := by
    simp only [Parser.report, reportAt]
    rw [h.diagnostics_eq, h.current_eq, List.append_assoc]
  errorPosition_eq _ := h.position_eq

/-- Behind the place where it started, a parser sees the same reasons to stop as one with other
tokens before. -/
theorem Shifted.atBoundary_eq (h : Shifted n before p q) (hmoved : 0 < p.position)
    (start : Checkpoint) (inBlock : Bool) (failedLine failedAt : Nat) :
    q.atBoundary ⟨start.position + n, start.depth⟩ inBlock failedLine (failedAt + n) =
      p.atBoundary start inBlock failedLine failedAt := by
  unfold atBoundary
  simp only [h.current_eq, h.previous_eq hmoved, h.position_eq, h.depth_eq, h.grammar_eq.1,
    h.grammar_eq.2, Nat.add_right_cancel_iff]

end Parser

/-- Nothing is promised but that no plan looks back over the place where the parser started. There,
only a statement with a rule of its own may be asked for. -/
def afresh : Contract where
  free _ := True
  alike p w :=
    w.current = p.window.current ∧ w.peek = p.window.peek ∧
      (0 < p.position → w.previous = p.window.previous)
  asked goal p :=
    0 < p.position ∨ (goal = .stmt ∧ (Grammar.standard.statement p.kind).isSome)
  found _ _ _ _ := True
  absent _ _ _ := True

/-- Behind the start, any plan will do. -/
theorem Rule.ensures_afresh {α : Type} (rule : Rule α) {p : Parser} (hmoved : 0 < p.position) :
    rule.Ensures afresh (fun _ _ => True) (fun _ => True) p := by
  induction rule generalizing p with
  | done value => trivial
  | fail cause => trivial
  | look next ih =>
    refine ⟨fun w hw => ?_, ih p.window hmoved⟩
    obtain ⟨hcurrent, hpeek, hprevious⟩ := hw
    cases w
    cases hcurrent
    cases hpeek
    cases hprevious hmoved
    rfl
  | shift next ih => exact ⟨trivial, ih (Nat.succ_pos _)⟩
  | need goal next ih =>
    refine ⟨.inl hmoved, fun answer q hlater _ => ?_, fun _ _ _ => trivial⟩
    exact ih answer (Nat.lt_of_lt_of_le hmoved hlater.position_le)
  | salvage goal next rest ih =>
    refine ⟨trivial, .inl hmoved, fun answer q hlater _ => ?_, fun q hlater _ => ?_⟩
    · exact ih answer (Nat.lt_of_lt_of_le hmoved hlater.position_le)
    · have hskipped := hlater.trans (synchronize_later q p.checkpoint true)
      exact ⟨.inl (Nat.lt_of_lt_of_le hmoved hskipped.position_le), fun _ _ _ => trivial,
        fun _ _ => trivial⟩

/-- Until it moves, the plan asks for nothing and does not look back. -/
def Rule.Onward {α : Type} : Rule α → Prop
  | .done _ | .fail _ | .shift _ => True
  | .look next => ∀ w token, next { w with previous := token } = next w ∧ (next w).Onward
  | .need _ _ | .salvage _ _ _ => False

/-- A plan that does not look back before it moves will do anywhere. -/
theorem Rule.Onward.ensures_afresh {α : Type} {rule : Rule α} (h : rule.Onward) (p : Parser) :
    rule.Ensures afresh (fun _ _ => True) (fun _ => True) p := by
  induction rule with
  | done value => trivial
  | fail cause => trivial
  | look next ih =>
    refine ⟨fun w hw => ?_, ih p.window (h p.window p.window.previous).2⟩
    obtain ⟨hcurrent, hpeek, -⟩ := hw
    cases w with
    | mk previous current peek =>
      cases hcurrent
      cases hpeek
      exact (h p.window previous).1
  | shift next _ => exact ⟨trivial, next.ensures_afresh (Nat.succ_pos _)⟩
  | need goal next => exact h.elim
  | salvage goal next rest => exact h.elim

namespace Rule

variable {α : Type}

/-- A plan may look at the token at hand before it moves. -/
theorem onward_current {next : Token → Rule α} (h : ∀ token, (next token).Onward) :
    (current >>= next).Onward :=
  fun w _ => ⟨rfl, h w.current⟩

/-- Behind a token asked for by kind, the plan has moved. -/
theorem onward_expect (kind : Kind) (next : Unit → Rule α) : (expect kind >>= next).Onward := by
  intro w token
  refine ⟨rfl, ?_⟩
  change Onward (Rule.bind (if _ then _ else _) next)
  split <;> trivial

/-- Behind a name that is asked for, the plan has moved. -/
theorem onward_expectIdentifier (next : Identifier → Rule α) :
    (expectIdentifier >>= next).Onward := by
  intro w token
  refine ⟨rfl, ?_⟩
  change Onward (Rule.bind (Rule.bind (if _ then _ else _) _) next)
  split <;> trivial

/-- A semicolon may be taken before a plan that does not look back. -/
theorem onward_skipSemicolon {next : Unit → Rule α} (h : (next ()).Onward) :
    (skipSemicolon >>= next).Onward := by
  intro w token
  refine ⟨rfl, ?_⟩
  change Onward (Rule.bind (if decide _ = true then _ else _) next)
  split
  · trivial
  · exact h

end Rule

open Rule in
/-- No rule for statements looks back over its first word. -/
theorem StatementRule.plan_onward {rule : StatementRule} (hleading : rule.isLeading = true) :
    rule.plan.Onward := by
  cases rule with
  | expression | any => cases hleading
  | declaration =>
    intro w token
    refine ⟨rfl, ?_⟩
    change Onward (if _ then _ else _)
    split
    · exact onward_expectIdentifier _
    · trivial
  | returning =>
    intro w token
    refine ⟨rfl, ?_⟩
    change Onward (if _ then _ else if _ then _ else _)
    split
    · trivial
    · split <;> trivial
  | breaking => exact onward_current fun _ => onward_skipSemicolon trivial
  | continuing => exact onward_current fun _ => onward_skipSemicolon trivial
  | including => exact onward_current fun _ => onward_expect _ _
  | block => exact fun _ _ => ⟨rfl, trivial⟩
  | enumeration => exact onward_current fun _ => onward_expectIdentifier _
  | go => exact onward_current fun _ => trivial
  | error => exact onward_current fun _ => trivial
  | declarative =>
    refine onward_current fun token => ?_
    split <;> trivial

/-- No goal looks back over the place where the parser started. -/
theorem afresh_kept : afresh.Kept := by
  intro goal p _ hasked
  rcases hasked with hmoved | ⟨rfl, hstatement⟩
  · exact Rule.ensures_afresh _ hmoved
  · obtain ⟨rule, hrule⟩ := Option.isSome_iff_exists.1 hstatement
    change Grammar.standard.statement p.window.current.kind = some rule at hrule
    refine ⟨fun w hw => ?_, ?_⟩ <;> dsimp only [Rule.bind]
    · rw [hw.1]
    · rw [hrule]
      have hleading := Grammar.isLeading_of_standardStatement hrule
      exact (StatementRule.plan_onward hleading).ensures_afresh p

namespace Parser

variable {n : Nat} {p q : Parser} {before : List Diagnostic}

/-- A parser behind other tokens reads on as one that starts afresh. -/
theorem shifted_lockstep (n : Nat) (before : List Diagnostic) :
    Lockstep afresh (Shifted n before) where
  grammar_eq h := h.grammar_eq.2.trans h.grammar_eq.1.symm
  alike h := ⟨h.current_eq, h.peek_eq, h.previous_eq⟩
  advance h _ := h.advance
  report cause h := h.report cause
  synchronize := by
    intro goal p₀ q₀ p q inBlock h₀ _ hlater _ hdiagnostics h
    have hstart : q₀.checkpoint = ⟨p₀.checkpoint.position + n, p₀.checkpoint.depth⟩ := by
      simp [checkpoint, h₀.position_eq, h₀.depth_eq]
    unfold Parser.synchronize
    rw [hstart, h.current_eq, h.errorPosition_eq hdiagnostics]
    apply skipTo_lockstep _ _ _ h
    · exact fun h => h.kind_eq
    · intro p q h
      rw [h.position_eq, Nat.add_lt_add_iff_right]
      refine and_congr_right fun hbehind => ?_
      rw [h.atBoundary_eq (Nat.zero_lt_of_lt hbehind)]
    · exact fun h _ _ => h.advance

/-- Where it starts on a statement with a rule of its own, a parser behind other tokens reads the
program of one that starts afresh. -/
theorem Shifted.program_eq (h : Shifted n before p q)
    (hstart : 0 < p.position ∨ (Grammar.standard.statement p.kind).isSome) :
    q.program.1.slots = p.program.1.slots ∧
      q.program.2.diagnostics = before ++ p.program.2.diagnostics := by
  have hgrammar := h.grammar_eq.1
  revert q
  refine program_induction
    (motive := fun p => (0 < p.position ∨ (Grammar.standard.statement p.kind).isSome) →
      ∀ {q}, Shifted n before p q → q.program.1.slots = p.program.1.slots ∧
        q.program.2.diagnostics = before ++ p.program.2.diagnostics)
    (fun p _ heof _ q h => ?_) (fun p hgrammar hkind ih hstart q h => ?_) p hgrammar hstart
  · rw [program_of_eof heof, program_of_eof (h.kind_eq.trans heof)]
    exact ⟨rfl, h.diagnostics_eq⟩
  · have hkind' : q.kind ≠ .eof := by rwa [h.kind_eq]
    have hmoved := position_lt_afterStatement hgrammar hkind false
    obtain ⟨hslot, hnext⟩ := (shifted_lockstep n before).round afresh_kept hgrammar h trivial
      (hstart.imp id fun hstatement => ⟨rfl, hstatement⟩) fun _ _ _ => trivial
    obtain ⟨hslots, hdiagnostics⟩ := ih (.inl (Nat.zero_lt_of_lt hmoved)) hnext
    rw [program_of_ne hgrammar hkind, program_of_ne h.grammar_eq.2 hkind']
    exact ⟨congrArg₂ List.cons hslot hslots, hdiagnostics⟩

end Parser

/-! ## Balanced braces -/

/-- No brace is closed before it was opened, and all are closed in the end. -/
def Balanced (tokens : List Token) : Prop :=
  (∀ count, (tokens.take count).countP (·.kind = .closeCurly) ≤
    (tokens.take count).countP (·.kind = .openCurly)) ∧
  tokens.countP (·.kind = .closeCurly) = tokens.countP (·.kind = .openCurly)

/-- The beginnings that are longer than the list are the list. -/
theorem balanced_iff_of_le_length {tokens : List Token} :
    (∀ count < tokens.length + 1, (tokens.take count).countP (·.kind = .closeCurly) ≤
        (tokens.take count).countP (·.kind = .openCurly)) ∧
      tokens.countP (·.kind = .closeCurly) = tokens.countP (·.kind = .openCurly) ↔
    Balanced tokens := by
  refine and_congr_left fun htotal => ⟨fun h count => ?_, fun h count _ => h count⟩
  by_cases hlt : count < tokens.length + 1
  · exact h count hlt
  · rw [List.take_of_length_le (by omega), htotal]

instance (tokens : List Token) : Decidable (Balanced tokens) :=
  decidable_of_iff _ balanced_iff_of_le_length

namespace Parser

/-- Along tokens that never close more braces than they opened, the depth is the difference. -/
theorem depth_iterate_ofTokens {tokens : List Token} (rest : List Token)
    (hopen : ∀ count, (tokens.take count).countP (·.kind = .closeCurly) ≤
      (tokens.take count).countP (·.kind = .openCurly)) {count : Nat}
      (hle : count ≤ tokens.length) :
    (advance^[count] (ofTokens (tokens ++ rest))).depth +
        (tokens.take count).countP (·.kind = .closeCurly) =
      (tokens.take count).countP (·.kind = .openCurly) := by
  induction count with
  | zero => rfl
  | succ count ih =>
    have hprevious := ih (Nat.le_of_succ_le hle)
    have hnext := hopen (count + 1)
    have hcurrent := current_iterate_ofTokens (tokens ++ rest) count
    rw [List.getElem?_append_left hle, List.getElem?_eq_getElem hle, Option.getD_some] at hcurrent
    have hkind : (advance^[count] (ofTokens (tokens ++ rest))).kind = tokens[count].kind :=
      congrArg Token.kind hcurrent
    rw [Function.iterate_succ_apply', depth_advance]
    rw [List.take_succ_eq_append_getElem hle] at hnext ⊢
    simp only [List.countP_append, List.countP_singleton, ← hkind] at hnext ⊢
    by_cases hclose : (advance^[count] (ofTokens (tokens ++ rest))).kind = .closeCurly
    · simp only [hclose, depthPast_of_closeCurly hclose] at hnext ⊢
      simp at hnext ⊢
      omega
    · by_cases hcurly : (advance^[count] (ofTokens (tokens ++ rest))).kind = .openCurly
      · simp only [hcurly, depthPast_of_openCurly hcurly]
        simp
        omega
      · simp only [hclose, hcurly, depthPast_of_ne hcurly hclose]
        simp
        omega

variable {tokens rest : List Token} {word : Token}

/-- A parser that moved over some tokens of a list sees what one for the rest of the list does. -/
theorem shifted_of_later {q : Parser} (h : Later (ofTokens (tokens ++ word :: rest)) q)
    (hposition : q.position = tokens.length) (hdepth : q.depth = 0) :
    Shifted tokens.length q.diagnostics (ofTokens (word :: rest)) q := by
  have hstart : (ofTokens (tokens ++ word :: rest)).position = 0 := rfl
  obtain ⟨hsource, hwindow, -⟩ := h.eq_iterate
  rw [hposition, hstart, Nat.sub_zero] at hsource hwindow
  obtain ⟨hcurrent, hpeek, hbehind⟩ :=
    iterate_ofSource (.ofTokens (tokens ++ word :: rest)) tokens.length
  have hrest := rest_iterate_list (tokens ++ word :: rest) 1 tokens.length
  rw [List.drop_left] at hrest
  -- the source behind the tokens differs in a line that the next token replaces
  have hrest' : Source.rest^[tokens.length + 1] (.ofTokens (tokens ++ word :: rest)) =
      .list rest word.line := by
    rw [Function.iterate_succ_apply', Source.ofTokens, hrest]
    rfl
  have hgrammar : q.grammar = .standard := h.grammar_eq
  refine ⟨⟨rfl, hgrammar⟩, ?_, ?_, ?_, fun hmoved => absurd hmoved (Nat.lt_irrefl _), ?_,
    hdepth, ?_,
    fun hne => absurd rfl hne⟩
  · rw [hsource, ofTokens, hbehind, Function.iterate_succ_apply', hrest']
    rfl
  · rw [hwindow, ofTokens, hcurrent, Source.ofTokens, hrest]
    rfl
  · rw [hwindow, ofTokens, hpeek, hrest']
    rfl
  · rw [hposition]
    exact (Nat.zero_add _).symm
  · exact (List.append_nil _).symm

/-- Up to the word, what a parser meets does not depend on what follows. -/
theorem current_iterate_append {count : Nat} {token : Token}
    (h : (tokens ++ [word])[count]? = some token) (rest : List Token) :
    (advance^[count] (ofTokens (tokens ++ word :: rest))).window.current = token := by
  have hcurrent := current_iterate_ofTokens (tokens ++ word :: rest) count
  obtain ⟨hlt, -⟩ := List.getElem?_eq_some_iff.1 h
  rw [hcurrent, ← List.singleton_append, ← List.append_assoc, List.getElem?_append_left hlt, h,
    Option.getD_some]

/-- A word that begins statements only is a stopping token behind tokens with balanced braces. -/
theorem within_ofTokens (hbalanced : Balanced tokens) (hhalts : word.kind.Halts)
    (rest : List Token) : Within tokens.length (ofTokens (tokens ++ word :: rest)) := by
  have hkind : (advance^[tokens.length] (ofTokens (tokens ++ word :: rest))).kind = word.kind :=
    congrArg Token.kind (current_iterate_append (by simp) rest)
  have hdepth := depth_iterate_ofTokens (word :: rest) hbalanced.1 (Nat.le_refl _)
  rw [List.take_length, hbalanced.2] at hdepth
  refine ⟨Nat.zero_le _, ?_, fun _ => ?_⟩
  · change (advance^[tokens.length] (ofTokens (tokens ++ word :: rest))).kind.Halts
    rw [hkind]
    exact hhalts
  · change (advance^[tokens.length] (ofTokens (tokens ++ word :: rest))).depth = 0
    omega

/-- Parsers for lists that begin alike are twins. -/
theorem twin_ofTokens (hwithin : Within tokens.length (ofTokens (tokens ++ [word])))
    (rest : List Token) :
    Twin tokens.length (ofTokens (tokens ++ [word])) (ofTokens (tokens ++ word :: rest)) := by
  refine ⟨hwithin, ⟨rfl, rfl⟩, rfl, rfl, rfl, rfl, rfl, fun count hle => ?_⟩
  have hlt : count < (tokens ++ [word]).length := by
    have hstart : (ofTokens (tokens ++ [word])).position = 0 := rfl
    rw [List.length_append, List.length_singleton]
    omega
  have htoken := List.getElem?_eq_getElem hlt
  rw [current_iterate_append htoken, current_iterate_append htoken]

/-- Up to the word, no token is an end of input when none of the list is. -/
theorem kind_ne_eof_of_later (heof : ∀ token ∈ tokens ++ [word], token.kind ≠ .eof) {q : Parser}
    (h : Later (ofTokens (tokens ++ [word])) q) (hle : q.position ≤ tokens.length) :
    q.kind ≠ .eof := by
  have hlt : q.position < (tokens ++ [word]).length := by
    rw [List.length_append, List.length_singleton]
    omega
  have hstart : (ofTokens (tokens ++ [word])).position = 0 := rfl
  obtain ⟨-, hwindow, -⟩ := h.eq_iterate
  rw [hstart, Nat.sub_zero] at hwindow
  rw [kind, hwindow, current_iterate_append (List.getElem?_eq_getElem hlt)]
  exact heof _ (List.getElem_mem hlt)

end Parser

/-- **Error isolation.** Tokens with balanced braces and no end of input among them, whatever is
wrong with them otherwise, add slots and diagnostics of their own before a word that begins a
statement and no expression; from that word on, the program is the one that starts with the word. -/
theorem error_isolation {tokens : List Token} {word : Token}
    (heof : ∀ token ∈ tokens, token.kind ≠ .eof) (hbalanced : Balanced tokens)
    (hstarts : word.kind.startsStatement = true)
    (hstatement : (Grammar.standard.statement word.kind).isSome)
    (hleading : Grammar.standard.leading word.kind = none) :
    ∃ slots diagnostics, ∀ rest,
      parseTokens (tokens ++ [word] ++ rest) =
        (⟨slots ++ (parseTokens ([word] ++ rest)).1.slots⟩,
          diagnostics ++ (parseTokens ([word] ++ rest)).2) := by
  have hhalts : word.kind.Halts := .inr ⟨hstarts, hleading⟩
  have hword : word.kind ≠ .eof := by
    intro heq
    rw [heq] at hstarts
    cases hstarts
  have hnone : ∀ token ∈ tokens ++ [word], token.kind ≠ .eof := by
    intro token hmem
    rcases List.mem_append.1 hmem with hmem | hmem
    · exact heof token hmem
    · rwa [List.mem_singleton.1 hmem]
  have hwithin := within_ofTokens hbalanced hhalts []
  -- the slots and diagnostics before the word are those of the list that ends with it
  obtain ⟨slots, last, hlast, hposition, htwins⟩ :=
    exists_rounds rfl hwithin fun q hq hle => kind_ne_eof_of_later hnone hq hle
  refine ⟨slots, last.diagnostics, fun rest => ?_⟩
  obtain ⟨last', hrounds, htwin⟩ := htwins _ (twin_ofTokens hwithin rest)
  have hdepth : last.depth = 0 := by
    have hzero := htwin.within.depth_eq
    rw [upTo_of_le (Nat.le_of_eq hposition.symm)] at hzero
    exact hzero (kind_ne_eof_of_later hnone hlast.later (Nat.le_of_eq hposition))
  have hshifted := shifted_of_later hrounds.later (htwin.position_eq.trans hposition)
    (htwin.depth_eq.trans hdepth)
  obtain ⟨hslots, hdiagnostics⟩ := hshifted.program_eq (.inr hstatement)
  rw [List.append_assoc, List.singleton_append]
  unfold parseTokens
  simp only [hrounds.program_eq rfl, hslots, hdiagnostics, htwin.diagnostics_eq]

/-- The law behind a statement that breaks off and a block with a fault in it. -/
theorem error_isolation_broken_block :
    let tokens : List Token := [⟨.identifier, "x", 1⟩, ⟨.assignment, "=", 1⟩,
      ⟨.openCurly, "\x7b", 1⟩, ⟨.closeParen, ")", 1⟩, ⟨.closeCurly, "\x7d", 1⟩]
    let word : Token := ⟨.letWord, "let", 2⟩
    Balanced tokens ∧ ∃ slots diagnostics, ∀ rest,
      parseTokens (tokens ++ [word] ++ rest) =
        (⟨slots ++ (parseTokens ([word] ++ rest)).1.slots⟩,
          diagnostics ++ (parseTokens ([word] ++ rest)).2) := by
  intro tokens word
  exact ⟨by decide, error_isolation (by decide) (by decide) rfl rfl rfl⟩

end ScriptFront
