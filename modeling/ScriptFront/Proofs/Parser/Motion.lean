import Mathlib.Logic.Function.Iterate
import ScriptFront.Parser.Program

/-!
# How a parser moves

Whatever a parser reads, its state changes in two ways only: the window shifts by a token, and a
diagnostic is added at the end. `Later p q` says that `q` comes of `p` by such changes, and
`pursue_later` that reading always ends in a later state.

* `Later.position_le`, `Later.remaining_le`, `Later.horizon_le` — a later parser has taken more and
  has less in front of it.
* `Parser.horizon` — how many shifts it takes until there is nothing but ends of input ahead. Every
  shift lowers it while it is positive, even one over an end of input in the middle of a list, which
  `Parser.remaining` does not promise.
* `position_lt_synchronize` — skipping after a statement that did not begin on the end of input
  leaves the token on which it began.
-/

namespace ScriptFront

/-! ## Sources that are used up -/

namespace Lexer

/-- Handing out a token leaves the cursor as far inside a character as it was. -/
theorem skew_accept (lexer : Lexer) (pattern : Lexeme.Pattern) (lexeme : List Char) :
    (lexer.accept pattern lexeme).skew = lexer.skew := by
  cases pattern <;> rfl

/-- Scanning a lexeme leaves the cursor as far inside a character as it was. -/
theorem skew_scan (lexer : Lexer) : lexer.scan.skew = lexer.skew := by
  unfold scan
  split
  · exact skew_accept _ _ _
  · split <;> rfl

/-- A cursor before a character, or at the end, always finds a token. -/
theorem next?_isSome {lexer : Lexer} (h : lexer.skew = 0) : lexer.next?.isSome := by
  fun_induction next? lexer with
  | case1 => rfl
  | case2 => rfl
  | case3 lexer _ _ hskew => exact absurd h hskew
  | case4 lexer _ _ _ ih => exact ih (by rw [skew_scan, h])

/-- While something waits or is left of the text, a token makes the lexer smaller, be it an end of
input or not. -/
theorem next?_size_lt {lexer after : Lexer} {token : Token}
    (h : lexer.next? = some (token, after)) (hmore : lexer.pending ≠ [] ∨ lexer.rest ≠ []) :
    after.size < lexer.size := by
  fun_induction next? lexer with
  | case1 lexer token' later hpending =>
    cases h
    simp [size, hpending]
  | case2 lexer hpending hrest => simp [hpending, hrest] at hmore
  | case3 => cases h
  | case4 lexer hpending hrest _ ih =>
    have hscan := size_scan_le lexer hrest
    by_cases hleft : lexer.scan.pending ≠ [] ∨ lexer.scan.rest ≠ []
    · exact Nat.lt_of_lt_of_le (ih h hleft) hscan
    · -- the text ended in a gap, and the token is the end of input
      rw [not_or, not_not, not_not] at hleft
      rw [next?_of_atEnd hleft.1 hleft.2] at h
      cases h
      have hpos : 0 < lexer.rest.length := List.length_pos_iff.2 hrest
      simp only [size, hleft.1, hleft.2, List.length_nil]
      omega

end Lexer

namespace Source

/-- Nothing but ends of input will come. -/
def spent : Source → Bool
  | list tokens _ => tokens.isEmpty
  | lexer l => l.pending.isEmpty && (l.rest.isEmpty || l.skew != 0)
  | sequence tokens count => decide (tokens.length ≤ count)

/-- A source that is used up gives an end of input and stays used up. -/
theorem next_of_spent {source : Source} (h : source.spent = true) :
    source.next.1.kind = .eof ∧ source.next.2.spent = true := by
  match source, h with
  | list [] lastLine, _ => exact ⟨rfl, rfl⟩
  | lexer l, h =>
    have hspent := h
    simp only [spent, Bool.and_eq_true, List.isEmpty_iff, Bool.or_eq_true, bne_iff_ne] at h
    obtain ⟨hpending, hend⟩ := h
    by_cases hrest : l.rest = []
    · rw [next, Lexer.next?_of_atEnd hpending hrest]
      exact ⟨rfl, hspent⟩
    · have hnone : l.next? = none := by
        rw [Lexer.next?, hpending]
        simp [hrest, hend.resolve_left hrest]
      rw [next, hnone]
      exact ⟨rfl, hspent⟩
  | sequence tokens count, h =>
    have hlength : tokens.length ≤ count := of_decide_eq_true h
    exact ⟨tokens.kind_eq count hlength, decide_eq_true (Nat.le_succ_of_le hlength)⟩

/-- Until it is used up, a source gets smaller with every token. -/
theorem next_size_lt {source : Source} (h : source.spent = false) :
    source.next.2.size < source.size := by
  match source, h with
  | list (token :: rest) _, _ => simp [next, size]
  | lexer l, h =>
    simp only [spent, Bool.and_eq_false_iff, List.isEmpty_eq_false_iff, Bool.or_eq_false_iff,
      bne_eq_false_iff_eq] at h
    cases hnext : l.next? with
    | none =>
      -- only a cursor inside a character finds nothing, and then the source is used up
      exfalso
      rcases h with hpending | ⟨-, hskew⟩
      · obtain ⟨token, later, hcons⟩ := List.exists_cons_of_ne_nil hpending
        simp [Lexer.next?_of_pending hcons] at hnext
      · simpa [hnext] using Lexer.next?_isSome hskew
    | some found =>
      simp only [next, hnext, size]
      exact Lexer.next?_size_lt hnext (h.imp id And.left)
  | sequence tokens count, h =>
    have hlength : ¬ tokens.length ≤ count := of_decide_eq_false h
    simp only [next, size]
    omega

end Source

namespace Parser

/-! ## Simple facts about one change -/

/-- A shift counts one more token. -/
@[simp] theorem position_advance (p : Parser) : p.advance.position = p.position + 1 := rfl

/-- A shift keeps the grammar. -/
@[simp] theorem grammar_advance (p : Parser) : p.advance.grammar = p.grammar := rfl

/-- A shift records nothing. -/
@[simp] theorem diagnostics_advance (p : Parser) : p.advance.diagnostics = p.diagnostics := rfl

/-- Behind a shift, the kind at hand is that of the next token. -/
@[simp] theorem kind_advance (p : Parser) : p.advance.kind = p.window.peek.kind := rfl

/-- Behind a shift, the next token is at hand. -/
@[simp] theorem current_advance (p : Parser) : p.advance.window.current = p.window.peek := rfl

/-- Behind a shift, the token at hand was the one before. -/
@[simp] theorem previous_advance (p : Parser) : p.advance.window.previous = p.window.current := rfl

/-- A diagnostic leaves the window. -/
@[simp] theorem window_report (p : Parser) (cause : Cause) :
    (p.report cause).window = p.window := rfl

/-- A diagnostic leaves the kind at hand. -/
@[simp] theorem kind_report (p : Parser) (cause : Cause) : (p.report cause).kind = p.kind := rfl

/-- A diagnostic counts no token. -/
@[simp] theorem position_report (p : Parser) (cause : Cause) :
    (p.report cause).position = p.position := rfl

/-- A diagnostic keeps the grammar. -/
@[simp] theorem grammar_report (p : Parser) (cause : Cause) :
    (p.report cause).grammar = p.grammar := rfl

/-! ## Later states -/

/-- The second parser comes of the first by shifts of the window and by diagnostics. -/
inductive Later (p : Parser) : Parser → Prop
  | refl : Later p p
  | advance {q : Parser} (h : Later p q) : Later p q.advance
  | report {q : Parser} (h : Later p q) (cause : Cause) : Later p (q.report cause)

/-- What is later than a later state is later. -/
theorem Later.trans {p q r : Parser} (h₁ : Later p q) (h₂ : Later q r) : Later p r := by
  induction h₂ with
  | refl => exact h₁
  | advance _ ih => exact ih.advance
  | report _ cause ih => exact ih.report cause

/-- Skipping from token to token leads to a later state. -/
theorem skipTo_later (p : Parser) (start : Checkpoint) (inBlock : Bool)
    (failedLine failedAt : Nat) : Later p (p.skipTo start inBlock failedLine failedAt) := by
  fun_induction skipTo p start inBlock failedLine failedAt with
  | case1 => exact .refl
  | case2 => exact .refl
  | case3 p _ _ ih => exact Later.refl.advance.trans ih

/-- Skipping to a fresh start leads to a later state. -/
theorem synchronize_later (p : Parser) (start : Checkpoint) (inBlock : Bool) :
    Later p (p.synchronize start inBlock) :=
  skipTo_later p start inBlock _ _

/-- Following a plan ends in a later state when pursuing goals does. -/
theorem follow_later {α : Type} {pursue : (goal : Goal) → Reading goal.Answer}
    (hpursue : ∀ goal p, Later p (pursue goal p).2) (rule : Rule α) (p : Parser) :
    Later p (rule.follow pursue p).2 := by
  induction rule generalizing p with
  | done value => exact .refl
  | fail cause => exact Later.refl.report cause
  | look next ih => exact ih p.window p
  | shift next ih => exact Later.refl.advance.trans (ih p.advance)
  | need goal next ih =>
    have hgoal := hpursue goal p
    simp only [Rule.follow]
    split <;> rename_i heq <;> rw [heq] at hgoal
    · exact hgoal.trans (ih _ _)
    · exact hgoal
    · exact hgoal
  | salvage goal next rest ih =>
    have hgoal := hpursue goal p
    simp only [Rule.follow]
    split <;> rename_i heq <;> rw [heq] at hgoal
    · exact hgoal.trans (ih _ _)
    · exact (hgoal.trans (synchronize_later _ _ _)).trans (hpursue rest _)
    · exact hgoal

/-- Pursuing a goal ends in a later state, whatever the grammar. -/
theorem pursue_later (budget : Nat) (goal : Goal) (p : Parser) :
    Later p (pursue budget goal p).2 := by
  induction budget generalizing goal p with
  | zero => exact .refl
  | succ budget ih => exact follow_later ih _ p

/-! ## What a later state has in common with an earlier one -/

namespace Later

variable {p q : Parser}

/-- A later parser has the same grammar. -/
theorem grammar_eq (h : Later p q) : q.grammar = p.grammar := by
  induction h with
  | refl => rfl
  | advance _ ih => exact ih
  | report _ _ ih => exact ih

/-- A later parser has taken no fewer tokens. -/
theorem position_le (h : Later p q) : p.position ≤ q.position := by
  induction h with
  | refl => exact Nat.le_refl _
  | advance _ ih => exact Nat.le_succ_of_le ih
  | report _ _ ih => exact ih

/-- A parser that has taken no further token sees what it saw. -/
theorem window_eq (h : Later p q) (hposition : q.position = p.position) :
    q.window = p.window := by
  induction h with
  | refl => rfl
  | @advance q hq _ =>
    have hle := hq.position_le
    rw [position_advance] at hposition
    omega
  | report _ _ ih => exact ih hposition

/-- Diagnostics are only ever added at the end. -/
theorem diagnostics_le (h : Later p q) : p.diagnostics <+: q.diagnostics := by
  induction h with
  | refl => exact List.prefix_rfl
  | advance _ ih => exact ih
  | report _ _ ih => exact ih.trans (List.prefix_append _ _)

end Later

/-! ## How far the input reaches -/

/-- No shift makes `remaining` larger. -/
theorem remaining_advance_le (p : Parser) : p.advance.remaining ≤ p.remaining := by
  have hsize := p.source.next_size
  simp only [remaining, advance]
  omega

/-- A later parser has no more in front of it. -/
theorem Later.remaining_le {p q : Parser} (h : Later p q) : q.remaining ≤ p.remaining := by
  induction h with
  | refl => exact Nat.le_refl _
  | advance _ ih => exact Nat.le_trans (remaining_advance_le _) ih
  | report _ _ ih => exact ih

/-- After how many shifts there is nothing but ends of input in sight and to come, at most. -/
def horizon (p : Parser) : Nat :=
  if p.source.spent then
    if p.window.peek.kind = .eof then p.window.current.weight else 2
  else p.source.size + 2

/-- A diagnostic leaves the horizon. -/
@[simp] theorem horizon_report (p : Parser) (cause : Cause) :
    (p.report cause).horizon = p.horizon := rfl

/-- A shift brings the horizon nearer. -/
theorem horizon_advance (p : Parser) : p.advance.horizon ≤ p.horizon - 1 := by
  have hweight := p.window.peek.weight_le_one
  unfold horizon
  by_cases hspent : p.source.spent = true
  · obtain ⟨heof, hnext⟩ := Source.next_of_spent hspent
    have hspent' : p.advance.source.spent = true := hnext
    have heof' : p.advance.window.peek.kind = .eof := heof
    rw [if_pos hspent', if_pos heof', if_pos hspent, current_advance]
    by_cases hpeek : p.window.peek.kind = .eof
    · simp [Token.weight, hpeek]
    · rw [if_neg hpeek]
      omega
  · rw [Bool.not_eq_true] at hspent
    have hsize : p.advance.source.size < p.source.size := Source.next_size_lt hspent
    have hcurrent := p.advance.window.current.weight_le_one
    simp only [hspent, Bool.false_eq_true, if_false]
    split
    · split <;> omega
    · omega

/-- Where the horizon has been reached, both tokens ahead are ends of input. -/
theorem kind_of_horizon_eq_zero {p : Parser} (h : p.horizon = 0) :
    p.kind = .eof ∧ p.window.peek.kind = .eof := by
  unfold horizon at h
  split at h
  · split at h
    · next hpeek =>
      refine ⟨?_, hpeek⟩
      by_contra hkind
      rw [Token.weight_of_ne hkind] at h
      cases h
    · cases h
  · cases h

/-- The horizon is at most two shifts further than what is counted as left. -/
theorem horizon_le_remaining (p : Parser) : p.horizon ≤ p.remaining + 2 := by
  unfold horizon remaining
  split
  · split <;> omega
  · omega

/-- A later parser is nearer to the horizon, by a shift for every token taken. -/
theorem Later.horizon_le {p q : Parser} (h : Later p q) :
    q.horizon ≤ p.horizon - (q.position - p.position) := by
  induction h with
  | refl => simp
  | @advance q hq ih =>
    have hadvance := horizon_advance q
    have hposition := hq.position_le
    rw [position_advance]
    omega
  | report _ _ ih => exact ih

/-! ## Skipping leaves the first token of a failed statement -/

/-- Skipping from the place where a statement began on a token other than the end of input, or from
any later place, leaves that token. -/
theorem position_lt_synchronize {p q : Parser} (hlater : Later p q) (hkind : p.kind ≠ .eof)
    (inBlock : Bool) : p.position < (q.synchronize p.checkpoint inBlock).position := by
  have hle := hlater.position_le
  have hskip := (skipTo_later q.advance p.checkpoint inBlock q.window.current.line
    q.errorPosition).position_le
  rw [position_advance] at hskip
  unfold synchronize
  rw [skipTo]
  by_cases hmoved : q.position = p.position
  · have hsame : q.kind = p.kind := by rw [kind, hlater.window_eq hmoved, kind]
    rw [dif_neg (by rwa [hsame]), if_neg (by simp [checkpoint, hmoved])]
    omega
  · split
    · omega
    · split <;> omega

end Parser

end ScriptFront
