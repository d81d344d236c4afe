import ScriptFront.Proofs.Parser.MoveInvariantPlans

/-!
# Tokens that stop every reading

On the end of input, and on a word that begins statements but no expression, every reading stops: no
rule takes such a token as part of something that began before it, and skipping does not pass it.
Where such a token stands at a position `n`, with no brace open before it unless it is the end of
input, it is a *stopping token*.

* `Parser.Within` — the parser stands before the stopping token or on it; `Parser.Inside` — before
  it.
* `Parser.Level`, `Parser.Spans` — how a part that was read leaves the braces: each that it opened
  is closed, and none that was open before it.
* `Parser.Stays` — on the way from one state to a later one, never fewer braces are open than a
  given number.
* `Within.synchronize`, `stays_synchronize` — skipping keeps to the stopping token, and within a
  block to the braces of the block.
* `stopContract` — the contract that no goal leads past the stopping token or out of the braces in
  which it began.
* `stopInvariant`, `stopContract_kept` — it is the contract of a move invariant. So whatever is
  asked for before a stopping token, the reading stays within it and leaves the braces as it found
  them.
-/

namespace ScriptFront

/-! ## Kinds that stop a reading -/

namespace Kind

/-- No expression starts on a token of the kind or goes on at it: the end of input, and the words
that begin statements only. -/
def Halts (kind : Kind) : Prop :=
  kind = .eof ∨ (kind.startsStatement = true ∧ Grammar.standard.leading kind = none)

instance (kind : Kind) : Decidable kind.Halts :=
  inferInstanceAs (Decidable (_ ∨ _))

/-- The kind is neither a brace nor one that stops a reading. -/
def Plain (kind : Kind) : Prop :=
  ¬ kind.Halts ∧ kind ≠ .openCurly ∧ kind ≠ .closeCurly

instance (kind : Kind) : Decidable kind.Plain :=
  inferInstanceAs (Decidable (_ ∧ _))

variable {kind : Kind}

/-- No expression starts on a token that stops every reading. -/
theorem Halts.leading_eq (h : kind.Halts) : Grammar.standard.leading kind = none := by
  rcases h with rfl | h
  · rfl
  · exact h.2

/-- Such a token begins a statement, unless it is the end of input. -/
theorem Halts.startsStatement (h : kind.Halts) (heof : kind ≠ .eof) :
    kind.startsStatement = true :=
  (h.resolve_left heof).1

/-- Such a token is no closing brace. -/
theorem Halts.ne_closeCurly (h : kind.Halts) : kind ≠ .closeCurly := by
  rintro rfl
  revert h
  decide

/-- Only a brace begins an expression and changes the depth. -/
theorem plain_of_first {rule : ExpressionRule}
    (h : Grammar.standard.trailingRule kind = some rule ∨ Grammar.standard.leading kind = some rule)
    (hdict : rule ≠ .dict) : kind.Plain := by
  cases kind <;> rcases h with h | h <;> cases h <;> first | decide | exact absurd rfl hdict

/-- Only an opening brace begins a dict. -/
theorem eq_openCurly_of_first
    (h : Grammar.standard.trailingRule kind = some .dict ∨
      Grammar.standard.leading kind = some .dict) : kind = .openCurly := by
  cases kind <;> rcases h with h | h <;> first | rfl | cases h

/-- Only an opening brace begins a block. -/
theorem eq_openCurly_of_statement (h : Grammar.standard.statement kind = some .block) :
    kind = .openCurly := by
  cases kind <;> first | rfl | cases h

/-- An operator that holds its left operand is neither a brace nor a word of a statement. -/
theorem plain_of_lt_powerOf {power : Power} (h : power < Grammar.standard.powerOf kind) :
    kind.Plain := by
  cases kind <;> first | decide | exact absurd h (Nat.not_lt_zero _)

/-- No statement rule but that of blocks starts on a brace. -/
theorem ne_curly_of_statement {rule : StatementRule}
    (h : Grammar.standard.statement kind = some rule) (hblock : rule ≠ .block) :
    kind ≠ .openCurly ∧ kind ≠ .closeCurly := by
  constructor <;> rintro rfl
  · cases h
    exact hblock rfl
  · cases h

end Kind

namespace Parser

/-! ## Open braces -/

/-- How many braces are open behind the token at hand. -/
def depthPast (p : Parser) : Nat :=
  depthAfter p.kind p.depth

/-- How many braces are open both before and behind the token at hand. -/
def floor (p : Parser) : Nat :=
  min p.depth p.depthPast

/-- Behind a shift, as many braces are open as behind the token at hand. -/
@[simp] theorem depth_advance (p : Parser) : p.advance.depth = p.depthPast := rfl

/-- A diagnostic opens and closes no brace. -/
@[simp] theorem depth_report (p : Parser) (cause : Cause) : (p.report cause).depth = p.depth := rfl

/-- The braces open before and behind the token at hand are open before it. -/
theorem floor_le_depth (p : Parser) : p.floor ≤ p.depth :=
  Nat.min_le_left _ _

/-- The braces open before and behind the token at hand are open behind it. -/
theorem floor_le_depthPast (p : Parser) : p.floor ≤ p.depthPast :=
  Nat.min_le_right _ _

/-- A token that is no brace leaves the braces open. -/
theorem depthPast_of_ne {p : Parser} (hopen : p.kind ≠ .openCurly) (hclose : p.kind ≠ .closeCurly) :
    p.depthPast = p.depth := by
  unfold depthPast depthAfter
  split
  · exact absurd ‹_› hopen
  · exact absurd ‹_› hclose
  · rfl

/-- An opening brace opens one. -/
theorem depthPast_of_openCurly {p : Parser} (h : p.kind = .openCurly) :
    p.depthPast = p.depth + 1 := by
  rw [depthPast, h, depthAfter]

/-- A closing brace closes one. -/
theorem depthPast_of_closeCurly {p : Parser} (h : p.kind = .closeCurly) :
    p.depthPast = p.depth - 1 := by
  rw [depthPast, h, depthAfter]

/-- Around a token that is no brace, all open braces stay open. -/
theorem floor_of_ne {p : Parser} (hopen : p.kind ≠ .openCurly) (hclose : p.kind ≠ .closeCurly) :
    p.floor = p.depth := by
  rw [floor, depthPast_of_ne hopen hclose, Nat.min_self]

/-- Around an opening brace, all braces that were open stay open. -/
theorem floor_of_openCurly {p : Parser} (h : p.kind = .openCurly) : p.floor = p.depth := by
  rw [floor, depthPast_of_openCurly h]
  omega

/-- Only a closing brace closes one. -/
theorem depth_le_depthPast {p : Parser} (h : p.kind ≠ .closeCurly) : p.depth ≤ p.depthPast := by
  by_cases hopen : p.kind = .openCurly
  · rw [depthPast_of_openCurly hopen]
    omega
  · exact Nat.le_of_eq (depthPast_of_ne hopen h).symm

/-- Around a token that is no closing brace, all braces that were open stay open. -/
theorem floor_of_ne_closeCurly {p : Parser} (h : p.kind ≠ .closeCurly) : p.floor = p.depth :=
  Nat.min_eq_left (depth_le_depthPast h)

variable {lower lower' : Nat} {p q r : Parser}

/-! ## Braces along the way -/

/-- From the first state to the second, through states in which so many braces are open at least. -/
inductive Stays (lower : Nat) (p : Parser) : Parser → Prop
  | refl (h : lower ≤ p.depth) : Stays lower p p
  | advance {q : Parser} (h : Stays lower p q) (hdepth : lower ≤ q.advance.depth) :
      Stays lower p q.advance
  | report {q : Parser} (h : Stays lower p q) (cause : Cause) : Stays lower p (q.report cause)

namespace Stays

/-- What stays within braces leads to a later state. -/
theorem later (h : Stays lower p q) : Later p q := by
  induction h with
  | refl _ => exact .refl
  | advance _ _ ih => exact ih.advance
  | report _ cause ih => exact ih.report cause

/-- In the last state, too, so many braces are open. -/
theorem le_depth (h : Stays lower p q) : lower ≤ q.depth := by
  induction h with
  | refl h => exact h
  | advance _ hdepth _ => exact hdepth
  | report _ _ ih => exact ih

/-- Where more braces stay open, fewer do. -/
theorem mono (h : Stays lower' p q) (hle : lower ≤ lower') : Stays lower p q := by
  induction h with
  | refl h => exact .refl (Nat.le_trans hle h)
  | advance _ hdepth ih => exact ih.advance (Nat.le_trans hle hdepth)
  | report _ cause ih => exact ih.report cause

/-- One way after another stays within the braces of both. -/
theorem trans (h₁ : Stays lower p q) (h₂ : Stays lower q r) : Stays lower p r := by
  induction h₂ with
  | refl _ => exact h₁
  | advance _ hdepth ih => exact ih.advance hdepth
  | report _ cause ih => exact ih.report cause

/-- A shift in front stays within the braces, if these are open before and behind the token. -/
theorem of_advance (h : Stays lower p.advance q) (hdepth : lower ≤ p.depth)
    (hpast : lower ≤ p.depthPast) : Stays lower p q :=
  ((refl hdepth).advance hpast).trans h

end Stays

/-! ## The stopping token -/

/-- The parser after as many shifts as bring it to the position. -/
def upTo (n : Nat) (p : Parser) : Parser :=
  advance^[n - p.position] p

/-- At the position or behind it, no shift is needed. -/
theorem upTo_of_le {n : Nat} {p : Parser} (h : n ≤ p.position) : p.upTo n = p := by
  rw [upTo, Nat.sub_eq_zero_of_le h, Function.iterate_zero_apply]

/-- A shift before the position is one of those that lead there. -/
theorem upTo_advance {n : Nat} {p : Parser} (h : p.position < n) : p.advance.upTo n = p.upTo n := by
  have hgap : n - p.position = n - p.advance.position + 1 := by
    rw [position_advance]
    omega
  rw [upTo, upTo, hgap, Function.iterate_succ_apply]

/-- A diagnostic makes no difference to where shifts lead. -/
theorem advance_iterate_report (count : Nat) (p : Parser) (cause : Cause) :
    advance^[count] (p.report cause) =
      { advance^[count] p with
        errorPosition := p.position
        diagnostics := (p.report cause).diagnostics } := by
  induction count with
  | zero => rfl
  | succ count ih =>
    rw [Function.iterate_succ_apply', Function.iterate_succ_apply', ih]
    rfl

/-- The parser stands before the stopping token at the position, or on it. -/
structure Within (n : Nat) (p : Parser) : Prop where
  position_le : p.position ≤ n
  halts : (p.upTo n).kind.Halts
  depth_eq : (p.upTo n).kind ≠ .eof → (p.upTo n).depth = 0

/-- The parser stands before the stopping token at the position. -/
structure Inside (n : Nat) (p : Parser) : Prop extends Within n p where
  position_lt : p.position < n

variable {n : Nat}

/-- Before the stopping token, a shift leads onto it at most. -/
theorem Inside.advance (h : Inside n p) : Within n p.advance := by
  refine ⟨h.position_lt, ?_, ?_⟩ <;> rw [upTo_advance h.position_lt]
  · exact h.halts
  · exact h.depth_eq

/-- A diagnostic leads nowhere. -/
theorem Within.report (h : Within n p) (cause : Cause) : Within n (p.report cause) := by
  refine ⟨h.position_le, ?_, ?_⟩ <;>
    rw [upTo, position_report, advance_iterate_report]
  · exact h.halts
  · exact h.depth_eq

/-- A token that stops no reading is not the stopping token. -/
theorem Within.inside_of_not_halts (h : Within n p) (hkind : ¬ p.kind.Halts) : Inside n p := by
  refine ⟨h, Nat.lt_of_le_of_ne h.position_le fun heq => hkind ?_⟩
  rw [← upTo_of_le (Nat.le_of_eq heq.symm)]
  exact h.halts

/-- On the stopping token no brace is open, unless it is the end of input. -/
theorem Within.inside_of_depth_pos (h : Within n p) (hdepth : 0 < p.depth) (hkind : p.kind ≠ .eof) :
    Inside n p := by
  refine ⟨h, Nat.lt_of_le_of_ne h.position_le fun heq => ?_⟩
  have hzero := h.depth_eq
  rw [upTo_of_le (Nat.le_of_eq heq.symm)] at hzero
  rw [hzero hkind] at hdepth
  exact Nat.lt_irrefl _ hdepth

/-- The token at the position stops every reading. -/
theorem Within.halts_of_eq (h : Within n p) (heq : p.position = n) : p.kind.Halts := by
  have hhalts := h.halts
  rwa [upTo_of_le (Nat.le_of_eq heq.symm)] at hhalts

/-- The step onto a token that is neither a brace nor a stopping token. -/
theorem Inside.advance_plain (h : Inside n p) (hpeek : p.window.peek.kind.Plain) :
    Inside n p.advance ∧ p.advance.depthPast = p.depthPast :=
  ⟨h.advance.inside_of_not_halts hpeek.1, depthPast_of_ne hpeek.2.1 hpeek.2.2⟩

/-! ## Skipping -/

/-- Where skipping after a statement that began before the stopping token goes on, the stopping
token lies ahead. -/
theorem Within.inside_of_skipping (hgrammar : p.grammar = .standard) (h : Within n p)
    {start : Checkpoint} {inBlock : Bool} {failedLine failedAt : Nat} (hstart : start.position < n)
    (heof : p.kind ≠ .eof) (hstop : ¬ (start.position < p.position ∧
      p.atBoundary start inBlock failedLine failedAt = true)) : Inside n p := by
  refine ⟨h, Nat.lt_of_le_of_ne h.position_le fun heq => hstop ?_⟩
  -- on the stopping token the statement is behind, and the word at hand is no leading one
  have hhalts := h.halts_of_eq heq
  have hleading : p.grammar.leading p.window.current.kind = none := by
    rw [hgrammar]
    exact hhalts.leading_eq
  have hstarts : p.window.current.kind.startsStatement = true := hhalts.startsStatement heof
  have hclose : p.window.current.kind ≠ .closeCurly := hhalts.ne_closeCurly
  refine ⟨heq ▸ hstart, ?_⟩
  simp [atBoundary, hleading, hstarts, hclose]

/-- Skipping after a statement that began before the stopping token stops on the stopping token at
the latest. -/
theorem Within.skipTo (hgrammar : p.grammar = .standard) (h : Within n p) {start : Checkpoint}
    (hstart : start.position < n) (inBlock : Bool) (failedLine failedAt : Nat) :
    Within n (p.skipTo start inBlock failedLine failedAt) := by
  fun_induction Parser.skipTo p start inBlock failedLine failedAt with
  | case1 => exact h
  | case2 => exact h
  | case3 p heof hstop ih =>
    exact ih hgrammar (h.inside_of_skipping hgrammar hstart heof hstop).advance

/-- Skipping to a fresh start keeps to the stopping token. -/
theorem Within.synchronize (hgrammar : p.grammar = .standard) (h : Within n p) {start : Checkpoint}
    (hstart : start.position < n) (inBlock : Bool) : Within n (p.synchronize start inBlock) :=
  h.skipTo hgrammar hstart inBlock _ _

/-- Skipping within a block stays within the braces that were open before the statement. -/
theorem stays_skipTo (start : Checkpoint) {failedLine failedAt : Nat}
    (hposition : start.position ≤ p.position) (hdepth : start.depth ≤ p.depth)
    (hkind : start.position < p.position ∨ p.kind ≠ .closeCurly) :
    Stays start.depth p (p.skipTo start true failedLine failedAt) := by
  fun_induction Parser.skipTo p start true failedLine failedAt with
  | case1 => exact .refl hdepth
  | case2 => exact .refl hdepth
  | case3 p _ hstop ih =>
    have hmoved : start.position < p.advance.position := by
      rw [position_advance]
      omega
    have hpast : start.depth ≤ p.depthPast := by
      by_cases hclose : p.kind = .closeCurly
      · -- a brace that closes the block itself would have stopped the skipping
        have hbehind := hkind.resolve_right (not_not_intro hclose)
        have hnested : start.depth < p.depth := by
          by_contra hle
          exact hstop ⟨hbehind,
            by simp [atBoundary, hle, show p.window.current.kind = _ from hclose]⟩
        rw [depthPast_of_closeCurly hclose]
        omega
      · exact Nat.le_trans hdepth (depth_le_depthPast hclose)
    exact (ih (Nat.le_of_lt hmoved) hpast (.inl hmoved)).of_advance hdepth hpast

/-- Skipping within a block stays within its braces. -/
theorem stays_synchronize (hlater : Later p q) (hkind : p.kind ≠ .closeCurly)
    (hdepth : p.depth ≤ q.depth) : Stays p.depth q (q.synchronize p.checkpoint true) := by
  have hle := hlater.position_le
  refine stays_skipTo p.checkpoint hle hdepth ?_
  by_cases hmoved : q.position = p.position
  · right
    rwa [kind, hlater.window_eq hmoved]
  · left
    exact Nat.lt_of_le_of_ne hle fun heq => hmoved heq.symm

/-! ## Parts and their braces -/

/-- From the first parser to the second, tokens were taken that open and close braces in pairs. -/
structure Level (n : Nat) (p q : Parser) : Prop extends Inside n q where
  depthPast_eq : q.depthPast = p.depthPast
  floor_le : p.floor ≤ q.depth

/-- The part that begins on the token at hand of the first parser ends on that of the second. -/
structure Spans (n : Nat) (p q : Parser) : Prop extends Inside n q where
  depthPast_eq : q.depthPast = p.depth
  depth_le : p.depth ≤ q.depth

/-- Before the stopping token, no token taken leaves the braces as they are. -/
theorem Level.refl (h : Inside n p) : Level n p p :=
  ⟨h, rfl, p.floor_le_depth⟩

/-- Tokens with braces in pairs leave no fewer open around the token at hand. -/
theorem Level.floor_le_floor (h : Level n p q) : p.floor ≤ q.floor := by
  refine Nat.le_min.2 ⟨h.floor_le, ?_⟩
  rw [h.depthPast_eq]
  exact p.floor_le_depthPast

/-- Tokens with braces in pairs may follow one another. -/
theorem Level.trans (h₁ : Level n p q) (h₂ : Level n q r) : Level n p r :=
  ⟨h₂.toInside, h₂.depthPast_eq.trans h₁.depthPast_eq,
    Nat.le_trans h₁.floor_le_floor h₂.floor_le⟩

/-- A part leaves open what was open in front of it. -/
theorem Spans.depth_le_floor (h : Spans n p q) : p.depth ≤ q.floor :=
  Nat.le_min.2 ⟨h.depth_le, Nat.le_of_eq h.depthPast_eq.symm⟩

/-- A part can be followed by tokens that leave the braces level. -/
theorem Spans.trans (h₁ : Spans n p q) (h₂ : Level n q r) : Spans n p r :=
  ⟨h₂.toInside, h₂.depthPast_eq.trans h₁.depthPast_eq,
    Nat.le_trans h₁.depth_le_floor h₂.floor_le⟩

/-- A part that begins on the next token leaves the braces level. -/
theorem Level.of_spans (h : Spans n p.advance q) : Level n p q :=
  ⟨h.toInside, h.depthPast_eq, Nat.le_trans p.floor_le_depthPast h.depth_le⟩

/-- A part may start on a token that is no brace and go on behind it. -/
theorem Spans.of_level (hopen : p.kind ≠ .openCurly) (hclose : p.kind ≠ .closeCurly)
    (h : Level n p q) : Spans n p q := by
  refine ⟨h.toInside, h.depthPast_eq.trans (depthPast_of_ne hopen hclose), ?_⟩
  rw [← floor_of_ne hopen hclose]
  exact h.floor_le

/-- A token that is neither a brace nor a stopping token leaves the braces as they are. -/
theorem Level.advance_plain (h : Inside n p) (hpeek : p.window.peek.kind.Plain) :
    Level n p p.advance := by
  obtain ⟨hinside, heq⟩ := h.advance_plain hpeek
  exact ⟨hinside, heq, p.floor_le_depthPast⟩

end Parser

open ScriptFront.Parser

/-! ## The contract -/

/-- No goal leads past the stopping token. An expression, a pattern or a statement may be asked for
on the stopping token, and is then absent; each spans its own braces. The goals for what is left of
something in braces end before the closing one, and all others leave the braces level. -/
def stopContract (n : Nat) : Contract where
  free p := p.position < n
  alike p w :=
    w.previous = p.window.previous ∧ w.current = p.window.current ∧
      (p.position < n → w.peek = p.window.peek)
  asked
    | .expr _, p | .pattern, p => Within n p
    | .statements, p => Within n p ∧ 0 < p.depth
    | .list close, p | .listTail close, p => Inside n p ∧ close.Plain
    | _, p => Inside n p
  found
    | .expr _, p, _, q | .pattern, p, _, q | .stmt, p, _, q => Spans n p q
    | .statements, p, _, q => Inside n q ∧ q.kind = .closeCurly ∧ q.depth = p.depth
    | .pairs, p, _, q | .clauses, p, _, q | .matchCases, p, _, q | .members, p, _, q =>
      Level n p q ∧ q.window.peek.kind = .closeCurly
    | _, p, _, q => Level n p q
  absent
    | .expr _, p, q | .pattern, p, q | .stmt, p, q | .statements, p, q =>
      Within n q ∧ p.depth ≤ q.depth
    | _, p, q => Within n q ∧ p.floor ≤ q.depth

/-- Before the stopping token, a plan sees the whole window. -/
theorem Parser.Inside.eq_of_alike {n : Nat} {p : Parser} (h : Inside n p) {w : Window}
    (hw : (stopContract n).alike p w) : w = p.window := by
  obtain ⟨hprevious, hcurrent, hpeek⟩ := hw
  cases w
  cases hprevious
  cases hcurrent
  cases hpeek h.position_lt
  rfl

variable {n : Nat} {p q : Parser}

/-- A part in braces spans them. -/
theorem Parser.Level.spans_braces (h : Level n p q) (hkind : p.kind = .openCurly)
    (hpeek : q.window.peek.kind = .closeCurly) : Spans n p q.advance := by
  have hclose : q.advance.kind = .closeCurly := hpeek
  have hdepth : q.advance.depth = p.depth + 1 := by
    rw [depth_advance, h.depthPast_eq, depthPast_of_openCurly hkind]
  have hpast : q.advance.depthPast = p.depth := by
    rw [depthPast_of_closeCurly hclose, hdepth, Nat.add_sub_cancel]
  exact ⟨h.advance.inside_of_not_halts (by rw [hclose]; decide), hpast, by omega⟩

/-- Plans keep to the stopping token as they move. -/
def stopInvariant (n : Nat) : MoveInvariant where
  around := stopContract n
  Taken := Inside n
  Open := Within n
  Level := Level n
  Spans := Spans n
  Lost p q := Within n q ∧ p.floor ≤ q.depth
  Missed p q := Within n q ∧ p.depth ≤ q.depth
  Step := Kind.Plain
  Excuse _ := True
  step_named {kind} := by
    have hall : ∀ kind ∈ Kind.named, kind.Plain := by decide
    exact hall kind
  excuse_of_not_forUntaken _ := trivial
  window_eq hp hw := hp.eq_of_alike hw
  current_eq _ hw := hw.2.1
  free hp := hp.position_lt
  open_advance hp := hp.advance
  level_advance hp hpeek := Level.advance_plain hp hpeek
  taken_of_step hp hkind := hp.inside_of_not_halts hkind.1
  taken_of_openCurly hp hkind := hp.inside_of_not_halts (by rw [hkind]; decide)
  level_refl hp := Level.refl hp
  taken_of_level h := h.toInside
  taken_of_spans h := h.toInside
  level_trans h₁ h₂ := h₁.trans h₂
  lost_trans h₁ h₂ := ⟨h₂.1, Nat.le_trans h₁.floor_le_floor h₂.2⟩
  spans_trans h₁ h₂ := h₁.trans h₂
  missed_trans h₁ h₂ := ⟨h₂.1, Nat.le_trans h₁.depth_le_floor h₂.2⟩
  level_of_spans _ h := Level.of_spans h
  lost_of_missed {p _} _ h := ⟨h.1, Nat.le_trans p.floor_le_depthPast h.2⟩
  spans_of_level _ hkind h := Spans.of_level hkind.2.1 hkind.2.2 h
  missed_of_lost _ hkind h := ⟨h.1, floor_of_ne hkind.2.1 hkind.2.2 ▸ h.2⟩
  lost_report {p _} hp _ := ⟨hp.report _, p.floor_le_depth⟩
  missed_report hp _ := ⟨hp.report _, Nat.le_refl _⟩
  spans_braces _ hkind h hpeek := h.spans_braces hkind hpeek
  missed_braces _ hkind h := ⟨h.1, floor_of_openCurly hkind ▸ h.2⟩
  asked_block {p} hp hkind := by
    have hdepth : p.advance.depth = p.depth + 1 := depthPast_of_openCurly hkind
    exact ⟨hp.advance, by omega⟩
  found_block {p q _} _ hkind _ hq := by
    obtain ⟨hinside, hclose, hdepth⟩ := hq
    have hstart : p.advance.depth = p.depth + 1 := depthPast_of_openCurly hkind
    refine ⟨hinside, ?_, by omega⟩
    rw [depthPast_of_closeCurly hclose]
    omega
  absent_block {p q} _ hkind _ hq := by
    have hstart : p.advance.depth = p.depth + 1 := depthPast_of_openCurly hkind
    have hdepth : p.advance.depth ≤ q.depth := hq.2
    exact ⟨hq.1, by omega⟩

/-- What the move invariant says of each goal is the contract. -/
theorem contract_stopInvariant (n : Nat) : (stopInvariant n).contract = stopContract n := by
  have hasked : (stopInvariant n).contract.asked = (stopContract n).asked := by
    funext goal p
    cases goal <;> rfl
  have hfound : (stopInvariant n).contract.found = (stopContract n).found := by
    funext goal p answer q
    cases goal <;> rfl
  have habsent : (stopInvariant n).contract.absent = (stopContract n).absent := by
    funext goal p q
    cases goal <;> rfl
  show Contract.mk (stopContract n).free (stopContract n).alike (stopInvariant n).contract.asked
    (stopInvariant n).contract.found (stopInvariant n).contract.absent = stopContract n
  rw [hasked, hfound, habsent]

/-- The move invariant fits the standard grammar. -/
theorem stopInvariant_fits (n : Nat) : (stopInvariant n).Fits .standard where
  first := Kind.plain_of_first
  dict := Kind.eq_openCurly_of_first
  linking := Kind.plain_of_lt_powerOf

/-- A semicolon leaves the braces level. -/
theorem Parser.Level.of_upToSemicolon (h : Rule.UpToSemicolon (Level n p) q) : Level n p q := by
  rcases h with h | ⟨r, h, hpeek, rfl⟩
  · exact h
  · exact h.trans (Level.advance_plain h.toInside (by rw [hpeek]; decide))

/-- A semicolon behind a part belongs to it. -/
theorem Parser.Spans.of_upToSemicolon (h : Rule.UpToSemicolon (Spans n p) q) : Spans n p q := by
  rcases h with h | ⟨r, h, hpeek, rfl⟩
  · exact h
  · exact h.trans (Level.advance_plain h.toInside (by rw [hpeek]; decide))

/-- A statement spans its braces. -/
theorem statementBody_spans (hp : Inside n p) :
    Grammar.standard.statementBody.SpansAt (stopInvariant n) p := by
  apply statementBody_ensures
  · exact fun w hw => hw.2.1
  · intro rule hstatement
    by_cases hblock : rule = .block
    · subst hblock
      have hcurly : p.kind = .openCurly := Kind.eq_openCurly_of_statement hstatement
      exact (Rule.spansAt_block (g := stopInvariant n) hp hcurly).bind fun _ => Rule.goesOn_pure _
    · obtain ⟨hopen, hclose⟩ := Kind.ne_curly_of_statement hstatement hblock
      have hleading := Grammar.isLeading_of_standardStatement hstatement
      have hplan := StatementRule.plan_trailsAt (g := stopInvariant n) hleading hblock hp
        fun _ => .inr trivial
      refine hplan.imp (fun _ q hq => ?_) fun q hq => ?_
      · exact Spans.of_level hopen hclose (Level.of_upToSemicolon hq)
      · exact ⟨hq.1, floor_of_ne hopen hclose ▸ hq.2⟩
  · intro _
    exact (Rule.ensures_expressionStatement (g := stopInvariant n) hp.toWithin).imp
      (fun _ _ hq => Spans.of_upToSemicolon hq) fun _ hq => hq

/-- The statements of a block end on its closing brace. A statement that fails is skipped within the
braces of the block, so that what is read for further faults stays within them too. -/
theorem statements_within (hgrammar : p.grammar = .standard) (hp : Within n p)
    (hdepth : 0 < p.depth) :
    Rule.statements.Ensures (stopContract n)
      (fun _ q => Inside n q ∧ q.kind = .closeCurly ∧ q.depth = p.depth)
      (fun q => Within n q ∧ p.depth ≤ q.depth) p := by
  refine ⟨fun w hw => by dsimp only [Rule.bind]; rw [hw.2.1], ?_⟩
  dsimp only [Rule.bind]
  split
  · next hclose =>
    have hkind : p.kind = .closeCurly := hclose
    exact ⟨hp.inside_of_not_halts (by rw [hkind]; decide), hkind, rfl⟩
  · split
    · exact ⟨hp.report _, Nat.le_refl _⟩
    · next hclose heof =>
      have hinside := hp.inside_of_depth_pos hdepth heof
      refine ⟨hinside.position_lt, hinside, fun first q _ hq => ?_, fun q hlater hq => ?_⟩
      · have hnext : q.advance.depth = p.depth := hq.depthPast_eq
        refine ⟨hq.position_lt, ⟨hq.advance, by omega⟩, fun rest r _ hr => ?_, fun r _ hr => ?_⟩
        · exact ⟨hr.1, hr.2.1, hr.2.2.trans hnext⟩
        · exact ⟨hr.1, hnext ▸ hr.2⟩
      · have hskip := (stays_synchronize hlater hclose hq.2).le_depth
        have hwithin : Within n (q.synchronize p.checkpoint true) :=
          Within.synchronize (hlater.grammar_eq.trans hgrammar) hq.1 hinside.position_lt true
        refine ⟨⟨hwithin, by omega⟩, fun rest r hr => ?_, fun r hr => ?_⟩
        · exact ⟨hr.1.toWithin, Nat.le_trans hskip (Nat.le_of_eq hr.2.2.symm)⟩
        · exact ⟨hr.1, Nat.le_trans hskip hr.2⟩

/-- Every goal keeps to a stopping token. -/
theorem stopContract_kept (n : Nat) : (stopContract n).Kept := by
  intro goal p hgrammar hasked
  by_cases hstmt : goal = .stmt
  · subst hstmt
    have hbody := statementBody_spans hasked
    rwa [Rule.SpansAt, contract_stopInvariant] at hbody
  · by_cases hstatements : goal = .statements
    · subst hstatements
      exact statements_within hgrammar hasked.1 hasked.2
    · have hbody := MoveInvariant.body_ensures (p := p) (stopInvariant_fits n) hstmt hstatements
      rw [contract_stopInvariant] at hbody
      exact hbody hasked

end ScriptFront
