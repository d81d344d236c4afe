import ScriptFront.Proofs.Parser.Braces
import ScriptFront.Proofs.Parser.Records

/-!
# On which tokens a statement can fail

A statement fails in one of two ways: some plan gives a cause for the token at hand, or a block
within it has failed. Of the first way it is told here which causes come with which tokens. Behind
its first token, a statement takes no word on which only statements begin, so a cause given for such
a word is one that is given for tokens not taken (`Cause.ForUntaken`). No plan takes a semicolon and
goes on behind it, but for the statements of a block; so behind a semicolon a cause is only given
for a closing brace that was taken.

* `Record.Suits` — the cause suits the token, in a statement that began at a given position.
* `statementInvariant` — the move invariant of a statement that began at the position and has
  recorded nothing so far.
* `Fails` — how a goal fails, seen from what is recorded.
* `stmt_fails` — how a statement fails.
-/

namespace ScriptFront

open ScriptFront.Parser

/-! ## Causes and tokens -/

/-- No expression starts on the token. -/
def Cause.Unexpected : Cause → Prop
  | .unexpectedToken _ => True
  | _ => False

/-- Where no expression starts, the token was not taken. -/
theorem Cause.Unexpected.forUntaken {cause : Cause} (h : cause.Unexpected) : cause.ForUntaken := by
  unfold Cause.Unexpected at h
  split at h
  · trivial
  · exact h.elim

/-- The cause suits a token behind the first one of a statement. -/
structure Record.SuitsLater (record : Record) : Prop where
  forUntaken : record.parser.kind.Halts → record.cause.ForUntaken
  behind : record.parser.window.previous.kind = .semicolon →
    record.parser.kind = .closeCurly ∧ ¬ record.cause.Unexpected

/-- The cause suits the token, in a statement that began at the position. -/
structure Record.Suits (n : Nat) (record : Record) : Prop where
  first : record.parser.position = n → record.parser.kind.Halts → ¬ record.cause.ForUntaken
  late : n < record.parser.position → record.SuitsLater

namespace Parser

/-- In a statement that began at the position, the token at hand was taken. -/
structure TakenFrom (n : Nat) (p : Parser) : Prop where
  position_le : n ≤ p.position
  ne_semicolon : p.kind ≠ .semicolon
  not_halts : n < p.position → ¬ p.kind.Halts
  behind : n < p.position → p.window.previous.kind = .semicolon → p.kind = .closeCurly

/-- In a statement that began at the position, a part may start on the token at hand. -/
structure OpenFrom (n : Nat) (p : Parser) : Prop where
  position_le : n ≤ p.position
  not_halts : p.position = n → ¬ p.kind.Halts
  behind : n < p.position → p.window.previous.kind ≠ .semicolon

variable {n : Nat} {p q : Parser} {cause : Cause}

/-- Behind a token that was taken, a part may start. -/
theorem TakenFrom.openFrom_advance (h : TakenFrom n p) : OpenFrom n p.advance where
  position_le := Nat.le_succ_of_le h.position_le
  not_halts hposition := by
    have hle := h.position_le
    rw [position_advance] at hposition
    omega
  behind _ := h.ne_semicolon

/-- A token on which a part may start is taken, if it is neither a semicolon nor a word on which
only statements begin. -/
theorem OpenFrom.takenFrom (h : OpenFrom n p) (hsemicolon : p.kind ≠ .semicolon)
    (hhalts : ¬ p.kind.Halts) :
    TakenFrom n p where
  position_le := h.position_le
  ne_semicolon := hsemicolon
  not_halts _ := hhalts
  behind hlt hprevious := absurd hprevious (h.behind hlt)

/-- A closing brace behind the first token of a statement counts as taken. -/
theorem TakenFrom.of_closeCurly (hlt : n < p.position) (hkind : p.kind = .closeCurly) :
    TakenFrom n p where
  position_le := Nat.le_of_lt hlt
  ne_semicolon := by
    rw [hkind]
    decide
  not_halts _ := by
    rw [hkind]
    decide
  behind _ _ := hkind

/-- For a token that was taken, every cause suits that is not one for tokens not taken. -/
theorem TakenFrom.suits (h : TakenFrom n p) (hcause : ¬ cause.ForUntaken) :
    Record.Suits n ⟨p, cause⟩ where
  first _ _ := hcause
  late hlt :=
    { forUntaken := fun hhalts => absurd hhalts (h.not_halts hlt)
      behind := fun hprevious => ⟨h.behind hlt hprevious, fun hunexpected =>
        hcause hunexpected.forUntaken⟩ }

/-- Where a part may start, a cause for tokens not taken suits, and any does on a token that does
not stop a reading. -/
theorem OpenFrom.suits (h : OpenFrom n p) (hcause : cause.ForUntaken ∨ ¬ p.kind.Halts) :
    Record.Suits n ⟨p, cause⟩ where
  first hposition hhalts := absurd hhalts (h.not_halts hposition)
  late hlt :=
    { forUntaken := fun hhalts => hcause.resolve_right (not_not_intro hhalts)
      behind := fun hprevious => absurd hprevious (h.behind hlt) }

/-- If a diagnostic was recorded just now, and those before are these, its cause suits the token. -/
def Blames (n : Nat) (before : List Diagnostic) (q : Parser) : Prop :=
  ∀ record : Record, q = record.parser.report record.cause →
    record.parser.diagnostics = before → record.Suits n

/-- Recording a cause that suits the token blames that token. -/
theorem blames_report {before : List Diagnostic} (h : Record.Suits n ⟨p, cause⟩) :
    Blames n before (p.report cause) := by
  rintro ⟨q, cause'⟩ heq -
  have hreport : p.report cause = q.report cause' := heq
  have hposition : p.position = q.position := by
    rw [← position_report p cause, hreport, position_report]
  have hwindow : p.window = q.window := by
    rw [← window_report p cause, hreport, window_report]
  have hkind : p.kind = q.kind := congrArg (fun w => w.current.kind) hwindow
  have hcause : cause = cause' := by
    have hdiagnostics : p.diagnostics ++ [⟨cause, _⟩] = q.diagnostics ++ [⟨cause', _⟩] :=
      congrArg Parser.diagnostics heq
    exact congrArg Diagnostic.cause
      (List.cons.inj (List.append_inj' hdiagnostics rfl).2).1
  refine ⟨fun hq => ?_, fun hq => ⟨?_, ?_⟩⟩
  · rw [← hkind, ← hcause]
    exact h.first (hposition.trans hq)
  · rw [← hkind, ← hcause]
    exact (h.late (hposition ▸ hq)).forUntaken
  · rw [← hkind, ← hcause, ← hwindow]
    exact (h.late (hposition ▸ hq)).behind

/-- Behind two new diagnostics, nothing is said of the last. -/
theorem blames_of_length {before : List Diagnostic}
    (h : before.length + 1 < q.diagnostics.length) : Blames n before q := by
  rintro ⟨r, cause⟩ rfl hbefore
  have hlength : (r.report cause).diagnostics.length = before.length + 1 := by
    rw [← hbefore]
    exact List.length_append
  exact absurd hlength (Nat.ne_of_gt h)

end Parser

/-! ## The move invariant -/

/-- Of statements it is only said that those of a block are asked for behind its brace, before
anything was recorded, and end on a closing brace. A block that fails is left out of account: it is
taken to record two diagnostics at least. -/
def statementContract (n : Nat) (before : List Diagnostic) : Contract where
  free _ := True
  alike p w := w = p.window
  asked
    | .statements, p => n < p.position ∧ p.diagnostics = before
    | _, _ => False
  found
    | .statements, _, _, q => n < q.position ∧ q.kind = .closeCurly ∧ q.diagnostics = before
    | _, _, _, _ => True
  absent
    | .statements, _, q => before.length + 1 < q.diagnostics.length
    | _, _, _ => True

/-- The move invariant of a statement that began at the position and has recorded nothing so far. -/
def statementInvariant (n : Nat) (before : List Diagnostic) : MoveInvariant where
  around := statementContract n before
  Taken p := TakenFrom n p ∧ p.diagnostics = before
  Open p := OpenFrom n p ∧ p.diagnostics = before
  Level _ q := TakenFrom n q ∧ q.diagnostics = before
  Spans _ q := TakenFrom n q ∧ q.diagnostics = before
  Lost _ q := Blames n before q
  Missed _ q := Blames n before q
  Step kind := kind.Plain ∧ kind ≠ .semicolon
  Excuse cause := ¬ cause.ForUntaken
  step_named {kind} := by
    have hall : ∀ kind ∈ Kind.named, kind.Plain ∧ kind ≠ .semicolon := by decide
    exact hall kind
  excuse_of_not_forUntaken h := h
  window_eq _ hw := hw
  current_eq _ hw := by rw [show _ = _ from hw]
  free _ := trivial
  open_advance hp := ⟨hp.1.openFrom_advance, hp.2⟩
  level_advance hp hpeek := ⟨hp.1.openFrom_advance.takenFrom hpeek.2 hpeek.1.1, hp.2⟩
  taken_of_step hp hkind := ⟨hp.1.takenFrom hkind.2 hkind.1.1, hp.2⟩
  taken_of_openCurly {p} hp hkind := by
    refine ⟨hp.1.takenFrom ?_ ?_, hp.2⟩ <;> rw [hkind] <;> decide
  level_refl hp := hp
  taken_of_level h := h
  taken_of_spans h := h
  level_trans _ h := h
  lost_trans _ h := h
  spans_trans _ h := h
  missed_trans _ h := h
  level_of_spans _ h := h
  lost_of_missed _ h := h
  spans_of_level _ _ h := h
  missed_of_lost _ _ h := h
  lost_report hp hcause := blames_report (hp.1.suits hcause)
  missed_report hp hcause := blames_report (hp.1.suits (hcause.imp id fun hkind => hkind.1.1))
  spans_braces {p q} _ _ h hpeek :=
    ⟨.of_closeCurly (Nat.lt_succ_of_le h.1.position_le) hpeek, h.2⟩
  missed_braces _ _ h := h
  asked_block hp _ := ⟨Nat.lt_succ_of_le hp.1.position_le, hp.2⟩
  found_block _ _ _ h := ⟨.of_closeCurly h.1 h.2.1, h.2.2⟩
  absent_block _ _ _ h := blames_of_length h

variable {α : Type} {n budget : Nat} {before : List Diagnostic} {p q : Parser}

/-- The move invariant of a statement fits the standard grammar. -/
theorem statementInvariant_fits (n : Nat) (before : List Diagnostic) :
    (statementInvariant n before).Fits .standard where
  first {kind _} h hdict := ⟨Kind.plain_of_first h hdict, by
    rintro rfl
    rcases h with h | h <;> cases h⟩
  dict := Kind.eq_openCurly_of_first
  linking {kind _} h := ⟨Kind.plain_of_lt_powerOf h, by
    rintro rfl
    exact Nat.not_lt_zero _ h⟩

/-- A goal is asked for only before anything was recorded. -/
theorem diagnostics_of_asked {goal : Goal}
    (h : (statementInvariant n before).contract.asked goal p) :
    p.diagnostics = before := by
  cases goal <;> first | exact h.2 | exact h.1.2 | exact h.elim

/-- So nothing is asked for after something that was not found. -/
theorem not_ensures_salvage {goal : Goal} {next : goal.Answer → Rule α} {rest : Goal}
    {found : α → Parser → Prop} {absent : Parser → Prop} :
    ¬ (Rule.salvage goal next rest).Ensures (statementInvariant n before).contract found
      absent p := by
  rintro ⟨-, hasked, -, hskip⟩
  have hbefore := diagnostics_of_asked hasked
  let q := (p.report .unclosedBlock).report .unclosedBlock
  have hlength : before.length + 1 < q.diagnostics.length := by
    simp [q, report, reportAt, hbefore]
  have habsent : (statementInvariant n before).contract.absent goal p q := by
    cases goal <;> first | exact blames_of_length hlength | exact hlength | exact trivial
  have hrest := diagnostics_of_asked (hskip q ((Later.refl.report _).report _) habsent).1
  rw [diagnostics_synchronize] at hrest
  rw [hrest] at hlength
  omega

/-! ## How goals fail -/

/-- What a goal recorded that was not found: one diagnostic of its own, or what a block within it
recorded. -/
def Fails (n budget : Nat) (log : List Record) (q : Parser) : Prop :=
  (∃ record : Record, log = [record] ∧ q = record.parser.report record.cause ∧ record.Suits n) ∨
    ∃ spent ≤ budget, ∃ inner : Parser, n < inner.position ∧ inner.grammar = .standard ∧
      log = records spent .statements inner ∧ pursue spent .statements inner = (.absent, q)

/-- More to spend leaves it at how a goal fails. -/
theorem Fails.mono {log : List Record} (h : Fails n budget log q) : Fails n (budget + 1) log q :=
  h.imp id fun ⟨spent, hle, rest⟩ => ⟨spent, Nat.le_succ_of_le hle, rest⟩

/-- Following a plan that blames what it fails on, its goals fail or one diagnostic is recorded. -/
theorem follow_fails
    (hgoal : ∀ goal p, p.grammar = .standard → (statementInvariant n before).contract.asked goal p →
      (pursue budget goal p).1.Meets ((statementInvariant n before).contract.found goal p)
        (Fails n budget (records budget goal p)) (pursue budget goal p).2)
    {rule : Rule α} {found : α → Parser → Prop} (hgrammar : p.grammar = .standard)
    (hbefore : p.diagnostics = before)
    (h : rule.Ensures (statementInvariant n before).contract found (Blames n before) p) :
    (rule.follow (pursue budget) p).1.Meets found
      (Fails n budget (rule.records (pursue budget) (records budget) p))
      (rule.follow (pursue budget) p).2 := by
  induction rule generalizing p with
  | done value => exact h
  | fail cause => exact .inl ⟨⟨p, cause⟩, rfl, rfl, h ⟨p, cause⟩ rfl hbefore⟩
  | look next ih => exact ih p.window hgrammar hbefore h.2
  | shift next ih => exact ih hgrammar hbefore h.2
  | need goal next ih =>
    have hmeets := hgoal goal p hgrammar h.1
    have hlaterr := pursue_later budget goal p
    have haccounted := pursue_accounted budget goal p
    simp only [Rule.follow, Rule.records]
    rcases heq : pursue budget goal p with ⟨answer | _ | _, after⟩ <;>
      rw [heq] at hmeets hlaterr haccounted
    · rw [records_of_found heq, List.nil_append]
      exact ih answer (hlaterr.grammar_eq.trans hgrammar)
        ((show after.diagnostics = p.diagnostics from haccounted).trans hbefore)
        (h.2.1 answer after hlaterr hmeets)
    · rw [List.append_nil]
      exact hmeets
    · trivial
  | salvage goal next rest ih => exact absurd h not_ensures_salvage

/-- The statements of a block end on a closing brace, and when they fail they are the block that has
failed. -/
theorem statements_fail (hgrammar : p.grammar = .standard)
    (hasked : n < p.position ∧ p.diagnostics = before) :
    (pursue budget .statements p).1.Meets ((statementInvariant n before).contract.found
      .statements p)
      (Fails n budget (records budget .statements p)) (pursue budget .statements p).2 := by
  have hmeets := Contract.pursue_meets_in (braces_kept Grammar.standard_sparesBraces) budget
    .statements hgrammar trivial
  have hlaterr := pursue_later budget .statements p
  have haccounted := pursue_accounted budget .statements p
  rcases heq : pursue budget .statements p with ⟨answer | _ | _, after⟩ <;>
    rw [heq] at hmeets hlaterr haccounted
  · exact ⟨Nat.lt_of_lt_of_le hasked.1 hlaterr.position_le, hmeets.2,
      (show after.diagnostics = p.diagnostics from haccounted).trans hasked.2⟩
  · exact .inr ⟨budget, Nat.le_refl _, p, hasked.1, hgrammar, rfl, heq⟩
  · trivial

/-- Every goal that a statement asks for is found, or it fails as said. -/
theorem pursue_fails (goal : Goal) (hgrammar : p.grammar = .standard)
    (hasked : (statementInvariant n before).contract.asked goal p) :
    (pursue budget goal p).1.Meets ((statementInvariant n before).contract.found goal p)
      (Fails n budget (records budget goal p)) (pursue budget goal p).2 := by
  induction budget generalizing goal p with
  | zero => trivial
  | succ budget ih =>
    by_cases hstatements : goal = .statements
    · subst hstatements
      exact statements_fail hgrammar hasked
    · have hstmt : goal ≠ .stmt := by
        rintro rfl
        exact hasked
      have hbody := MoveInvariant.body_ensures (statementInvariant_fits n before) hstmt
        hstatements hasked
      have habsent : (statementInvariant n before).contract.absent goal p = Blames n before := by
        cases goal <;> first | rfl | exact absurd rfl hstmt | exact absurd rfl hstatements
      rw [habsent] at hbody
      have hmeets := follow_fails (fun goal p hp h => ih goal hp h) hgrammar
        (diagnostics_of_asked hasked) hbody
      rw [pursue, records, hgrammar]
      cases hreply : ((Grammar.standard.body goal).follow (pursue budget) p).1 with
      | found answer =>
        rw [hreply] at hmeets
        exact hmeets
      | absent =>
        rw [hreply] at hmeets
        exact hmeets.mono
      | exhausted => trivial

/-! ## Statements -/

/-- A statement that does not start on the end of input keeps to its move invariant. -/
theorem statementBody_blames (heof : p.kind ≠ .eof) :
    Grammar.standard.statementBody.Ensures (statementInvariant p.position p.diagnostics).contract
      (fun _ _ => True) (Blames p.position p.diagnostics) p := by
  have hirrefl : ¬ p.position < p.position := Nat.lt_irrefl _
  apply statementBody_ensures
  · intro w hw
    rw [show w = p.window from hw]
  · intro rule hstatement
    have hsemicolon : p.kind ≠ .semicolon := by
      intro hkind
      rw [hkind] at hstatement
      cases hstatement
    have htaken : TakenFrom p.position p :=
      ⟨Nat.le_refl _, hsemicolon, fun h => absurd h hirrefl, fun h => absurd h hirrefl⟩
    by_cases hblock : rule = .block
    · subst hblock
      have hcurly := Kind.eq_openCurly_of_statement hstatement
      exact ((Rule.spansAt_block (g := statementInvariant p.position p.diagnostics)
        ⟨htaken, rfl⟩ hcurly).bind
        fun _ => Rule.goesOn_pure _).imp (fun _ _ _ => trivial) fun _ hq => hq
    · have hword : rule = .declarative → (Declarative.ofKind? p.kind).isSome := by
        rintro rfl
        revert hstatement
        generalize p.kind = kind
        cases kind <;> first | exact fun _ => rfl | (intro h; cases h)
      have hleading := Grammar.isLeading_of_standardStatement hstatement
      exact (StatementRule.plan_trailsAt (g := statementInvariant p.position p.diagnostics)
        hleading hblock
        ⟨htaken, rfl⟩ fun h => .inl (hword h)).imp (fun _ _ _ => trivial) fun _ hq => hq
  · intro hstatement
    have hhalts : ¬ p.kind.Halts := by
      revert hstatement heof
      generalize p.kind = kind
      cases kind <;> decide
    have hopen : OpenFrom p.position p :=
      ⟨Nat.le_refl _, fun _ => hhalts, fun h => absurd h hirrefl⟩
    exact (Rule.ensures_expressionStatement (g := statementInvariant p.position p.diagnostics)
      ⟨hopen, rfl⟩).imp (fun _ _ _ => trivial) fun _ hq => hq

/-- How a statement fails that does not start on the end of input. -/
theorem stmt_fails (hgrammar : p.grammar = .standard) (heof : p.kind ≠ .eof)
    (h : pursue budget .stmt p = (.absent, q)) :
    Fails p.position (budget - 1) (records budget .stmt p) q := by
  cases budget with
  | zero => cases h
  | succ budget =>
    rw [pursue, hgrammar] at h
    change Grammar.standard.statementBody.follow (pursue budget) p = _ at h
    have hmeets : (Grammar.standard.statementBody.follow (pursue budget) p).1.Meets _
        (Fails p.position budget _) _ :=
      follow_fails (fun goal _ hp hasked => pursue_fails goal hp hasked) hgrammar rfl
        (statementBody_blames heof)
    rw [h] at hmeets
    rw [records, hgrammar]
    exact hmeets

end ScriptFront
