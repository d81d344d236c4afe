import ScriptFront.Proofs.Parser.FailingTokens

/-!
# No diagnostic is repeated on a token

Reading may go on with the very token on which a statement failed. Then a second diagnostic can be
recorded on it, by the statement that begins there; but no third one, since skipping after that
statement leaves its first token. The two have different causes. Either only statements begin on the
token, and then the cause of the first is one for tokens not taken and that of the second is not. Or
the token is a closing brace behind a semicolon, on which no expression can start, and the first
diagnostic is about something else.

* `recordsAt` — the diagnostics that were recorded on one token.
* `RecordsApart` — a log in which no token has more than two diagnostics, or two of one cause;
  `Abandoned` and `Settled` — the same, with what is known of the token on which a statement or a
  block ended.
* `RecordsApart.recover` — the step from a statement that failed to where reading goes on.
* `stmt_abandoned`, `statements_settled`, `slots_recordsApart` — the logs of statements, blocks and
  programs.
* `reports_apart` — no diagnostic is repeated on a token.
-/

namespace ScriptFront

open ScriptFront.Parser

/-! ## The records on one token -/

/-- The records that were made on the token at the position, unless it is an end of input. -/
def recordsAt (position : Nat) (log : List Record) : List Record :=
  log.filter fun record => record.parser.position = position ∧ record.parser.kind ≠ .eof

/-- Two records at most, of different causes. -/
structure Apart (log : List Record) : Prop where
  length_le : log.length ≤ 2
  nodup : (log.map Record.cause).Nodup

/-- One record at most, of the sort. -/
def Alone (sort : Record → Prop) (log : List Record) : Prop :=
  log = [] ∨ ∃ record, log = [record] ∧ sort record

/-- The cause suits the first token of a statement. -/
structure Record.SuitsFirst (record : Record) : Prop where
  not_forUntaken : record.parser.kind.Halts → ¬ record.cause.ForUntaken
  brace : record.parser.kind = .closeCurly → record.cause.Unexpected

variable {position budget : Nat} {log log' : List Record} {record record' : Record}
  {p q r s : Parser} {sort : Record → Prop}

/-- What counts on a token are its own records, unless it is an end of input. -/
theorem mem_recordsAt : record ∈ recordsAt position log ↔
    record ∈ log ∧ record.parser.position = position ∧ record.parser.kind ≠ .eof := by
  simp [recordsAt]

/-- What counts of two logs counts of each. -/
theorem recordsAt_append (position : Nat) (log log' : List Record) :
    recordsAt position (log ++ log') = recordsAt position log ++ recordsAt position log' :=
  List.filter_append _ _

/-- Where only ends of input were recorded, nothing counts. -/
theorem recordsAt_eq_nil
    (h : ∀ record ∈ log, record.parser.position = position → record.parser.kind = .eof) :
    recordsAt position log = [] := by
  rw [List.eq_nil_iff_forall_not_mem]
  intro record hrecord
  obtain ⟨hmem, hposition, heof⟩ := mem_recordsAt.1 hrecord
  exact heof (h record hmem hposition)

/-- A record on an end of input does not count. -/
theorem recordsAt_singleton_eof (h : record.parser.kind = .eof) (position : Nat) :
    recordsAt position [record] = [] :=
  recordsAt_eq_nil fun _ hrecord _ => List.mem_singleton.1 hrecord ▸ h

/-- No records are apart. -/
theorem apart_nil : Apart [] :=
  ⟨Nat.zero_le _, List.nodup_nil⟩

/-- One record is apart. -/
theorem Alone.apart (h : Alone sort log) : Apart log := by
  rcases h with rfl | ⟨record, rfl, -⟩
  · exact apart_nil
  · exact ⟨by simp, by simp⟩

/-- A lone record is of the sort if it is made on the token at all. -/
theorem alone_singleton (h : record.parser.position = position → sort record) :
    Alone sort (recordsAt position [record]) := by
  by_cases hhere : record.parser.position = position ∧ record.parser.kind ≠ .eof
  · exact .inr ⟨record, by simp [recordsAt, hhere], h hhere.1⟩
  · exact .inl (by simp [recordsAt, hhere])

/-- Later parsers at one position see the same. -/
theorem Parser.Later.window_eq_of_position (hq : Later p q) (hr : Later p r)
    (h : q.position = r.position) : q.window = r.window := by
  rw [hq.eq_iterate.2.1, hr.eq_iterate.2.1, h]

/-- Nothing is recorded on tokens before the log began. -/
theorem Parser.Logged.recordsAt_of_lt (h : Logged p log q) (hlt : position < p.position) :
    recordsAt position log = [] :=
  recordsAt_eq_nil fun _ hrecord heq =>
    absurd heq (Nat.ne_of_gt (Nat.lt_of_lt_of_le hlt (h.mem hrecord).1.position_le))

/-- Nothing is recorded on tokens behind where the log ended. -/
theorem Parser.Logged.recordsAt_of_gt (h : Logged p log q) (hlt : q.position < position) :
    recordsAt position log = [] :=
  recordsAt_eq_nil fun _ hrecord heq =>
    absurd heq (Nat.ne_of_lt (Nat.lt_of_le_of_lt (h.mem hrecord).2 hlt))

/-- On an end of input nothing counts. -/
theorem Parser.Logged.recordsAt_of_eof (h : Logged p log q) (heof : q.kind = .eof) :
    recordsAt q.position log = [] :=
  recordsAt_eq_nil fun _ hrecord hposition => by
    rw [kind, (h.mem hrecord).1.window_eq_of_position h.later hposition]
    exact heof

/-! ## Logs -/

/-- No token has more than two diagnostics in the log, or two of one cause, and the first token has
one at most. -/
structure RecordsApart (p : Parser) (log : List Record) (q : Parser) : Prop where
  logged : Logged p log q
  apart : ∀ position, Apart (recordsAt position log)
  first : Alone Record.SuitsFirst (recordsAt p.position log)

/-- An empty log keeps its records apart. -/
theorem recordsApart_nil (h : Logged p [] q) : RecordsApart p [] q :=
  ⟨h, fun _ => apart_nil, .inl rfl⟩

/-- Records are apart from an earlier token on too, if nothing is recorded before. -/
theorem RecordsApart.of_lt (h : RecordsApart s log q) (hlogged : Logged p log q)
    (hlt : p.position < s.position) :
    RecordsApart p log q :=
  ⟨hlogged, h.apart, .inl (h.logged.recordsAt_of_lt hlt)⟩

/-- The log of a statement that failed: the token on which it failed, when that is not its first
one, has one diagnostic at most, too. -/
structure Abandoned (p : Parser) (log : List Record) (q : Parser) : Prop
    extends RecordsApart p log q where
  last : p.position < q.position → Alone Record.SuitsLater (recordsAt q.position log)

/-- A statement that failed with one record is abandoned, if its cause suits the token. -/
theorem abandoned_singleton (h : Logged p [record] q)
    (hfirst : record.parser.position = p.position → record.SuitsFirst)
    (hlater : p.position < record.parser.position → record.SuitsLater) :
    Abandoned p [record] q := by
  refine ⟨⟨h, fun position => ?_, alone_singleton hfirst⟩, fun hlt => ?_⟩
  · have halone : Alone (fun _ => True) (recordsAt position [record]) :=
      alone_singleton fun _ => trivial
    exact halone.apart
  · exact alone_singleton fun hthere => hlater (hthere ▸ hlt)

/-- Where skipping does not leave the token on which a statement failed, a statement that begins
there fails for another cause. -/
theorem cause_ne_of_synchronize {start : Checkpoint} {inBlock : Bool}
    (hgrammar : q.grammar = .standard) (hfailed : q.errorPosition = q.position)
    (hstill : (q.synchronize start inBlock).position = q.position) (heof : q.kind ≠ .eof)
    (hblock : inBlock = true → q.kind ≠ .closeCurly) (hlater : record.SuitsLater)
    (hwindow : record.parser.window = q.window) (hfirst : record'.SuitsFirst)
    (hwindow' : record'.parser.window = q.window) : record.cause ≠ record'.cause := by
  have hlaterr := synchronize_later q start inBlock
  have hsame := hlaterr.window_eq hstill
  have hkind : record.parser.kind = q.kind := congrArg (fun w => w.current.kind) hwindow
  have hkind' : record'.parser.kind = q.kind := congrArg (fun w => w.current.kind) hwindow'
  have hstop : (q.synchronize start inBlock).kind ≠ .eof := by
    rwa [kind, hsame]
  intro heq
  obtain ⟨-, hboundary⟩ := atBoundary_synchronize hstop
  obtain ⟨hwhere, -⟩ := of_decide_eq_true hboundary
  rw [hsame, hstill, hfailed, hlaterr.grammar_eq, hgrammar] at hwhere
  rcases hwhere with hsemicolon | ⟨hstarts, hfresh⟩ | hline | ⟨hin, hbrace⟩
  · -- behind a semicolon there is a closing brace
    obtain ⟨hclose, hother⟩ := hlater.behind (hwindow ▸ hsemicolon)
    exact hother (heq ▸ hfirst.brace (hkind'.trans (hkind.symm.trans hclose)))
  · have hleading : Grammar.standard.leading q.kind = none := by
      simpa [kind] using hfresh
    have hhalts : q.kind.Halts := .inr ⟨hstarts, hleading⟩
    exact hfirst.not_forUntaken (hkind' ▸ hhalts) (heq ▸ hlater.forUntaken (hkind ▸ hhalts))
  · exact absurd hline (Nat.lt_irrefl _)
  · exact hblock hin hbrace

/-- Where a statement failed and reading goes on with the very token, the two diagnostics on it are
apart. -/
theorem Abandoned.apart_append {inBlock : Bool} (hgrammar : p.grammar = .standard)
    (h : Abandoned p log q) (hmoved : p.position < q.position)
    (hstill : (q.synchronize p.checkpoint inBlock).position = q.position)
    (hrest : RecordsApart (q.synchronize p.checkpoint inBlock) log' r)
    (hblock : inBlock = true → (q.synchronize p.checkpoint inBlock).kind = .closeCurly →
      log' = []) : Apart (recordsAt q.position log ++ recordsAt q.position log') := by
  have hskip := synchronize_later q p.checkpoint inBlock
  have hfirst := hrest.first
  rw [hstill] at hfirst
  rcases h.last hmoved with hnone | ⟨record, hone, hlater⟩
  · rw [hnone, List.nil_append]
    exact hrest.apart _
  rcases hfirst with hnone | ⟨record', hone', hfirst⟩
  · rw [hnone, List.append_nil]
    exact h.apart _
  obtain ⟨hmem, hthere, heof⟩ := mem_recordsAt.1 (hone ▸ List.mem_singleton_self record)
  obtain ⟨hmem', hthere', -⟩ := mem_recordsAt.1 (hone' ▸ List.mem_singleton_self record')
  have hwindow : record.parser.window = q.window :=
    (h.logged.mem hmem).1.window_eq_of_position h.logged.later hthere
  have hwindow' : record'.parser.window = q.window :=
    (hskip.trans (hrest.logged.mem hmem').1).window_eq hthere'
  rw [kind, hwindow] at heof
  have hbrace : inBlock = true → q.kind ≠ .closeCurly := by
    intro hin hclose
    rw [hblock hin (by rwa [kind, hskip.window_eq hstill])] at hmem'
    cases hmem'
  have hne : record.cause ≠ record'.cause :=
    cause_ne_of_synchronize (h.logged.later.grammar_eq.trans hgrammar)
      (h.logged.errorPosition_eq hmem hthere) hstill heof hbrace hlater hwindow hfirst hwindow'
  rw [hone, hone']
  exact ⟨Nat.le_refl _, by simpa using hne⟩

/-- A statement failed, and reading goes on where a statement can begin. -/
theorem RecordsApart.recover {inBlock : Bool} (hgrammar : p.grammar = .standard)
    (heof : p.kind ≠ .eof)
    (h : Abandoned p log q) (hrest : RecordsApart (q.synchronize p.checkpoint inBlock) log' r)
    (hblock : inBlock = true → (q.synchronize p.checkpoint inBlock).kind = .closeCurly →
      log' = []) : RecordsApart p (log ++ log') r := by
  have hskip := synchronize_logged q p.checkpoint inBlock
  have hmoved := position_lt_synchronize h.logged.later heof inBlock
  refine ⟨h.logged.trans (hskip.trans hrest.logged), fun position => ?_, ?_⟩
  · rw [recordsAt_append]
    -- both logs can only meet on the token that was not skipped
    by_cases hbefore : position < (q.synchronize p.checkpoint inBlock).position
    · rw [hrest.logged.recordsAt_of_lt hbefore, List.append_nil]
      exact h.apart position
    by_cases hafter : q.position < position
    · rw [h.logged.recordsAt_of_gt hafter, List.nil_append]
      exact hrest.apart position
    have hle := hskip.later.position_le
    obtain rfl : position = q.position := by omega
    have hstill : (q.synchronize p.checkpoint inBlock).position = q.position := by omega
    exact h.apart_append hgrammar (hstill ▸ hmoved) hstill hrest hblock
  · rw [recordsAt_append, hrest.logged.recordsAt_of_lt hmoved, List.append_nil]
    exact h.first

/-- The log of the remaining statements of a block: on the token on which they end, it has one
diagnostic at most, too. -/
structure Settled (p : Parser) (log : List Record) (q : Parser) : Prop
    extends RecordsApart p log q where
  last : Alone Record.SuitsLater (recordsAt q.position log)

/-- A statement of a block failed, and its other statements are read from where skipping led. -/
theorem Settled.recover (hgrammar : p.grammar = .standard) (heof : p.kind ≠ .eof)
    (h : Abandoned p log q) (hrest : Settled (q.synchronize p.checkpoint true) log' r)
    (hclose : (q.synchronize p.checkpoint true).kind = .closeCurly → log' = [])
    (hend : r.kind = .closeCurly ∨ r.kind = .eof) : Settled p (log ++ log') r := by
  have hapart := RecordsApart.recover hgrammar heof h hrest.toRecordsApart fun _ => hclose
  refine ⟨hapart, ?_⟩
  rcases hend with hend | hend
  · have hskip := (synchronize_later q p.checkpoint true).position_le
    have hmoved := position_lt_synchronize h.logged.later heof true
    have hle := hrest.logged.later.position_le
    rw [recordsAt_append]
    by_cases hbehind : q.position < r.position
    · rw [h.logged.recordsAt_of_gt hbehind, List.nil_append]
      exact hrest.last
    · -- nothing was read behind the statement that failed
      have hstill : r.position = (q.synchronize p.checkpoint true).position := by omega
      have hnone : log' = [] := hclose (by rwa [kind, ← hrest.logged.later.window_eq hstill])
      have hthere : r.position = q.position := by omega
      rw [hnone, hthere]
      exact (List.append_nil _).symm ▸ h.last (by omega)
  · rw [hapart.logged.recordsAt_of_eof hend]
    exact .inl rfl

/-! ## Statements -/

/-- On a closing brace, a statement fails because no expression starts there. -/
theorem stmt_of_closeCurly (hgrammar : p.grammar = .standard) (hkind : p.kind = .closeCurly)
    (h : pursue budget .stmt p = (.absent, q)) :
    ∃ cause : Cause, cause.Unexpected ∧ records budget .stmt p = [⟨p, cause⟩] := by
  obtain ⟨source, ⟨previous, ⟨kind, value, line⟩, peek⟩, position, depth, failedAt, diagnostics,
    grammar⟩ := p
  cases hkind
  cases hgrammar
  match budget with
  | 0 => cases h
  | 1 => cases h
  | budget + 2 => exact ⟨.unexpectedToken .closeCurly, trivial, rfl⟩

/-- The log of a statement that failed, when those of the blocks within it are settled. -/
theorem stmt_abandoned (hgrammar : p.grammar = .standard) (heof : p.kind ≠ .eof)
    (hblocks : ∀ spent < budget, ∀ inner : Parser, inner.grammar = .standard →
      (pursue spent .statements inner).1 ≠ .exhausted →
        Settled inner (records spent .statements inner) (pursue spent .statements inner).2)
    (h : pursue budget .stmt p = (.absent, q)) :
    Abandoned p (records budget .stmt p) q := by
  have hlogged := pursue_logged budget .stmt p
  rw [h] at hlogged
  by_cases hclose : p.kind = .closeCurly
  · obtain ⟨cause, hcause, hrecords⟩ := stmt_of_closeCurly hgrammar hclose h
    have hnot : ¬ p.kind.Halts := by
      rw [hclose]
      decide
    rw [hrecords] at hlogged ⊢
    exact abandoned_singleton hlogged (fun _ => ⟨fun hhalts => absurd hhalts hnot, fun _ => hcause⟩)
      fun hlt => absurd hlt (Nat.lt_irrefl _)
  rcases stmt_fails hgrammar heof h with ⟨record, hrecords, -, hdue⟩ |
    ⟨spent, hspent, inner, hlt, hinner, hrecords, hpursue⟩
  · rw [hrecords] at hlogged ⊢
    refine abandoned_singleton hlogged (fun hthere => ⟨hdue.first hthere, fun hbrace => ?_⟩)
      hdue.late
    have hwindow := (hlogged.mem (List.mem_singleton_self record)).1.window_eq hthere
    rw [kind, hwindow] at hbrace
    exact absurd hbrace hclose
  · have hbudget : spent < budget := by
      cases budget with
      | zero => cases h
      | succ budget => exact Nat.lt_succ_of_le hspent
    have hsettled := hblocks spent hbudget inner hinner (by simp [hpursue])
    rw [hpursue, ← hrecords] at hsettled
    exact ⟨hsettled.toRecordsApart.of_lt hlogged hlt, fun _ => hsettled.last⟩

/-! ## Blocks -/

/-- The remaining statements of a block end on its closing brace or on the end of input. -/
theorem statements_end (hgrammar : p.grammar = .standard)
    (h : (pursue budget .statements p).1 ≠ .exhausted) :
    (pursue budget .statements p).2.kind = .closeCurly ∨
      (pursue budget .statements p).2.kind = .eof := by
  have hmeets := Contract.pursue_meets_in (braces_kept Grammar.standard_sparesBraces) budget
    .statements hgrammar trivial
  rcases heq : pursue budget .statements p with ⟨body | _ | _, last⟩ <;> rw [heq] at hmeets h
  · exact .inl hmeets.2
  · exact hmeets.2
  · exact absurd rfl h

/-- On the closing brace nothing is recorded, and on the end of input it is recorded that the block
is not closed. -/
theorem statements_of_end (hgrammar : p.grammar = .standard)
    (hkind : p.kind = .closeCurly ∨ p.kind = .eof) :
    (p.kind = .closeCurly → records budget .statements p = []) ∧
      Settled p (records budget .statements p) (pursue budget .statements p).2 := by
  have hlogged := pursue_logged budget .statements p
  cases budget with
  | zero => exact ⟨fun _ => rfl, recordsApart_nil hlogged, .inl rfl⟩
  | succ budget =>
    by_cases hclose : p.kind = .closeCurly
    · have hrecords : records (budget + 1) .statements p = [] := by
        rw [records_statements hgrammar, statementsAt, if_pos hclose, Rule.records]
      rw [hrecords] at hlogged ⊢
      exact ⟨fun _ => rfl, recordsApart_nil hlogged, .inl rfl⟩
    · have heof : p.kind = .eof := hkind.resolve_left hclose
      have hrecords : records (budget + 1) .statements p = [⟨p, .unclosedBlock⟩] := by
        rw [records_statements hgrammar, statementsAt, if_neg hclose, if_pos heof, Rule.records]
      have hnone : ∀ position, recordsAt position [⟨p, .unclosedBlock⟩] = [] :=
        recordsAt_singleton_eof heof
      rw [hrecords] at hlogged ⊢
      refine ⟨fun h => absurd h hclose, ⟨hlogged, fun position => ?_, .inl (hnone _)⟩,
        .inl (hnone _)⟩
      exact (hnone position).symm ▸ apart_nil

/-- Elsewhere a statement is read, and the others from behind it, or from where skipping led. -/
theorem statements_cases (hgrammar : p.grammar = .standard) (hclose : p.kind ≠ .closeCurly)
    (heof : p.kind ≠ .eof) (h : (pursue (budget + 1) .statements p).1 ≠ .exhausted) :
    (∃ first after, pursue budget .stmt p = (.found first, after) ∧
      (pursue budget .statements after.advance).1 ≠ .exhausted ∧
      records (budget + 1) .statements p = records budget .statements after.advance ∧
      (pursue (budget + 1) .statements p).2 = (pursue budget .statements after.advance).2) ∨
    ∃ after, pursue budget .stmt p = (.absent, after) ∧
      (pursue budget .statements (after.synchronize p.checkpoint true)).1 ≠ .exhausted ∧
      records (budget + 1) .statements p = records budget .stmt p ++
        records budget .statements (after.synchronize p.checkpoint true) ∧
      (pursue (budget + 1) .statements p).2 =
        (pursue budget .statements (after.synchronize p.checkpoint true)).2 := by
  rw [pursue_statements hgrammar, statementsAt, if_neg hclose, if_neg heof, Rule.follow] at h ⊢
  rw [records_statements hgrammar, statementsAt, if_neg hclose, if_neg heof, Rule.records]
  rcases hstmt : pursue budget .stmt p with ⟨first | _ | _, after⟩ <;> rw [hstmt] at h
  · refine .inl ⟨first, after, rfl, ?_⟩
    rw [records_of_found hstmt]
    simp only [Rule.follow, Rule.records] at h ⊢
    rcases hrest : pursue budget .statements after.advance with ⟨rest | _ | _, last⟩ <;>
      rw [hrest] at h
    · exact ⟨by simp, by simp, rfl⟩
    · exact ⟨by simp, by simp, rfl⟩
    · exact absurd rfl h
  · refine .inr ⟨after, rfl, ?_, rfl, rfl⟩
    intro hrest
    simp [hrest, Reply.discard] at h
  · exact absurd rfl h

/-- The log of the remaining statements of a block. -/
theorem statements_settled (hgrammar : p.grammar = .standard)
    (h : (pursue budget .statements p).1 ≠ .exhausted) :
    Settled p (records budget .statements p) (pursue budget .statements p).2 := by
  induction budget using Nat.strongRecOn generalizing p with
  | ind budget ih =>
  by_cases hends : p.kind = .closeCurly ∨ p.kind = .eof
  · exact (statements_of_end hgrammar hends).2
  obtain ⟨hclose, heof⟩ := not_or.1 hends
  cases budget with
  | zero => exact absurd rfl h
  | succ budget =>
  have hlogged := pursue_logged (budget + 1) .statements p
  have hend := statements_end hgrammar h
  rcases statements_cases hgrammar hclose heof h with
    ⟨first, after, hstmt, hreply, hrecords, hlast⟩ | ⟨after, hstmt, hreply, hrecords, hlast⟩
  · have hlaterr := pursue_later budget .stmt p
    rw [hstmt] at hlaterr
    rw [hrecords, hlast] at hlogged ⊢
    have hrest := ih budget (Nat.lt_succ_self _) (p := after.advance)
      (hlaterr.grammar_eq.trans hgrammar) hreply
    exact ⟨hrest.toRecordsApart.of_lt hlogged (Nat.lt_succ_of_le hlaterr.position_le), hrest.last⟩
  · have hfailed := stmt_abandoned hgrammar heof (fun spent hspent inner hinner =>
      ih spent (Nat.lt_succ_of_lt hspent) hinner) hstmt
    have hskip := hfailed.logged.later.trans (synchronize_later after p.checkpoint true)
    have hgrammar' := hskip.grammar_eq.trans hgrammar
    have hrest := ih budget (Nat.lt_succ_self _) hgrammar' hreply
    rw [hlast] at hend
    rw [hrecords, hlast]
    exact Settled.recover hgrammar heof hfailed hrest
      (fun hbrace => (statements_of_end hgrammar' (.inl hbrace)).1 hbrace) hend

/-! ## Programs -/

/-- The log of the statements of a program keeps its records apart. -/
theorem slots_recordsApart (hgrammar : p.grammar = .standard) (hbudget : p.budget ≤ budget)
    (rounds : Nat) :
    RecordsApart p (p.slotRecords budget rounds) (p.slots budget rounds).2 := by
  induction rounds generalizing p with
  | zero => exact recordsApart_nil .refl
  | succ rounds ih =>
    have hlogged := slots_logged budget (rounds + 1) p
    have hreply := pursue_ne_exhausted hgrammar .stmt hbudget
    have hlaterr := pursue_later budget .stmt p
    unfold slotRecords slots at hlogged ⊢
    by_cases heof : p.kind = .eof
    · rw [if_pos heof, if_pos heof]
      exact recordsApart_nil .refl
    rw [if_neg heof, if_neg heof] at hlogged ⊢
    rcases hstmt : pursue budget .stmt p with ⟨statement | _ | _, after⟩ <;>
      rw [hstmt] at hlogged hreply hlaterr
    · have hnext : Later p after.advance := hlaterr.advance
      have hrest := ih (hnext.grammar_eq.trans hgrammar)
        (Nat.le_trans (budget_le_of_later hnext) hbudget)
      rw [records_of_found hstmt] at hlogged ⊢
      exact hrest.of_lt hlogged (Nat.lt_succ_of_le hlaterr.position_le)
    · have hfailed := stmt_abandoned hgrammar heof (fun spent _ inner hinner h =>
        statements_settled hinner h) hstmt
      have hnext := hlaterr.trans (synchronize_later after p.checkpoint false)
      have hrest := ih (hnext.grammar_eq.trans hgrammar)
        (Nat.le_trans (budget_le_of_later hnext) hbudget)
      exact RecordsApart.recover hgrammar heof hfailed hrest (by simp)
    · exact absurd rfl hreply

/-- **No diagnostic is repeated on a token.** Whatever the tokens, reading them as a program shifts
the window and records the diagnostics of its log and no others. On each token other than the end of
input two of them are recorded at most, and if two, for different causes. -/
theorem reports_apart (tokens : List Token) :
    let p := ofTokens tokens
    Logged p p.programRecords p.program.2 ∧
      (parseTokens tokens).2 = p.programRecords.map Record.diagnostic ∧
      ∀ position, (recordsAt position p.programRecords).length ≤ 2 ∧
        ((recordsAt position p.programRecords).map Record.cause).Nodup := by
  intro p
  have hapart : RecordsApart p p.programRecords p.program.2 :=
    slots_recordsApart rfl (Nat.le_refl _) p.remaining
  refine ⟨hapart.logged, ?_, fun position => ?_⟩
  · exact hapart.logged.diagnostics_eq
  · exact ⟨(hapart.apart position).length_le, (hapart.apart position).nodup⟩

-- a `let` on which a call and then a declaration fails
example :
    (recordsAt 2 (ofTokens [⟨.identifier, "f", 1⟩, ⟨.openParen, "(", 1⟩,
      ⟨.letWord, "let", 1⟩]).programRecords).length = 2 := by
  decide +kernel

end ScriptFront
