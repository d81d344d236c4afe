import ScriptFront.Proofs.Parser.Completion

/-!
# Blocks and their braces

* `Grammar.SparesBraces` — no expression starts or goes on at a closing brace, and what is read in
  braces starts on an opening one.
* `braceInvariant`, `statements_stay` — no part of a block leads out of its braces, whatever fails
  in it.
* `block_spares_brace` — a block never takes its own closing brace.
* `recovery_level` — where reading goes on after a statement of a block that failed.
-/

namespace ScriptFront

namespace Parser

variable {lower : Nat} {p q r : Parser}

/-! ## Braces along the way -/

/-- Every state between the two has as many braces open. -/
theorem Stays.le_depth_of_later (h : Stays lower p q) (hr : Later p r)
    (hle : r.position ≤ q.position) :
    lower ≤ r.depth := by
  -- the depth of a state is that of the parser after as many shifts
  have hiterate : ∀ count, p.position + count ≤ q.position →
      lower ≤ (Parser.advance^[count] p).depth := by
    clear hle
    induction h with
    | refl h =>
      intro count hcount
      obtain rfl : count = 0 := by omega
      exact h
    | @advance q hq hdepth ih =>
      intro count hcount
      rw [position_advance] at hcount
      by_cases hlast : p.position + count ≤ q.position
      · exact ih count hlast
      · have hthere := (hq.later.advance).eq_iterate.2.2
        rw [position_advance, show q.position + 1 - p.position = count by omega] at hthere
        rwa [← hthere]
    | report _ _ ih => exact ih
  have hposition := hr.position_le
  rw [hr.eq_iterate.2.2]
  exact hiterate _ (by omega)

/-- Skipping after a statement that stayed within the braces of its block does so too. -/
theorem Stays.synchronize (h : Stays p.depth p q) (hkind : p.kind ≠ .closeCurly) :
    Stays p.depth p (q.synchronize p.checkpoint true) :=
  h.trans (stays_synchronize h.later hkind h.le_depth)

end Parser

open ScriptFront.Parser

/-! ## The move invariant -/

/-- No expression starts or goes on at a closing brace, and what is read in braces starts on an
opening one. -/
structure Grammar.SparesBraces (grammar : Grammar) : Prop where
  trailing : grammar.trailing .closeCurly = false
  leading : grammar.leading .closeCurly = none
  power : grammar.powerOf .closeCurly = .default
  dict {kind : Kind} :
    grammar.trailingRule kind = some .dict ∨ grammar.leading kind = some .dict → kind = .openCurly
  block {kind : Kind} : grammar.statement kind = some .block → kind = .openCurly

/-- The standard grammar spares closing braces. -/
theorem Grammar.standard_sparesBraces : Grammar.standard.SparesBraces where
  trailing := rfl
  leading := rfl
  power := rfl
  dict := Kind.eq_openCurly_of_first
  block := Kind.eq_openCurly_of_statement

namespace Parser

/-- A part that starts on the token at hand of the first state ends on that of the second, with no
fewer braces open behind it than in front of it, and none of those closed on the way. -/
structure Covers (p q : Parser) : Prop where
  stays : Stays p.depth p q
  depth_le : p.depth ≤ q.depthPast

/-- The same for what follows the token at hand of the first state. -/
structure Trails (p q : Parser) : Prop where
  stays : Stays p.floor p q
  depthPast_le : p.depthPast ≤ q.depthPast

variable {p q r : Parser}

/-- Nothing follows the token at hand until a token is taken. -/
theorem Trails.refl (p : Parser) : Trails p p :=
  ⟨.refl p.floor_le_depth, Nat.le_refl _⟩

/-- What follows the token at hand leaves no fewer braces open, before and behind it. -/
theorem Trails.floor_le_floor (h : Trails p q) : p.floor ≤ q.floor :=
  Nat.le_min.2 ⟨h.stays.le_depth, Nat.le_trans p.floor_le_depthPast h.depthPast_le⟩

/-- A part leaves no fewer braces open than there were in front of it. -/
theorem Covers.depth_le_floor (h : Covers p q) : p.depth ≤ q.floor :=
  Nat.le_min.2 ⟨h.stays.le_depth, h.depth_le⟩

/-- What follows what follows the token at hand follows it. -/
theorem Trails.trans (h₁ : Trails p q) (h₂ : Trails q r) : Trails p r :=
  ⟨h₁.stays.trans (h₂.stays.mono h₁.floor_le_floor),
    Nat.le_trans h₁.depthPast_le h₂.depthPast_le⟩

/-- What follows a part belongs to it. -/
theorem Covers.trans (h₁ : Covers p q) (h₂ : Trails q r) : Covers p r :=
  ⟨h₁.stays.trans (h₂.stays.mono h₁.depth_le_floor), Nat.le_trans h₁.depth_le h₂.depthPast_le⟩

/-- A token other than a closing brace may follow. -/
theorem Trails.advance (h : p.window.peek.kind ≠ .closeCurly) : Trails p p.advance :=
  ⟨(Stays.refl p.floor_le_depth).advance p.floor_le_depthPast,
    depth_le_depthPast (p := p.advance) h⟩

/-- A part may start on a token other than a closing brace and go on behind it. -/
theorem Covers.of_trails (hkind : p.kind ≠ .closeCurly) (h : Trails p q) : Covers p q :=
  ⟨floor_of_ne_closeCurly hkind ▸ h.stays,
    Nat.le_trans (depth_le_depthPast hkind) h.depthPast_le⟩

/-- A semicolon behind what follows the token at hand follows it too. -/
theorem Trails.of_upToSemicolon (h : Rule.UpToSemicolon (Trails p) q) : Trails p q := by
  rcases h with h | ⟨r, h, hpeek, rfl⟩
  · exact h
  · exact h.trans (Trails.advance (by rw [hpeek]; decide))

/-- A semicolon behind a part belongs to it. -/
theorem Covers.of_upToSemicolon (h : Rule.UpToSemicolon (Covers p) q) : Covers p q := by
  rcases h with h | ⟨r, h, hpeek, rfl⟩
  · exact h
  · exact h.trans (Trails.advance (by rw [hpeek]; decide))

/-- A part in braces ends on a brace that closes its own. -/
theorem Covers.braces (hkind : p.kind = .openCurly) (h : Trails p q)
    (hpeek : q.window.peek.kind = .closeCurly) : Covers p q.advance := by
  have hdepth := h.depthPast_le
  rw [depthPast_of_openCurly hkind] at hdepth
  have hclose : q.advance.depthPast = q.advance.depth - 1 := depthPast_of_closeCurly hpeek
  rw [depth_advance] at hclose
  exact ⟨(floor_of_openCurly hkind ▸ h.stays).advance (by rw [depth_advance]; omega), by omega⟩

end Parser

/-- Of statements it is only said how they leave the braces: a block ends on a closing brace or on
the end of input. -/
def braces : Contract where
  free _ := True
  alike p w := w = p.window
  asked
    | .stmt, p => p.kind ≠ .closeCurly
    | _, _ => True
  found
    | .stmt, p, _, q => Covers p q
    | .statements, p, _, q => Stays p.depth p q ∧ q.kind = .closeCurly
    | _, _, _, _ => True
  absent
    | .stmt, p, q => Stays p.depth p q
    | .statements, p, q => Stays p.depth p q ∧ (q.kind = .closeCurly ∨ q.kind = .eof)
    | _, _, _ => True

/-- Plans close no brace that they have not opened. -/
def braceInvariant : MoveInvariant where
  around := braces
  Taken _ := True
  Open _ := True
  Level := Trails
  Spans := Covers
  Lost p q := Stays p.floor p q
  Missed p q := Stays p.depth p q
  Step kind := kind ≠ .closeCurly
  Excuse _ := True
  step_named h := by
    rintro rfl
    revert h
    decide
  excuse_of_not_forUntaken _ := trivial
  window_eq _ hw := hw
  current_eq _ hw := by rw [show _ = _ from hw]
  free _ := trivial
  open_advance _ := trivial
  level_advance _ hpeek := Trails.advance hpeek
  taken_of_step _ _ := trivial
  taken_of_openCurly _ _ := trivial
  level_refl _ := Trails.refl _
  taken_of_level _ := trivial
  taken_of_spans _ := trivial
  level_trans h₁ h₂ := h₁.trans h₂
  lost_trans h₁ h₂ := h₁.stays.trans (h₂.mono h₁.floor_le_floor)
  spans_trans h₁ h₂ := h₁.trans h₂
  missed_trans h₁ h₂ := h₁.stays.trans (h₂.mono h₁.depth_le_floor)
  level_of_spans {p _} _ h :=
    ⟨(h.stays.mono p.floor_le_depthPast).of_advance p.floor_le_depth p.floor_le_depthPast,
      h.depth_le⟩
  lost_of_missed {p _} _ h :=
    (h.mono p.floor_le_depthPast).of_advance p.floor_le_depth p.floor_le_depthPast
  spans_of_level _ hkind h := Covers.of_trails hkind h
  missed_of_lost _ hkind h := floor_of_ne_closeCurly hkind ▸ h
  lost_report {p _} _ _ := (Stays.refl p.floor_le_depth).report _
  missed_report _ _ := (Stays.refl (Nat.le_refl _)).report _
  spans_braces _ hkind h hpeek := Covers.braces hkind h hpeek
  missed_braces _ hkind h := floor_of_openCurly hkind ▸ h
  asked_block _ _ := trivial
  found_block {p q _} _ hkind _ h := by
    obtain ⟨hstays, hclose⟩ := h
    have hstart : p.advance.depth = p.depth + 1 := depthPast_of_openCurly hkind
    have hend := hstays.le_depth
    refine ⟨(hstays.mono (by omega)).of_advance (Nat.le_refl _)
      (by rw [← depth_advance]; omega), ?_⟩
    rw [depthPast_of_closeCurly hclose]
    omega
  absent_block {p q} _ hkind _ h := by
    have hstays : Stays p.advance.depth p.advance q := h.1
    have hstart : p.advance.depth = p.depth + 1 := depthPast_of_openCurly hkind
    exact (hstays.mono (by omega)).of_advance (Nat.le_refl _) (by rw [← depth_advance]; omega)

variable {grammar : Grammar} {p q : Parser}

/-- The move invariant fits a grammar that spares closing braces. -/
theorem Grammar.SparesBraces.fits (h : grammar.SparesBraces) : braceInvariant.Fits grammar where
  first hrule _ := by
    rintro rfl
    rcases hrule with htrailing | hleading
    · have hnone := h.trailing
      rw [Grammar.trailing, htrailing] at hnone
      cases hnone
    · exact Option.some_ne_none _ (hleading.symm.trans h.leading)
  dict := h.dict
  linking hpower := by
    rintro rfl
    rw [h.power] at hpower
    exact Nat.not_lt_zero _ hpower

/-! ## Statements -/

/-- A statement other than a closing brace closes no brace that it has not opened. -/
theorem statementBody_stays (h : grammar.SparesBraces) (hkind : p.kind ≠ .closeCurly) :
    grammar.statementBody.SpansAt braceInvariant p := by
  have hexpression : Rule.expressionStatement.SpansAt braceInvariant p :=
    (Rule.ensures_expressionStatement (g := braceInvariant) trivial).imp
      (fun _ _ hq => Covers.of_upToSemicolon hq) fun _ hq => hq
  apply statementBody_ensures
  · intro w hw
    rw [show w = p.window from hw]
  · intro rule hstatement
    have hworded (hleading : rule.isLeading = true) (hblock : rule ≠ .block) :
        rule.plan.SpansAt braceInvariant p := by
      refine (StatementRule.plan_trailsAt (g := braceInvariant) hleading hblock trivial
        fun _ => .inr trivial).imp (fun _ q hq => ?_) fun q hq => ?_
      · exact Covers.of_trails hkind (Trails.of_upToSemicolon hq)
      · exact braceInvariant.missed_of_lost trivial hkind hq
    cases rule with
    | block =>
      exact (Rule.spansAt_block (g := braceInvariant) trivial (h.block hstatement)).bind fun _ =>
        Rule.goesOn_pure _
    | expression => exact hexpression
    | any => exact ⟨hkind, fun _ _ _ hq => hq, fun _ _ hq => hq⟩
    | _ => exact hworded rfl nofun
  · exact fun _ => hexpression

/-- The remaining statements of a block stay within its braces, and end on a closing brace or on the
end of input. -/
theorem statements_stay (p : Parser) :
    Rule.statements.Ensures braceInvariant.contract
      (fun _ q => Stays p.depth p q ∧ q.kind = .closeCurly)
      (fun q => Stays p.depth p q ∧ (q.kind = .closeCurly ∨ q.kind = .eof)) p := by
  have hstart : Stays p.depth p p := .refl (Nat.le_refl _)
  refine ⟨fun w hw => by rw [show w = p.window from hw], ?_⟩
  dsimp only [Rule.bind]
  split
  · next hclose => exact ⟨hstart, hclose⟩
  · split
    · next heof => exact ⟨hstart.report _, .inr heof⟩
    · next hclose heof =>
      refine ⟨trivial, hclose, fun first q _ hq => ?_, fun q _ hq => ?_⟩
      · have hcovers : Covers p q := hq
        have hnext : Stays p.depth p q.advance := hcovers.stays.advance hcovers.depth_le
        refine ⟨trivial, trivial, fun rest r _ hr => ?_, fun r _ hr => ?_⟩
        · exact ⟨hnext.trans (hr.1.mono hcovers.depth_le), hr.2⟩
        · exact ⟨hnext.trans (hr.1.mono hcovers.depth_le), hr.2⟩
      · have hskip : Stays p.depth p (q.synchronize p.checkpoint true) :=
          Stays.synchronize hq hclose
        refine ⟨trivial, fun rest r hr => ?_, fun r hr => ?_⟩
        · exact ⟨hskip.trans (hr.1.mono hskip.le_depth), .inl hr.2⟩
        · exact ⟨hskip.trans (hr.1.mono hskip.le_depth), hr.2⟩

/-- No goal closes a brace that it has not opened. -/
theorem braces_kept (h : grammar.SparesBraces) : braceInvariant.contract.KeptIn grammar := by
  intro goal p hgrammar hasked
  by_cases hstmt : goal = .stmt
  · subst hstmt
    exact statementBody_stays h hasked
  · by_cases hstatements : goal = .statements
    · subst hstatements
      exact statements_stay p
    · exact MoveInvariant.body_ensures h.fits hstmt hstatements hasked

/-! ## Blocks -/

/-- **A block spares its own brace.** Take a parser on an opening brace, with a grammar that spares
closing ones, and let it read the block from there, to whatever depth goals may nest. If the reading
comes to an end, be the block found or not, then in every state behind the opening brace one brace
more is open than before it. So each closing brace that was taken closes another brace that was
opened behind it, and the block ends on a closing brace within its own, or on the end of input. With
the standard grammar the reading always comes to an end. -/
theorem block_spares_brace {p : Parser} (hgrammar : p.grammar.SparesBraces)
    (hkind : p.kind = .openCurly) :
    (∀ budget reply q, Rule.block.follow (pursue budget) p = (reply, q) → reply ≠ .exhausted →
      (∀ r, p.advance.Later r → r.Later q → p.depth + 1 ≤ r.depth) ∧
      (∀ r, p.advance.Later r → r.advance.Later q → r.kind = .closeCurly →
        p.depth + 1 < r.depth) ∧
      (q.kind = .closeCurly ∧ p.depth + 1 ≤ q.depth ∨ q.kind = .eof)) ∧
    (p.grammar = .standard → (Rule.block.follow (pursue p.budget) p).1 ≠ .exhausted) := by
  refine ⟨fun budget reply q hrun hreply => ?_, fun h =>
    follow_ne_exhausted h Rule.block (Nat.le_refl _)⟩
  have hstart : p.advance.depth = p.depth + 1 := depthPast_of_openCurly hkind
  have hmeets := Contract.pursue_meets_in (braces_kept hgrammar) budget .statements
    (p := p.advance) rfl trivial
  have hends : Stays (p.depth + 1) p.advance q ∧ (q.kind = .closeCurly ∨ q.kind = .eof) := by
    rw [← hstart]
    change Rule.follow (pursue budget) (.need .statements _) p.advance = _ at hrun
    rw [Rule.follow] at hrun
    rcases heq : pursue budget .statements p.advance with ⟨body | _ | _, last⟩ <;>
      rw [heq] at hmeets hrun <;> cases hrun
    · exact ⟨hmeets.1, .inl hmeets.2⟩
    · exact hmeets
    · exact absurd rfl hreply
  obtain ⟨hstays, hend⟩ := hends
  have hall : ∀ r, p.advance.Later r → r.Later q → p.depth + 1 ≤ r.depth := fun r hr hq =>
    hstays.le_depth_of_later hr hq.position_le
  refine ⟨hall, fun r hr hq hclose => ?_, hend.imp (fun h => ⟨h, hstays.le_depth⟩) id⟩
  have hnext := hall r.advance hr.advance hq
  rw [depth_advance, depthPast_of_closeCurly hclose] at hnext
  omega

/-- A block in which a statement of a nested block fails. -/
def brokenBlock : Parser :=
  ofTokens [⟨.openCurly, "\x7b", 1⟩, ⟨.whileWord, "while", 1⟩, ⟨.openParen, "(", 1⟩,
    ⟨.identifier, "a", 1⟩, ⟨.closeParen, ")", 1⟩, ⟨.openCurly, "\x7b", 1⟩, ⟨.letWord, "let", 1⟩,
    ⟨.closeCurly, "\x7d", 1⟩, ⟨.identifier, "b", 1⟩, ⟨.closeCurly, "\x7d", 1⟩]

/-- The law at that block, which ends on the last token. -/
theorem block_spares_brace_broken :
    brokenBlock.grammar.SparesBraces ∧ brokenBlock.kind = .openCurly ∧
      (brokenBlock.run Rule.block).2.position = 9 ∧
      ∀ r, brokenBlock.advance.Later r → r.Later (brokenBlock.run Rule.block).2 →
        brokenBlock.depth + 1 ≤ r.depth := by
  obtain ⟨hblock, hends⟩ := block_spares_brace (p := brokenBlock) Grammar.standard_sparesBraces rfl
  exact ⟨Grammar.standard_sparesBraces, rfl, by decide +kernel, (hblock _ _ _ rfl (hends rfl)).1⟩

/-- A grammar in which a closing brace is a name. -/
def bracesAsNames : Parser :=
  { ofTokens [⟨.openCurly, "\x7b", 1⟩, ⟨.dash, "-", 1⟩, ⟨.closeCurly, "\x7d", 1⟩,
      ⟨.closeCurly, "\x7d", 1⟩] with
    grammar := Grammar.standard.registerLeading .closeCurly .name }

/-- Where a closing brace is a name, a block takes its own as part of an expression, and ends on one
that is not its own. -/
theorem bracesAsNames_takes_brace :
    bracesAsNames.kind = .openCurly ∧
      (∃ block, (bracesAsNames.run Rule.block).1 = some block) ∧
      (bracesAsNames.run Rule.block).2.kind = .closeCurly ∧
      (bracesAsNames.run Rule.block).2.depth = bracesAsNames.depth := by
  refine ⟨rfl, ⟨_, rfl⟩, ?_, ?_⟩
  · decide
  · decide

/-! ## Going on after a statement that failed -/

/-- Skipping that does not run into the end of input ends where a statement can begin. -/
theorem Parser.atBoundary_synchronize {start : Checkpoint} {inBlock : Bool}
    (h : (q.synchronize start inBlock).kind ≠ .eof) :
    start.position < (q.synchronize start inBlock).position ∧
      (q.synchronize start inBlock).atBoundary start inBlock q.window.current.line
        q.errorPosition = true := by
  unfold synchronize at h ⊢
  generalize q.window.current.line = failedLine at h ⊢
  generalize q.errorPosition = failedAt at h ⊢
  fun_induction Parser.skipTo q start inBlock failedLine failedAt with
  | case1 q heof => exact absurd heof h
  | case2 q _ hstop => exact hstop
  | case3 q _ _ ih => exact ih h

/-- **Where reading goes on in a block.** A statement of a block failed, and skipping stopped before
the end of input. Then no brace of the block was closed. On a closing brace, skipping has come back
to the level on which the statement began. It may stop deeper only right behind a semicolon, on a
word that begins statements, or on a later line than the failure. -/
theorem recovery_level {budget : Nat} {p q : Parser} (hgrammar : p.grammar.SparesBraces)
    (hkind : p.kind ≠ .closeCurly) (hstmt : pursue budget .stmt p = (.absent, q))
    (hstop : (q.synchronize p.checkpoint true).kind ≠ .eof) :
    let r := q.synchronize p.checkpoint true
    p.depth ≤ r.depth ∧ (r.kind = .closeCurly → r.depth = p.depth) ∧
      (r.depth ≠ p.depth → r.window.previous.kind = .semicolon ∨ r.kind.startsStatement = true ∨
        q.window.current.line < r.window.current.line) := by
  intro r
  have hmeets := Contract.pursue_meets_in (braces_kept hgrammar) budget .stmt (p := p) rfl hkind
  rw [hstmt] at hmeets
  have hle : p.depth ≤ r.depth := (Stays.synchronize hmeets hkind).le_depth
  obtain ⟨-, hboundary⟩ := atBoundary_synchronize hstop
  obtain ⟨hwhere, hnested⟩ := of_decide_eq_true hboundary
  have hclose : r.kind = .closeCurly → r.depth = p.depth := by
    intro hclose
    have hnot : ¬ p.depth < r.depth := fun hlt => hnested ⟨hclose, hlt⟩
    omega
  refine ⟨hle, hclose, fun hdepth => ?_⟩
  rcases hwhere with hsemicolon | ⟨hword, -⟩ | hline | ⟨-, hbrace⟩
  · exact .inl hsemicolon
  · exact .inr (.inl hword)
  · exact .inr (.inr hline)
  · exact absurd (hclose hbrace) hdepth

/-- A block with a switch that has a semicolon and a name where its first clause should be. -/
def strayClause : Parser :=
  ofTokens [⟨.openCurly, "\x7b", 1⟩, ⟨.switchWord, "switch", 1⟩, ⟨.openParen, "(", 1⟩,
    ⟨.identifier, "a", 1⟩, ⟨.closeParen, ")", 1⟩, ⟨.openCurly, "\x7b", 1⟩, ⟨.semicolon, ";", 1⟩,
    ⟨.identifier, "b", 1⟩, ⟨.closeCurly, "\x7d", 1⟩, ⟨.closeCurly, "\x7d", 1⟩]

/-- The law at the switch, whose brace is still open where reading goes on. -/
theorem recovery_level_stray :
    let p := strayClause.advance
    let r := (pursue p.budget .stmt p).2.synchronize p.checkpoint true
    (pursue p.budget .stmt p).1 = .absent ∧ r.kind ≠ .eof ∧ p.depth ≤ r.depth ∧
      r.window.previous.kind = .semicolon := by
  intro p r
  have hstmt : pursue p.budget .stmt p = (.absent, (pursue p.budget .stmt p).2) := by
    refine Prod.ext ?_ rfl
    rfl
  have hstop : r.kind ≠ .eof := by decide +kernel
  obtain ⟨hdepth, -⟩ :=
    recovery_level Grammar.standard_sparesBraces (by decide) hstmt hstop
  exact ⟨rfl, hstop, hdepth, by decide +kernel⟩

/-- The switch fails, reading goes on inside its brace, and the block ends on the brace that closes
the switch, one token before its own. -/
theorem strayClause_ends_early :
    let p := strayClause.advance
    let r := (pursue p.budget .stmt p).2.synchronize p.checkpoint true
    (pursue p.budget .stmt p).1 = .absent ∧ r.kind ≠ .eof ∧ r.depth = p.depth + 1 ∧
      (strayClause.run Rule.block).2.kind = .closeCurly ∧
      (strayClause.run Rule.block).2.depth = p.depth + 1 ∧
      (strayClause.run Rule.block).2.window.peek.kind = .closeCurly := by
  refine ⟨rfl, ?_, ?_, ?_, ?_, ?_⟩ <;> decide +kernel

end ScriptFront
