import ScriptFront.Proofs.Parser.Bodies

/-!
# Blocks that the end of input leaves open

Where the end of input stands inside blocks, each of them is reported, from the innermost outwards,
and nothing else is.

* `OpenBlock` — a brace that is not closed, and the tokens up to the next one.
* `pursue_statements_eof`, `pursue_stmt_block` — the end of input inside a block, and a block that
  fails inside.
* `pursue_statements_open` — what is left of a block in which others are left open.
* `unclosed_blocks_reported` — a program that ends inside blocks.
-/

namespace ScriptFront

open ScriptFront.Parser

variable {p q r : Parser} {line : Nat} {rest : List Token}

/-- A brace that is not closed, and the tokens behind it up to the next such brace. -/
structure OpenBlock where
  /-- The brace. -/
  brace : Token
  /-- The tokens behind it. -/
  body : List Token
  brace_kind : brace.kind = .openCurly
  clean : CleanTokens body

/-- The tokens of open blocks, one inside the other. -/
def OpenBlock.tokensEach (blocks : List OpenBlock) : List Token :=
  blocks.flatMap fun block => block.brace :: block.body

namespace Parser

/-! ## One level -/

/-- On the end of input there is nothing to skip. -/
theorem synchronize_of_eof (hkind : p.kind = .eof) (start : Checkpoint) (inBlock : Bool) :
    p.synchronize start inBlock = p := by
  rw [synchronize, skipTo, dif_pos hkind]

/-- A block is not over where the input ends. -/
theorem pursue_statements_eof (hgrammar : p.grammar = .standard) (hkind : p.kind = .eof) :
    pursue p.budget .statements p = (.absent, p.report .unclosedBlock) := by
  rw [pursue_eq_follow hgrammar .statements (Nat.le_refl _)]
  change (statementsAt p.kind).follow _ _ = _
  rw [hkind]
  rfl

/-- A block fails with its statements. -/
theorem pursue_stmt_block (hgrammar : p.grammar = .standard) (hkind : p.kind = .openCurly)
    (hbody : pursue p.advance.budget .statements p.advance = (.absent, r)) :
    pursue p.budget .stmt p = (.absent, r) := by
  have hcurrent : p.window.current.kind = .openCurly := hkind
  have hlater : Later p p.advance := Later.refl.advance
  rw [← pursue_eq_of_budget_le (hlater.grammar_eq.trans hgrammar) .statements
    (budget_le_of_later hlater)] at hbody
  rw [pursue_eq_follow hgrammar .stmt (Nat.le_refl _)]
  simp only [Grammar.body, Grammar.statementBody, Rule.window, Bind.bind, Rule.bind, Rule.follow]
  rw [hcurrent]
  change Rule.follow _ Rule.blockStatement p = _
  simp only [Rule.blockStatement, Rule.block, Rule.current, Rule.advance, Bind.bind, Rule.bind,
    Rule.follow, hbody]

/-- After a statement that has failed up to the end of input, the block is reported once more. -/
theorem pursue_statements_of_absent (hgrammar : p.grammar = .standard) (hopen : p.kind = .openCurly)
    (hstmt : pursue p.budget .stmt p = (.absent, r)) (hend : r.kind = .eof) :
    pursue p.budget .statements p = (.absent, r.report .unclosedBlock) := by
  have hlater := pursue_later p.budget .stmt p
  rw [hstmt] at hlater
  have hrest := pursue_statements_eof (hlater.grammar_eq.trans hgrammar) hend
  rw [← pursue_eq_of_budget_le (hlater.grammar_eq.trans hgrammar) .statements
    (budget_le_of_later hlater)] at hrest
  rw [pursue_eq_follow hgrammar .statements (Nat.le_refl _)]
  change (statementsAt p.kind).follow _ _ = _
  rw [hopen, statementsAt, if_neg (by decide), if_neg (by decide), Rule.follow, hstmt]
  dsimp only
  rw [synchronize_of_eof hend, hrest]
  rfl

/-! ## One inside the other -/

/-- The first of some open blocks is its brace and its body, and the others stand behind. -/
theorem tokensEach_cons (block : OpenBlock) (blocks : List OpenBlock) (behind : List Token) :
    OpenBlock.tokensEach (block :: blocks) ++ behind =
      block.brace :: (block.body ++ (OpenBlock.tokensEach blocks ++ behind)) := by
  simp [OpenBlock.tokensEach]

/-- What is left of a block, with others inside that are left open too: each of them is reported. -/
theorem pursue_statements_open {body : List Token} {blocks : List OpenBlock}
    (hbody : CleanTokens body)
    (hends : ∀ tokens ∈ (body :: blocks.map OpenBlock.body).dropLast, EndsStatement tokens)
    (hrest : 1 ≤ rest.length)
    (hp : p.Faces (body ++ (OpenBlock.tokensEach blocks ++ Token.eof line :: rest))) :
    ∃ r, pursue p.budget .statements p = (.absent, r) ∧ r.window.current = Token.eof line ∧
      r.diagnostics = p.diagnostics ++ List.replicate (blocks.length + 1)
        ⟨.unclosedBlock, line⟩ := by
  induction blocks generalizing body p with
  | nil =>
    obtain ⟨statements, hrounds⟩ := hbody.rounds_eof hp
    have hthere := faces_iterate hp (Nat.succ_le_succ hrest)
    have hcurrent : (advance^[body.length] p).window.current = Token.eof line := hthere.current_eq
    have hkind : (advance^[body.length] p).kind = .eof := congrArg Token.kind hcurrent
    have hleft := hrounds.pursue_statements rfl hp.grammar_eq
    rw [pursue_statements_eof hthere.grammar_eq hkind] at hleft
    refine ⟨(advance^[body.length] p).report .unclosedBlock, hleft, hcurrent, ?_⟩
    change (advance^[body.length] p).diagnostics ++
      [⟨.unclosedBlock, (advance^[body.length] p).window.current.line⟩] = _
    rw [diagnostics_iterate, hcurrent]
    rfl
  | cons block blocks ih =>
    rw [tokensEach_cons] at hp
    obtain ⟨hfirst, hlater⟩ := List.forall_mem_cons.1 hends
    have hthere := faces_iterate hp (by simp; omega)
    have hkind : (advance^[body.length] p).kind = .openCurly :=
      (congrArg Token.kind hthere.current_eq).trans block.brace_kind
    obtain ⟨r, hrun, hcurrent, hdiagnostics⟩ :=
      ih block.clean hlater (hthere.advance (by simp; omega))
    have hend : r.kind = .eof := congrArg Token.kind hcurrent
    have hstmt := pursue_stmt_block hthere.grammar_eq hkind hrun
    have hleft := (hbody.rounds hfirst hp).pursue_statements rfl hp.grammar_eq
    rw [pursue_statements_of_absent hthere.grammar_eq hkind hstmt hend] at hleft
    refine ⟨r.report .unclosedBlock, hleft, hcurrent, ?_⟩
    change r.diagnostics ++ [⟨.unclosedBlock, r.window.current.line⟩] = _
    rw [hcurrent, hdiagnostics, diagnostics_advance, diagnostics_iterate, List.append_assoc]
    exact congrArg (p.diagnostics ++ ·) List.replicate_succ'.symm

/-- A program that ends inside blocks: its statements, and an empty slot for the outermost block. -/
theorem program_open {outer : List Token} {block : OpenBlock} {blocks : List OpenBlock}
    (houter : CleanTokens outer)
    (hends : ∀ tokens ∈ (outer :: (block :: blocks).map OpenBlock.body).dropLast,
      EndsStatement tokens) (hrest : 1 ≤ rest.length)
    (hp : p.Faces (outer ++ (OpenBlock.tokensEach (block :: blocks) ++ Token.eof line :: rest))) :
    p.program.1 = ⟨(parseTokens outer).1.slots ++ [none]⟩ ∧
      p.program.2.diagnostics =
        p.diagnostics ++ List.replicate (blocks.length + 1) ⟨.unclosedBlock, line⟩ := by
  rw [tokensEach_cons] at hp
  obtain ⟨hfirst, hlater⟩ := List.forall_mem_cons.1 hends
  have hthere := faces_iterate hp (by simp; omega)
  have hkind : (advance^[outer.length] p).kind = .openCurly :=
    (congrArg Token.kind hthere.current_eq).trans block.brace_kind
  obtain ⟨r, hrun, hcurrent, hdiagnostics⟩ :=
    pursue_statements_open block.clean hlater hrest (hthere.advance (by simp; omega))
  have hend : r.kind = .eof := congrArg Token.kind hcurrent
  have hstmt := pursue_stmt_block hthere.grammar_eq hkind hrun
  have hslot : (advance^[outer.length] p).slot = none := by
    rw [slot, hstmt]
    rfl
  have hafter : (advance^[outer.length] p).afterStatement false = r := by
    rw [afterStatement, hstmt]
    exact synchronize_of_eof hend _ _
  have hprogram := (houter.rounds hfirst hp).program_eq hp.grammar_eq
  rw [program_of_ne hthere.grammar_eq (by rw [hkind]; decide), hslot, hafter, program_of_eof hend,
    ← slots_eq_statements houter.clean] at hprogram
  rw [hprogram]
  refine ⟨rfl, ?_⟩
  rw [hdiagnostics, diagnostics_advance, diagnostics_iterate]

end Parser

/-! ## Programs -/

/-- **Each unclosed block is reported once.** A program that is parsed without a diagnostic is
followed by blocks, one inside the other, that the end of input leaves open. Their tokens are parsed
without a diagnostic as well, and before each brace a statement has ended. Then the program is
followed by one empty slot, and there is one diagnostic for each of the blocks, on the line of the
end of input. -/
theorem unclosed_blocks_reported {outer : List Token} (houter : CleanTokens outer)
    {blocks : List OpenBlock} (hblocks : blocks ≠ [])
    (hends : ∀ tokens ∈ (outer :: blocks.map OpenBlock.body).dropLast, EndsStatement tokens)
    (line : Nat) (rest : List Token) :
    parseTokens (outer ++ OpenBlock.tokensEach blocks ++ Token.eof line :: rest) =
      (⟨(parseTokens outer).1.slots ++ [none]⟩,
        List.replicate blocks.length ⟨.unclosedBlock, line⟩) := by
  obtain ⟨block, blocks, rfl⟩ := List.exists_cons_of_ne_nil hblocks
  -- what stands behind the end of input makes no difference
  have hbehind := fun rest => parseTokens_append_of_eof
    (outer ++ OpenBlock.tokensEach (block :: blocks)) (rfl : (Token.eof line).kind = .eof) rest
  rw [hbehind rest, ← hbehind [Token.eof line], List.append_assoc]
  have hp := faces_ofTokens (show 2 ≤ (outer ++ (OpenBlock.tokensEach (block :: blocks) ++
    Token.eof line :: [Token.eof line])).length by simp; omega)
  obtain ⟨hslots, hdiagnostics⟩ := program_open houter hends (by simp) hp
  rw [parseTokens]
  simp only [hslots, hdiagnostics]
  rfl

/-- The law at `a; { b; { return`, with the end of input on the third line. -/
theorem unclosed_blocks_reported_return :
    let outer : List Token := [⟨.identifier, "a", 1⟩, ⟨.semicolon, ";", 1⟩]
    let body : List Token := [⟨.identifier, "b", 2⟩, ⟨.semicolon, ";", 2⟩]
    let last : List Token := [⟨.returnWord, "return", 2⟩]
    (CleanTokens outer ∧ CleanTokens body ∧ CleanTokens last) ∧
      (∀ tokens ∈ [outer, body], EndsStatement tokens) ∧
      parseTokens (outer ++ ⟨.openCurly, "\x7b", 1⟩ :: body ++ ⟨.openCurly, "\x7b", 2⟩ :: last ++
          [Token.eof 3]) =
        (⟨(parseTokens outer).1.slots ++ [none]⟩, [⟨.unclosedBlock, 3⟩, ⟨.unclosedBlock, 3⟩]) := by
  intro outer body last
  have houter : CleanTokens outer := ⟨by decide, by decide⟩
  have hbody : CleanTokens body := ⟨by decide, by decide⟩
  have hlast : CleanTokens last := ⟨by decide, by decide⟩
  have hends : ∀ tokens ∈ [outer, body], EndsStatement tokens := by
    simp [outer, body, EndsStatement]
  exact ⟨⟨houter, hbody, hlast⟩, hends, unclosed_blocks_reported houter
    (show [OpenBlock.mk ⟨.openCurly, "\x7b", 1⟩ body rfl hbody,
      OpenBlock.mk ⟨.openCurly, "\x7b", 2⟩ last rfl hlast] ≠ [] by simp) hends 3 []⟩

end ScriptFront
