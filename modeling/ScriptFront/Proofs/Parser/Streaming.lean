import ScriptFront.Proofs.Lexer.Partition
import ScriptFront.Proofs.Parser.Isolation
import ScriptFront.Proofs.Parser.Operands

/-!
# Parsing a text as it is split, and after

A parser can take its tokens from a lexer as it goes along, or from the list of all of them.

* `Lexer.tokens_eq_drain` — the tokens of a text are those that are drained from it, unless there
  was a problem; then the first one takes their place. Problems come with illegal tokens, one with
  each (`Lexer.drain_errors`).
* `Source.Echoes`, `Parser.Echoes` — a lexer and the list of what is drained from it give the same
  tokens, beyond the end of input too, so that parsers over them go in lockstep
  (`echoes_lockstep`, `Parser.Echoes.program`).
* `streaming_agrees` — the two ways to parse a text agree, and both notice every text that cannot be
  split.
-/

namespace ScriptFront

/-! ## Tokens and problems -/

namespace Lexer

variable {lexer after : Lexer} {token : Token}

/-- Draining adds a problem for each illegal token. -/
theorem drain_errors (h : lexer.Ready) :
    ∃ added, lexer.drain.2.errors = lexer.errors ++ added ∧
      added.length = lexer.drain.1.countP (·.kind = .illegal) := by
  refine drain_induction (motive := fun lexer => ∃ added,
    lexer.drain.2.errors = lexer.errors ++ added ∧
      added.length = lexer.drain.1.countP (·.kind = .illegal)) ?_ ?_ lexer h
  · intro lexer token after _ hnext hkind hhands
    rw [drain_of_eof hnext hkind]
    cases hhands with
    | eof _ _ _ _ herrors => exact ⟨[], by rw [herrors, List.append_nil], by simp [Token.eof]⟩
    | token _ _ _ _ hne => exact absurd hkind hne
  · rintro lexer token after - hnext hkind hhands ⟨more, hmore, hcount⟩
    rw [drain_of_ne hnext hkind]
    cases hhands with
    | eof => exact absurd rfl hkind
    | @token _ _ _ _ added _ _ _ _ _ _ herrors hadded =>
      refine ⟨added ++ more, by rw [hmore, herrors, List.append_assoc], ?_⟩
      rw [List.length_append, hadded, hcount, List.countP_cons, Nat.add_comm]
      simp

/-- From a lexer without problems, the tokens are those that are drained, or the first problem. -/
theorem tokens_eq_drain (h : lexer.Ready) (herrors : lexer.errors = []) :
    lexer.tokens = match lexer.drain.2.errors with
      | [] => .ok lexer.drain.1
      | problem :: _ => .error problem := by
  revert herrors
  refine drain_induction (motive := fun lexer => lexer.errors = [] →
    lexer.tokens = match lexer.drain.2.errors with
      | [] => .ok lexer.drain.1
      | problem :: _ => .error problem) ?_ ?_ lexer h
  · intro lexer token after _ hnext hkind hhands hnone
    rw [tokens_eq, hnext, drain_of_eof hnext hkind]
    cases hhands with
    | eof _ _ _ _ herrors => simp [herrors, hnone, Token.eof]
    | token _ _ _ _ hne => exact absurd hkind hne
  · intro lexer token after hready hnext hkind hhands ih hnone
    obtain ⟨more, hmore, -⟩ := drain_errors (hhands.ready hready)
    rw [tokens_eq, hnext, drain_of_ne hnext hkind]
    simp only [if_neg hkind]
    cases hafter : after.errors with
    | nil =>
      rw [ih hafter]
      cases after.drain.2.errors <;> rfl
    | cons problem others =>
      rw [hmore, hafter]
      rfl

/-- A step hands out the next token and goes on behind it. -/
theorem step_of_next (h : lexer.next? = some (token, after)) : lexer.step = after := by
  rw [step, h]

/-- Once the end of input was handed out, the lexer is as it is left when it is drained. -/
theorem step_iterate_of_eof (h : lexer.Ready) {count : Nat}
    (hkind : ∃ token after, (step^[count] lexer).next? = some (token, after) ∧ token.kind = .eof)
    (more : Nat) : step^[count + 1 + more] lexer = lexer.drain.2 := by
  revert count
  refine drain_induction (motive := fun lexer => ∀ {count : Nat},
    (∃ token after, (step^[count] lexer).next? = some (token, after) ∧ token.kind = .eof) →
      step^[count + 1 + more] lexer = lexer.drain.2) ?_ ?_ lexer h
  · intro lexer token after _ hnext hkind hhands count _
    have hstay : after.step = after := by
      cases hhands with
      | eof _ _ hrest hpending => exact step_of_next (next?_of_atEnd hpending hrest)
      | token _ _ _ _ hne => exact absurd hkind hne
    rw [Nat.add_right_comm, Function.iterate_succ_apply, step_of_next hnext,
      drain_of_eof hnext hkind]
    exact Function.iterate_fixed hstay _
  · rintro lexer token after - hnext hkind - ih count ⟨last, behind, hlast, heof⟩
    cases count with
    | zero =>
      have hsame : some (token, after) = some (last, behind) := hnext.symm.trans hlast
      cases hsame
      exact absurd heof hkind
    | succ count =>
      rw [Function.iterate_succ_apply, step_of_next hnext] at hlast
      rw [Nat.add_right_comm, Function.iterate_succ_apply, step_of_next hnext,
        drain_of_ne hnext hkind]
      exact ih ⟨last, behind, hlast, heof⟩

end Lexer

/-! ## Sources -/

/-- The list holds what the lexer has still to give. -/
inductive Source.Echoes : Source → Source → Prop
  | drained {lexer : Lexer} {line : Nat} (h : lexer.Ready) :
      Echoes (.lexer lexer) (.list lexer.drain.1 line)
  | ended {lexer : Lexer} (hpending : lexer.pending = []) (hrest : lexer.rest = []) :
      Echoes (.lexer lexer) (.list [] lexer.line)

/-- The two give the same token, and then again the same. -/
theorem Source.Echoes.next {source list : Source} (h : source.Echoes list) :
    list.next.1 = source.next.1 ∧ source.next.2.Echoes list.next.2 := by
  cases h with
  | ended hpending hrest =>
    simp only [Source.next, Lexer.next?_of_atEnd hpending hrest]
    exact ⟨trivial, .ended hpending hrest⟩
  | @drained lexer line hready =>
    obtain ⟨token, after, hnext, hhands⟩ := Lexer.next?_hands hready
    have hafter := hhands.ready hready
    cases hhands with
    | eof _ _ hrest =>
      rw [Lexer.drain_of_eof hnext rfl]
      simp only [Source.next, hnext]
      exact ⟨trivial, .ended hafter.pending_eq hrest⟩
    | token _ _ _ _ hkind =>
      rw [Lexer.drain_of_ne hnext hkind]
      simp only [Source.next, hnext]
      exact ⟨trivial, .drained hafter⟩

/-- Behind its next token, a lexer as a source is the lexer behind it. -/
theorem Source.rest_lexer (lexer : Lexer) : (Source.lexer lexer).rest = .lexer lexer.step := by
  simp only [rest, next, Lexer.step]
  cases lexer.next? <;> rfl

/-- Behind some tokens, a lexer as a source is the lexer behind as many steps. -/
theorem Source.rest_iterate_lexer (lexer : Lexer) (count : Nat) :
    rest^[count] (.lexer lexer) = .lexer (Lexer.step^[count] lexer) := by
  induction count generalizing lexer with
  | zero => rfl
  | succ count ih =>
    rw [Function.iterate_succ_apply, rest_lexer, ih, Function.iterate_succ_apply]

/-! ## Parsers -/

namespace Parser

/-- The parsers are in the same state, but the second takes its tokens from the list of those that
the lexer of the first has still to give. -/
def Echoes (p q : Parser) : Prop :=
  ∃ source, p.source.Echoes source ∧ q = { p with source }

variable {p q : Parser}

/-- Behind a shift, the list still holds what the lexer has to give. -/
theorem Echoes.advance (h : Echoes p q) : Echoes p.advance q.advance := by
  obtain ⟨source, hsource, rfl⟩ := h
  obtain ⟨hfirst, hrest⟩ := hsource.next
  refine ⟨source.next.2, hrest, ?_⟩
  simp only [Parser.advance, hfirst]

/-- Parsers that take the same tokens read alike. -/
theorem echoes_lockstep : Lockstep leafContract Echoes where
  grammar_eq := by
    rintro p q ⟨source, -, rfl⟩
    rfl
  alike := by
    rintro p q ⟨source, -, rfl⟩
    rfl
  advance h _ := h.advance
  report := by
    rintro p q cause ⟨source, hsource, rfl⟩
    exact ⟨source, hsource, rfl⟩
  synchronize := by
    rintro goal p₀ q₀ p q inBlock ⟨source₀, -, rfl⟩ - - - - h
    have hline : q.window.current.line = p.window.current.line ∧
        q.errorPosition = p.errorPosition := by
      obtain ⟨source, -, rfl⟩ := h
      exact ⟨rfl, rfl⟩
    unfold Parser.synchronize
    rw [hline.1, hline.2]
    apply skipTo_lockstep _ _ _ h
    · rintro p q ⟨source, -, rfl⟩
      rfl
    · rintro p q ⟨source, -, rfl⟩
      exact Iff.rfl
    · exact fun h _ _ => h.advance

/-- The same program is read from both. -/
theorem Echoes.program (hgrammar : p.grammar = .standard) (h : Echoes p q) :
    q.program.1 = p.program.1 ∧ Echoes p.program.2 q.program.2 := by
  revert q
  refine program_induction (motive := fun p => ∀ {q}, Echoes p q →
    q.program.1 = p.program.1 ∧ Echoes p.program.2 q.program.2) ?_ ?_ p hgrammar
  · intro p _ heof q h
    have hkind : q.kind = .eof := by
      obtain ⟨source, -, rfl⟩ := h
      exact heof
    rw [program_of_eof heof, program_of_eof hkind]
    exact ⟨rfl, h⟩
  · intro p hgrammar hkind ih q h
    have hgrammar' : q.grammar = .standard := (echoes_lockstep.grammar_eq h).trans hgrammar
    have hkind' : q.kind ≠ .eof := by
      obtain ⟨source, -, rfl⟩ := h
      exact hkind
    obtain ⟨hslot, hafter⟩ := echoes_lockstep.round leafContract_kept hgrammar h trivial trivial
      fun _ _ _ => trivial
    obtain ⟨hprogram, hlast⟩ := ih hafter
    rw [program_of_ne hgrammar hkind, program_of_ne hgrammar' hkind', hslot, hprogram]
    exact ⟨rfl, hlast⟩

/-- New parsers take the same tokens, if the list holds what the lexer has to give. -/
theorem echoes_ofSource {source list : Source} (h : source.Echoes list) :
    Echoes (ofSource source) (ofSource list) := by
  obtain ⟨hcurrent, hrest⟩ := h.next
  obtain ⟨hpeek, hlast⟩ := hrest.next
  refine ⟨list.next.2.next.2, hlast, ?_⟩
  simp only [ofSource, hcurrent, hpeek]

end Parser

open ScriptFront.Parser

variable (text : String)

/-- A lexer for a text is ready at its beginning. -/
theorem Lexer.ofText_ready : (Lexer.ofText text).Ready := by
  obtain ⟨_, -, hstands⟩ := Lexer.ofText_standsIn text
  exact hstands.toReady

/-- Parsing a text as it is split gives what parsing the tokens that are drained from it gives. -/
theorem parseStream_eq_parseTokens :
    (parseStream text).program = (parseTokens (Lexer.ofText text).drain.1).1 ∧
      (parseStream text).diagnostics = (parseTokens (Lexer.ofText text).drain.1).2 := by
  have hsource : (Source.ofText text).Echoes (.ofTokens (Lexer.ofText text).drain.1) :=
    .drained (Lexer.ofText_ready text)
  obtain ⟨hprogram, source, -, hlast⟩ := (echoes_ofSource hsource).program rfl
  refine ⟨hprogram.symm, ?_⟩
  exact (congrArg Parser.diagnostics hlast).symm

/-- The lexer behind a parser that has come to the end of a text has been drained. -/
theorem parseStream_lexerErrors :
    (parseStream text).lexerErrors = (Lexer.ofText text).drain.2.errors := by
  obtain ⟨hlater, hkind⟩ := program_later (p := Parser.ofText text) rfl
  obtain ⟨hsource, hwindow, -⟩ := hlater.eq_iterate
  rw [kind, hwindow] at hkind
  generalize (Parser.ofText text).program.2.position - (Parser.ofText text).position = count at *
  obtain ⟨hcurrent, -, hrest⟩ := iterate_ofSource (Source.ofText text) count
  rw [Source.ofText, Source.rest_iterate_lexer] at hcurrent hrest
  -- the token at hand is the end of input, and it came from the lexer
  obtain ⟨_, -, hstart⟩ := Lexer.ofText_standsIn text
  obtain ⟨_, hstands⟩ := hstart.iterate count
  obtain ⟨token, after, hnext, -⟩ := Lexer.next?_hands hstands.toReady
  have heof : token.kind = .eof := by
    simp only [Source.next, hnext] at hcurrent
    rw [← hcurrent]
    exact hkind
  have hdrained := Lexer.step_iterate_of_eof hstart.toReady ⟨token, after, hnext, heof⟩ 1
  change (Parser.ofText text).program.2.source.errors = _
  rw [← hdrained, hsource]
  exact congrArg Source.errors hrest

/-- There are no problems exactly when no illegal token is drained. -/
theorem drain_errors_eq_nil_iff :
    (Lexer.ofText text).drain.2.errors = [] ↔
      ∀ token ∈ (Lexer.ofText text).drain.1, token.kind ≠ .illegal := by
  obtain ⟨added, hadded, hcount⟩ := Lexer.drain_errors (Lexer.ofText_ready text)
  rw [hadded, show (Lexer.ofText text).errors = [] from rfl, List.nil_append,
    ← List.length_eq_zero_iff, hcount, List.countP_eq_zero]
  simp

/-- No program is read without a diagnostic from tokens with an illegal one among them. -/
theorem diagnostics_ne_nil_of_illegal {token : Token}
    (hmem : token ∈ (Lexer.ofText text).drain.1) (hkind : token.kind = .illegal) :
    (parseStream text).diagnostics ≠ [] := by
  intro hclean
  rw [(parseStream_eq_parseTokens text).2] at hclean
  obtain ⟨tokens, htokens, hne⟩ := Lexer.drain_ends text
  have htaken : (Lexer.ofText text).drain.1.takeWhile (·.kind ≠ .eof) = tokens := by
    rw [htokens, List.takeWhile_append_of_pos fun token hmem => decide_eq_true (hne token hmem)]
    simp [Token.eof]
  have htokensFor := parseTokens_tokensFor hclean
  rw [htaken] at htokensFor
  rw [htokens] at hmem
  rcases List.mem_append.1 hmem with hmem | hmem
  · exact (htokensFor.legal token hmem).1 hkind
  · rw [List.mem_singleton.1 hmem] at hkind
    cases hkind

/-- **Parsing a text as it is split agrees with parsing it afterwards.** A text has tokens exactly
when no illegal one is drained from it up to the first end of input. Then its tokens are the drained
ones, and a parser that asks the lexer as it goes along gives the same program and diagnostics as
one that is given the tokens. Otherwise the first problem that the lexer records takes the place of
the tokens, the lexer ends with as many problems as there are illegal tokens, and the parser that
asks it ends with a diagnostic. So that parser is free of diagnostics exactly when the text has
tokens and these are parsed without one. -/
theorem streaming_agrees :
    ((∃ tokens, tokenize text = .ok tokens) ↔
      ∀ token ∈ (Lexer.ofText text).drain.1, token.kind ≠ .illegal) ∧
    (∀ tokens, tokenize text = .ok tokens →
      tokens = (Lexer.ofText text).drain.1 ∧
        (parseStream text).program = (parseTokens tokens).1 ∧
        (parseStream text).diagnostics = (parseTokens tokens).2) ∧
    (∀ problem, tokenize text = .error problem →
      (parseStream text).lexerErrors = (Lexer.ofText text).drain.2.errors ∧
        (Lexer.ofText text).drain.2.errors.head? = some problem ∧
        (Lexer.ofText text).drain.2.errors.length =
          (Lexer.ofText text).drain.1.countP (·.kind = .illegal) ∧
        (parseStream text).diagnostics ≠ []) ∧
    ((parseStream text).diagnostics = [] ↔ ∃ program, parseText text = .ok (program, [])) := by
  have hready := Lexer.ofText_ready text
  have htokenize : tokenize text = _ := Lexer.tokens_eq_drain hready rfl
  have hillegal := drain_errors_eq_nil_iff text
  obtain ⟨hprogram, hdiagnostics⟩ := parseStream_eq_parseTokens text
  obtain ⟨added, hadded, hcount⟩ := Lexer.drain_errors hready
  cases herrors : (Lexer.ofText text).drain.2.errors with
  | nil =>
    have hok : tokenize text = .ok (Lexer.ofText text).drain.1 := by
      rw [htokenize, herrors]
    refine ⟨⟨fun _ => hillegal.1 herrors, fun _ => ⟨_, hok⟩⟩, ?_, ?_, ?_⟩
    · intro tokens htokens
      rw [hok] at htokens
      cases htokens
      exact ⟨rfl, hprogram, hdiagnostics⟩
    · intro problem hproblem
      rw [hok] at hproblem
      cases hproblem
    · unfold parseText
      rw [hok, hdiagnostics]
      constructor
      · intro hclean
        exact ⟨_, congrArg Except.ok (Prod.ext rfl hclean)⟩
      · rintro ⟨program, hparsed⟩
        exact congrArg Prod.snd (Except.ok.inj hparsed)
  | cons problem others =>
    have herror : tokenize text = .error problem := by
      rw [htokenize, herrors]
    have hproblems : (Lexer.ofText text).drain.2.errors ≠ [] := by
      rw [herrors]
      exact List.cons_ne_nil _ _
    obtain ⟨token, hmem, hkind⟩ : ∃ token ∈ (Lexer.ofText text).drain.1, token.kind = .illegal := by
      by_contra hnone
      exact hproblems (hillegal.2 fun token hmem hkind => hnone ⟨token, hmem, hkind⟩)
    have hunclean := diagnostics_ne_nil_of_illegal text hmem hkind
    refine ⟨⟨?_, fun hlegal => absurd hkind (hlegal token hmem)⟩, ?_, ?_, ?_⟩
    · rintro ⟨tokens, htokens⟩
      rw [herror] at htokens
      cases htokens
    · intro tokens htokens
      rw [herror] at htokens
      cases htokens
    · intro first hfirst
      rw [herror] at hfirst
      cases hfirst
      refine ⟨?_, rfl, ?_, hunclean⟩
      · rw [parseStream_lexerErrors, herrors]
      · rw [← herrors, hadded, ← hcount]
        rfl
    · unfold parseText
      rw [herror]
      refine ⟨fun hclean => absurd hclean hunclean, ?_⟩
      rintro ⟨program, hparsed⟩
      cases hparsed

/-- The law at a call, and at the same call with a stray character behind it. -/
theorem streaming_agrees_stray :
    let tokens : List Token := [⟨.identifier, "f", 1⟩, ⟨.openParen, "(", 1⟩, ⟨.identifier, "a", 1⟩,
      ⟨.closeParen, ")", 1⟩, Token.eof 1]
    let problem : Diagnostic := ⟨.unrecognisedToken "$", 1⟩
    tokenize "f(a)" = .ok tokens ∧ (parseStream "f(a)").program = (parseTokens tokens).1 ∧
      tokenize "f(a) $" = .error problem ∧
      (parseStream "f(a) $").lexerErrors.head? = some problem ∧
      (parseStream "f(a) $").diagnostics ≠ [] := by
  intro tokens problem
  have hok : tokenize "f(a)" = .ok tokens := by decide +kernel
  have herror : tokenize "f(a) $" = .error problem := by decide +kernel
  obtain ⟨-, hprogram, -⟩ := (streaming_agrees "f(a)").2.1 tokens hok
  obtain ⟨hlexer, hfirst, -, hunclean⟩ := (streaming_agrees "f(a) $").2.2.1 problem herror
  rw [← hlexer] at hfirst
  exact ⟨hok, hprogram, herror, hfirst, hunclean⟩

end ScriptFront
