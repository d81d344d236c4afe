import ScriptFront.Proofs.Parser.TakenTokensKept

/-!
# No operand is lost

* `program_tokensFor` — a program that is read without a diagnostic has taken tokens that leave
  behind its leaves, by induction on the rounds of the loop over it.
* `takeWhile_eq_of_ahead` — for a list of tokens these are the ones before the first end of input.
* `operands_kept` — so the leaves of a program that a list of tokens spells are among these tokens,
  in their order, and they are all the names and literals if no rule dropped some.
-/

namespace ScriptFront

namespace Parser

variable {p : Parser}

/-! ## Programs -/

/-- A round that adds no diagnostic has found a statement. -/
theorem found_of_diagnostics_eq (hgrammar : p.grammar = .standard)
    (h : (p.afterStatement false).diagnostics = p.diagnostics) :
    ∃ statement tokens, p.slot = some statement ∧
      p.afterStatement false = advance^[tokens.length] p ∧ p.ahead tokens.length = tokens ∧
        TokensOf [] [] statement tokens := by
  have hmeets := Contract.pursue_meets leafContract_kept p.budget .stmt hgrammar trivial
  have haccounted := pursue_accounted p.budget .stmt p
  have hreply := pursue_ne_exhausted hgrammar .stmt (Nat.le_refl p.budget)
  unfold afterStatement at h ⊢
  unfold slot
  rcases heq : pursue p.budget .stmt p with ⟨statement | _ | _, after⟩ <;>
    rw [heq] at hmeets haccounted hreply h
  · obtain ⟨tokens, ⟨rfl, htokens⟩, htokensOf⟩ := hmeets
    refine ⟨statement, p.window.current :: tokens, rfl, ?_, ?_, htokensOf⟩
    · rw [List.length_cons, Function.iterate_succ_apply']
    · rw [List.length_cons, ahead, htokens]
  · obtain ⟨added, hadded, hafter⟩ := haccounted
    rw [diagnostics_synchronize, hafter] at h
    exact absurd (List.append_right_eq_self.1 h) hadded
  · exact absurd rfl hreply

/-- What a program that is read without a diagnostic has taken leaves behind its leaves. -/
theorem program_tokensFor (hgrammar : p.grammar = .standard)
    (hclean : p.program.2.diagnostics = p.diagnostics) :
    ∃ tokens, p.program.2 = advance^[tokens.length] p ∧ p.ahead tokens.length = tokens ∧
      TokensFor [] [] p.program.1.leaves p.program.1.nodes tokens := by
  revert hclean
  refine program_induction
    (motive := fun p => p.program.2.diagnostics = p.diagnostics →
      ∃ tokens, p.program.2 = advance^[tokens.length] p ∧ p.ahead tokens.length = tokens ∧
        TokensFor [] [] p.program.1.leaves p.program.1.nodes tokens)
    (fun p _ heof _ => ?_) (fun p hgrammar hkind ih hclean => ?_) p hgrammar
  · rw [program_of_eof heof]
    exact ⟨[], rfl, rfl, .nil []⟩
  · have hlater := afterStatement_later false p
    have hgrammar' := hlater.grammar_eq.trans hgrammar
    rw [program_of_ne hgrammar hkind] at hclean ⊢
    -- diagnostics only grow, so that neither this round nor those behind it have added one
    have hround : (p.afterStatement false).diagnostics = p.diagnostics := by
      have hrest := (program_later hgrammar').1.diagnostics_le
      rw [hclean] at hrest
      exact hrest.eq_of_length_le hlater.diagnostics_le.length_le
    obtain ⟨statement, tokens, hslot, hafter, htokens, htokensOf⟩ :=
      found_of_diagnostics_eq hgrammar hround
    obtain ⟨rest, hlast, hrest, htokensFor⟩ := ih (hclean.trans hround.symm)
    refine ⟨tokens ++ rest, ?_, ?_, ?_⟩
    · rw [hlast, hafter, List.length_append, Nat.add_comm, Function.iterate_add_apply]
    · rw [List.length_append, ahead_add, htokens, ← hafter, hrest]
    · rw [hslot]
      exact htokensOf.append htokensFor

/-! ## Lists of tokens -/

/-- Of the tokens that come to hand, each is at hand after as many shifts. -/
theorem getElem?_ahead (p : Parser) {count index : Nat} (h : index < count) :
    (p.ahead count)[index]? = some (advance^[index] p).window.current := by
  induction count generalizing p index with
  | zero => exact absurd h (Nat.not_lt_zero _)
  | succ count ih =>
    cases index with
    | zero => rfl
    | succ index =>
      rw [ahead, List.getElem?_cons_succ, ih p.advance (Nat.lt_of_succ_lt_succ h),
        Function.iterate_succ_apply]

/-- What a parser for a list takes up to an end of input, and before any other, are the tokens
before the first end of input of the list. -/
theorem takeWhile_eq_of_ahead {tokens taken : List Token}
    (hahead : (ofTokens tokens).ahead taken.length = taken)
    (hbefore : ∀ token ∈ taken, token.kind ≠ .eof)
    (hend : (advance^[taken.length] (ofTokens tokens)).kind = .eof) :
    tokens.takeWhile (·.kind ≠ .eof) = taken := by
  have hget : ∀ index < taken.length,
      taken[index]? = some (advance^[index] (ofTokens tokens)).window.current := by
    intro index hindex
    rw [← hahead, getElem?_ahead _ hindex]
  have hlength : taken.length = (tokens.takeWhile (·.kind ≠ .eof)).length := by
    rcases Nat.lt_or_ge (tokens.takeWhile (·.kind ≠ .eof)).length taken.length with hlt | hge
    · -- the first end of input of the list would be among what was taken
      have heof : (advance^[(tokens.takeWhile (·.kind ≠ .eof)).length] (ofTokens tokens)).kind =
          .eof := (kind_iterate_ofTokens (Nat.le_refl _)).2 rfl
      exact absurd heof (hbefore _ (List.mem_of_getElem? (hget _ hlt)))
    · exact (kind_iterate_ofTokens hge).1 hend
  refine List.ext_getElem? fun index => ?_
  by_cases hindex : index < taken.length
  · have hcurrent := current_iterate_ofTokens tokens index
    have hfront : tokens.takeWhile (·.kind ≠ .eof) <+: tokens := List.takeWhile_prefix _
    rw [hget index hindex, hcurrent]
    rw [hlength] at hindex
    have hwhole : index < tokens.length := Nat.lt_of_lt_of_le hindex hfront.length_le
    rw [List.getElem?_eq_getElem hindex, hfront.getElem hindex, List.getElem?_eq_getElem hwhole,
      Option.getD_some]
  · rw [List.getElem?_eq_none (Nat.not_lt.1 hindex), List.getElem?_eq_none]
    rw [← hlength]
    exact Nat.not_lt.1 hindex

end Parser

open ScriptFront.Parser

/-- What a list of tokens that spells a program leaves behind, up to its first end of input. -/
theorem parseTokens_tokensFor {tokens : List Token} (h : (parseTokens tokens).2 = []) :
    TokensFor [] [] (parseTokens tokens).1.leaves (parseTokens tokens).1.nodes
      (tokens.takeWhile (·.kind ≠ .eof)) := by
  obtain ⟨taken, hlast, hahead, htokensFor⟩ := program_tokensFor (p := ofTokens tokens) rfl h
  have hend := (program_later (p := ofTokens tokens) rfl).2
  rw [hlast] at hend
  rw [takeWhile_eq_of_ahead hahead (fun token hmem => (htokensFor.legal token hmem).2) hend]
  exact htokensFor

/-- **No operand is lost, doubled or moved.** Take any list of tokens that is parsed without a
diagnostic into a program in which no function has two parameters of one name. The tokens of the
names and literals of the program, in the order of the text, are among those before the first end of
input, in the same order; and if no name is imported there and no loop counts its rounds, they are
exactly the names and literals among them. -/
theorem operands_kept {tokens : List Token} (hclean : (parseTokens tokens).2 = [])
    (hdistinct : ∀ node ∈ (parseTokens tokens).1.nodes, node.ParametersDistinct) :
    (parseTokens tokens).1.leaves.Sublist (tokens.takeWhile (·.kind ≠ .eof)) ∧
      ((∀ token ∈ tokens.takeWhile (·.kind ≠ .eof),
          token.kind ≠ .importWord ∧ token.kind ≠ .repeatWord) →
        (parseTokens tokens).1.leaves =
          (tokens.takeWhile (·.kind ≠ .eof)).filter fun token => token.kind.isOperand) := by
  obtain ⟨hsublist, hfilter⟩ := (parseTokens_tokensFor hclean).leavesAmong hdistinct
  exact ⟨hsublist, hfilter⟩

/-- The law at a function with a default, whose parameters are used in an assignment to an index. -/
theorem operands_kept_function :
    let tokens : List Token := [⟨.funcWord, "func", 1⟩, ⟨.openParen, "(", 1⟩, ⟨.identifier, "a", 1⟩,
      ⟨.comma, ",", 1⟩, ⟨.identifier, "b", 1⟩, ⟨.assignment, "=", 1⟩, ⟨.nullWord, "null", 1⟩,
      ⟨.closeParen, ")", 1⟩, ⟨.openCurly, "\x7b", 1⟩, ⟨.identifier, "a", 2⟩, ⟨.openBracket, "[", 2⟩,
      ⟨.string, "k", 2⟩, ⟨.closeBracket, "]", 2⟩, ⟨.assignment, "=", 2⟩, ⟨.identifier, "b", 2⟩,
      ⟨.closeCurly, "\x7d", 3⟩, ⟨.eof, "", 3⟩, ⟨.identifier, "c", 4⟩]
    (parseTokens tokens).2 = [] ∧
      (∀ node ∈ (parseTokens tokens).1.nodes, node.ParametersDistinct) ∧
      (parseTokens tokens).1.leaves.map Token.value = ["a", "b", "null", "a", "k", "b"] ∧
      (parseTokens tokens).1.leaves =
        (tokens.takeWhile (·.kind ≠ .eof)).filter fun token => token.kind.isOperand := by
  intro tokens
  have hclean : (parseTokens tokens).2 = [] := by decide
  have hdistinct : ∀ node ∈ (parseTokens tokens).1.nodes, node.ParametersDistinct := by decide
  have hkept := operands_kept hclean hdistinct
  exact ⟨hclean, hdistinct, by decide, hkept.2 (by decide)⟩

end ScriptFront
