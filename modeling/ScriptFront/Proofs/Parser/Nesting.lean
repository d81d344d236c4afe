import ScriptFront.Proofs.Parser.TakenTokensKept

/-!
# What is read is well nested

* `Parser.span` — the tokens from the one at hand in one state to the one at hand in a later one.
* `Parser.Nests` — nothing but shifts leads from one state to the other, their span is well nested,
  and once it is taken as many braces are open as before.
* `reading_nests` — whatever is found, expression, statement, pattern or block, spans tokens that
  nest, and a block ends on the partner of its own brace.
-/

namespace ScriptFront

namespace Parser

variable {p q : Parser} {tokens : List Token}

/-- The tokens from the one at hand in the first state to the one at hand in the second, both
included. -/
def span (p q : Parser) : List Token :=
  p.ahead (q.position - p.position + 1)

/-- Shifts over tokens that nest lead from the one state to the other. -/
structure Nests (p q : Parser) : Prop where
  /-- Only shifts lead to the second state, so that the span ends on its token at hand. -/
  moved : q = advance^[q.position - p.position] p
  /-- Brackets of all three sorts nest. -/
  wellNested : Kind.WellNested ((p.span q).map Token.kind)
  /-- Behind the span, as many braces are open as in front of it. -/
  depth_eq : q.advance.depth = p.depth

/-- Shifts are counted. -/
theorem position_iterate (count : Nat) (p : Parser) :
    (advance^[count] p).position = p.position + count := by
  induction count with
  | zero => rfl
  | succ count ih => rw [Function.iterate_succ_apply', position_advance, ih, Nat.add_assoc]

/-- The depth comes of the tokens that are taken. -/
theorem depth_iterate (count : Nat) (p : Parser) :
    (advance^[count] p).depth =
      ((p.ahead count).map Token.kind).foldl (fun depth kind => depthAfter kind depth) p.depth := by
  induction count generalizing p with
  | zero => rfl
  | succ count ih =>
    rw [Function.iterate_succ_apply, ih, ahead, List.map_cons, List.foldl_cons]
    rfl

/-- The span of some steps is the token at hand before and the tokens that they move onto. -/
theorem Steps.span_eq (h : Steps p tokens q) : p.span q = p.window.current :: tokens := by
  obtain ⟨rfl, htokens⟩ := h
  rw [span, position_iterate, Nat.add_sub_cancel_left, ahead, htokens]

/-- Steps over tokens that nest leave the depth as it was. -/
theorem Steps.nests (h : Steps p tokens q)
    (hnested : Kind.WellNested ((p.window.current :: tokens).map Token.kind)) : Nests p q := by
  have hspan := h.span_eq
  obtain ⟨rfl, htokens⟩ := h
  refine ⟨?_, by rwa [hspan], ?_⟩
  · rw [position_iterate, Nat.add_sub_cancel_left]
  · have hdepth := Kind.foldl_depthAfter hnested p.depth
    rw [← Function.iterate_succ_apply' Parser.advance, depth_iterate, ahead, htokens]
    simpa using hdepth

end Parser

open ScriptFront.Parser

/-- A plan that takes in the token at hand and closes what it opens spans tokens that nest. -/
theorem Rule.TakesTokensHere.nests {α : Type} [Leafy α] {rule : Rule α}
    (h : rule.TakesTokensHere [] [])
    {p q : Parser} {value : α} (hgrammar : p.grammar = .standard)
    (hrun : p.run rule = (some value, q)) : p.Nests q := by
  obtain ⟨tokens, hsteps, htokensOf⟩ := (h p).run hgrammar hrun
  exact hsteps.nests htokensOf.nested

/-- **What is read is well nested.** Take any parser with the standard grammar. Whenever it finds an
expression of whatever power, a statement or a pattern, or a block from its opening brace on, the
tokens from the one at hand before to the one at hand after nest in all three sorts of brackets, and
behind them as many braces are open as in front of them. A block ends on the brace that matches its
own: what stands between the two nests. -/
theorem reading_nests {p q : Parser} (hgrammar : p.grammar = .standard) :
    (∀ power e, p.run (Rule.expr power) = (some e, q) → p.Nests q) ∧
    (∀ statement, p.run Rule.stmt = (some statement, q) → p.Nests q) ∧
    (∀ e, p.run Rule.pattern = (some e, q) → p.Nests q) ∧
    ∀ block, p.kind = .openCurly → p.run Rule.block = (some block, q) →
      p.Nests q ∧ q.kind = .closeCurly ∧
        ∃ inner, p.span q = p.window.current :: (inner ++ [q.window.current]) ∧
          Kind.WellNested (inner.map Token.kind) := by
  refine ⟨fun power e hrun => (Rule.takesHere_expr power).nests hgrammar hrun,
    fun statement hrun => Rule.takesHere_stmt.nests hgrammar hrun,
    fun e hrun => Rule.takesHere_pattern.nests hgrammar hrun, fun block hopen hrun => ?_⟩
  obtain ⟨tokens, hsteps, henclosed⟩ := Rule.collects_block.run hgrammar hrun
  have hbrace : p.window.current.kind.Opens [.closeCurly] := by
    rw [show p.window.current.kind = .openCurly from hopen]
    decide
  have hall := (TokensFor.opening hbrace).append henclosed.tokensOf
  have hspan := hsteps.span_eq
  obtain ⟨inner, rfl, hclose, hinner⟩ := henclosed
  exact ⟨hsteps.nests hall.nested, hclose, inner, hspan, hinner.nested⟩

/-- The law at a block that holds a call with an index in its argument. -/
theorem reading_nests_block :
    let p := ofTokens [⟨.openCurly, "\x7b", 1⟩, ⟨.identifier, "f", 1⟩, ⟨.openParen, "(", 1⟩,
      ⟨.identifier, "a", 1⟩, ⟨.openBracket, "[", 2⟩, ⟨.identifier, "i", 2⟩, ⟨.closeBracket, "]", 2⟩,
      ⟨.closeParen, ")", 2⟩, ⟨.closeCurly, "\x7d", 3⟩, ⟨.identifier, "b", 3⟩]
    ∃ block q, p.run Rule.block = (some block, q) ∧ q.position = 8 ∧ p.Nests q ∧
      q.kind = .closeCurly := by
  intro p
  obtain ⟨block, q, hrun, hposition⟩ : ∃ block q, p.run Rule.block = (some block, q) ∧
      q.position = 8 := ⟨_, _, rfl, rfl⟩
  obtain ⟨-, -, -, hblock⟩ := reading_nests (q := q) (show p.grammar = .standard from rfl)
  obtain ⟨hnests, hclose, -⟩ := hblock block rfl hrun
  exact ⟨block, q, hrun, hposition, hnests, hclose⟩

end ScriptFront
