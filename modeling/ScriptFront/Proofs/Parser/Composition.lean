import ScriptFront.Proofs.Parser.Isolation
import ScriptFront.Proofs.Parser.Nesting
import ScriptFront.Proofs.Parser.Operands
import ScriptFront.Proofs.Parser.Lookahead

/-!
# Programs compose

A program that is read without a fault and ends on a semicolon can be followed by any other, and
neither reaches into the other.

* `Parser.Indistinguishable` — two parsers whose windows a contract does not tell apart for some
  shifts. What the first finds within these shifts, the second finds too
  (`pursue_indistinguishable`), although one of them may meet the end of input where the other goes
  on.
* `Indistinguishable.rounds` — so the second reads the rounds of the first, up to its end of input.
* `Shifted.program_eq_of_trailing` — and from there it reads what a parser that starts afresh reads,
  unless it starts on an operator that applies to the token before it.
* `programs_compose` — the slots of the two programs come one after the other, with the diagnostics
  of the second.
-/

namespace ScriptFront

open ScriptFront.Parser

namespace Parser

variable {m : Nat} {p q : Parser}

/-! ## Shifts -/

/-- Shifts lead to a later state. -/
theorem later_iterate (count : Nat) (p : Parser) : Later p (advance^[count] p) := by
  induction count with
  | zero => exact .refl
  | succ count ih =>
    rw [Function.iterate_succ_apply']
    exact ih.advance

/-- Shifts record no diagnostic. -/
@[simp] theorem diagnostics_iterate (count : Nat) (p : Parser) :
    (advance^[count] p).diagnostics = p.diagnostics := by
  induction count with
  | zero => rfl
  | succ count ih => rw [Function.iterate_succ_apply', diagnostics_advance, ih]

/-- As many tokens come to hand as are counted. -/
theorem length_ahead (count : Nat) (p : Parser) : (p.ahead count).length = count := by
  induction count generalizing p with
  | zero => rfl
  | succ count ih => rw [ahead, List.length_cons, ih]

/-! ## Readings side by side -/

/-- For as many shifts, the contract does not tell the window of the second parser from that of the
first. -/
structure Indistinguishable (contract : Contract) (m : Nat) (p q : Parser) : Prop where
  grammar_eq : p.grammar = .standard ∧ q.grammar = .standard
  alike : ∀ count ≤ m, contract.alike (advance^[count] p) (advance^[count] q).window

/-- What is found by the first parser after `i` shifts, without leading past the bound, is found by
the second after as many, and leads as far. -/
def Follows {α : Type} (m : Nat) (p q : Parser) (i : Nat) (reading : Reading α) : Prop :=
  ∀ value after, reading (advance^[i] p) = (.found value, after) →
    after.position ≤ p.position + m →
      ∃ j ≤ m, after = advance^[j] p ∧ reading (advance^[i] q) = (.found value, advance^[j] q)

end Parser

namespace Rule

variable {α : Type} {goal : Goal} {next : goal.Answer → Rule α} {p after : Parser} {value : α}
  {pursue : (goal : Goal) → Reading goal.Answer}

/-- A plan that asks for a goal is done if the goal is found and the plan for its answer is done. -/
theorem follow_need_eq_found_iff :
    (need goal next).follow pursue p = (.found value, after) ↔
      ∃ answer middle, pursue goal p = (.found answer, middle) ∧
        (next answer).follow pursue middle = (.found value, after) := by
  rw [follow]
  rcases pursue goal p with ⟨answer | _ | _, middle⟩ <;> simp

/-- What is asked for after a failure is never found. -/
theorem follow_salvage_eq_found_iff {rest : Goal} :
    (salvage goal next rest).follow pursue p = (.found value, after) ↔
      (need goal next).follow pursue p = (.found value, after) := by
  rw [follow, follow]
  rcases pursue goal p with ⟨answer | _ | _, middle⟩
  · rfl
  · dsimp only
    rcases pursue rest (middle.synchronize p.checkpoint true) with ⟨_ | _ | _, last⟩ <;>
      simp [Reply.discard]
  · rfl

end Rule

namespace Parser.Indistinguishable

variable {α : Type} {contract : Contract} {m : Nat} {p q : Parser}

/-- A plan that asks for a goal finds the same from both parsers, if the goal does and the plan for
its answer does. -/
theorem follow_need_indistinguishable (h : Indistinguishable contract m p q)
    {pursue : (goal : Goal) → Reading goal.Answer}
    (hlater : ∀ goal r, Later r (pursue goal r).2)
    (hmeets : ∀ goal r, r.grammar = .standard → contract.asked goal r →
      (pursue goal r).1.Meets (contract.found goal r) (contract.absent goal r) (pursue goal r).2)
    {goal : Goal} {next : goal.Answer → Rule α} {i : Nat}
    (hasked : contract.asked goal (Parser.advance^[i] p)) (hgoal : Follows m p q i (pursue goal))
    (hnext : ∀ answer j, j ≤ m → Later (Parser.advance^[i] p) (Parser.advance^[j] p) →
      contract.found goal (Parser.advance^[i] p) answer (Parser.advance^[j] p) →
        Follows m p q j ((next answer).follow pursue)) :
    Follows m p q i ((Rule.need goal next).follow pursue) := by
  intro value after hrun hend
  obtain ⟨answer, middle, hfirst, hrest⟩ := Rule.follow_need_eq_found_iff.1 hrun
  have hgone := hlater goal (Parser.advance^[i] p)
  have hfound := hmeets goal _ ((later_iterate i p).grammar_eq.trans h.grammar_eq.1) hasked
  have hmoved := (follow_later hlater (next answer) middle).position_le
  rw [hfirst] at hgone hfound
  rw [hrest] at hmoved
  obtain ⟨j, hj, rfl, hfirst'⟩ := hgoal answer middle hfirst (hmoved.trans hend)
  obtain ⟨k, hk, hafter, hrest'⟩ := hnext answer j hj hgone hfound value after hrest hend
  exact ⟨k, hk, hafter, Rule.follow_need_eq_found_iff.2 ⟨answer, _, hfirst', hrest'⟩⟩

/-- Every plan that keeps to the contract finds the same from both parsers, if the goals do. -/
theorem follow_indistinguishable (h : Indistinguishable contract m p q)
    {pursue : (goal : Goal) → Reading goal.Answer}
    (hlater : ∀ goal r, Later r (pursue goal r).2)
    (hmeets : ∀ goal r, r.grammar = .standard → contract.asked goal r →
      (pursue goal r).1.Meets (contract.found goal r) (contract.absent goal r) (pursue goal r).2)
    (hpursue : ∀ goal i, i ≤ m → contract.asked goal (Parser.advance^[i] p) →
      Follows m p q i (pursue goal))
    {rule : Rule α} {found : α → Parser → Prop} {absent : Parser → Prop} {i : Nat} (hi : i ≤ m)
    (hrule : rule.Ensures contract found absent (Parser.advance^[i] p)) :
    Follows m p q i (rule.follow pursue) := by
  induction rule generalizing i with
  | done value =>
    intro value' after hrun _
    cases hrun
    exact ⟨i, hi, rfl, rfl⟩
  | fail cause =>
    intro value after hrun
    cases hrun
  | look next ih =>
    intro value after hrun hend
    rw [Rule.follow, hrule.1 _ (h.alike i hi)]
    exact ih _ hi hrule.2 value after hrun hend
  | shift next ih =>
    intro value after hrun hend
    obtain ⟨-, hnext⟩ := hrule
    rw [Rule.follow, ← Function.iterate_succ_apply' Parser.advance] at hrun ⊢
    rw [← Function.iterate_succ_apply' Parser.advance] at hnext
    -- the plan ends behind this shift and not past the bound, so the shift is within the bound
    have hmoved := (follow_later hlater next (Parser.advance^[i + 1] p)).position_le
    rw [hrun, position_iterate] at hmoved
    have hwithin : i + 1 ≤ m := Nat.le_of_add_le_add_left (hmoved.trans hend)
    exact ih hwithin hnext value after hrun hend
  | need goal next ih =>
    obtain ⟨hasked, hnext, -⟩ := hrule
    exact h.follow_need_indistinguishable hlater hmeets hasked (hpursue goal i hi hasked)
      fun answer j hj hgone hfound => ih answer hj (hnext answer _ hgone hfound)
  | salvage goal next rest ih =>
    obtain ⟨-, hasked, hnext, -⟩ := hrule
    have hneed := h.follow_need_indistinguishable hlater hmeets hasked (hpursue goal i hi hasked)
      fun answer j hj hgone hfound => ih answer hj (hnext answer _ hgone hfound)
    intro value after hrun hend
    rw [Rule.follow_salvage_eq_found_iff] at hrun
    obtain ⟨j, hj, hafter, hrun'⟩ := hneed value after hrun hend
    exact ⟨j, hj, hafter, Rule.follow_salvage_eq_found_iff.2 hrun'⟩

/-- What the first parser finds without leading past the bound, the second finds. -/
theorem pursue_indistinguishable (h : Indistinguishable contract m p q) (hkept : contract.Kept)
    (budget : Nat)
    (goal : Goal) {i : Nat} (hi : i ≤ m) (hasked : contract.asked goal (Parser.advance^[i] p)) :
    Follows m p q i (pursue budget goal) := by
  induction budget generalizing goal i with
  | zero =>
    intro value after hrun
    cases hrun
  | succ budget ih =>
    have hp := (later_iterate i p).grammar_eq.trans h.grammar_eq.1
    have hq := (later_iterate i q).grammar_eq.trans h.grammar_eq.2
    have hbody := h.follow_indistinguishable (pursue_later budget)
      (fun goal r hr hasked => Contract.pursue_meets hkept budget goal hr hasked)
      (fun goal i hi hasked => ih goal hi hasked) hi (hkept goal _ hp hasked)
    intro value after hrun hend
    rw [pursue, hp] at hrun
    rw [pursue, hq]
    exact hbody value after hrun hend

end Parser.Indistinguishable

/-! ## Rounds side by side -/

namespace Parser

variable {m n : Nat} {p q : Parser} {before : List Diagnostic}

/-- A program that adds no diagnostic finds a statement in its first round and adds none from there
on. -/
theorem found_of_program_clean (hgrammar : p.grammar = .standard) (hkind : p.kind ≠ .eof)
    (hclean : p.program.2.diagnostics = p.diagnostics) :
    ∃ statement after, pursue p.budget .stmt p = (.found statement, after) ∧
      p.slot = some statement ∧ p.afterStatement false = after.advance := by
  have hlater := afterStatement_later false p
  have hround : (p.afterStatement false).diagnostics = p.diagnostics := by
    have hrest := (program_later (hlater.grammar_eq.trans hgrammar)).1.diagnostics_le
    rw [program_of_ne hgrammar hkind] at hclean
    rw [hclean] at hrest
    exact hrest.eq_of_length_le hlater.diagnostics_le.length_le
  obtain ⟨statement, -, hslot, -⟩ := found_of_diagnostics_eq hgrammar hround
  rw [slot] at hslot
  rw [slot, afterStatement]
  rcases heq : pursue p.budget .stmt p with ⟨answer | _ | _, after⟩ <;> rw [heq] at hslot
  · exact ⟨answer, after, rfl, rfl, rfl⟩
  · cases hslot
  · cases hslot

/-- A parser reads the rounds of another that stays indistinguishable from it up to its end of input
and adds no diagnostic on the way. -/
theorem Indistinguishable.rounds (h : Indistinguishable lookahead m p q) {i : Nat} (hi : i ≤ m + 1)
    (hend : (advance^[i] p).program.2.position = p.position + (m + 1))
    (hclean : (advance^[i] p).program.2.diagnostics = p.diagnostics) :
    Rounds (advance^[i] q) (advance^[i] p).program.1.slots (advance^[m + 1] q) := by
  induction hgap : m + 1 - i using Nat.strongRecOn generalizing i with
  | ind gap ih =>
    have hp := (later_iterate i p).grammar_eq.trans h.grammar_eq.1
    have hq := (later_iterate i q).grammar_eq.trans h.grammar_eq.2
    by_cases heof : (advance^[i] p).kind = .eof
    · rw [program_of_eof heof, position_iterate] at hend
      obtain rfl : i = m + 1 := Nat.add_left_cancel hend
      rw [program_of_eof heof]
      exact .refl _
    · obtain ⟨statement, after, hrun, hslot, hnext⟩ :=
        found_of_program_clean hp heof (hclean.trans (diagnostics_iterate i p).symm)
      have hlater : Later (advance^[i] p) after := by
        have := pursue_later (advance^[i] p).budget .stmt (advance^[i] p)
        rwa [hrun] at this
      rw [program_of_ne hp heof, hnext] at hend hclean ⊢
      have hmoved : p.position + i ≤ after.position := by
        rw [← position_iterate]
        exact hlater.position_le
      have hbefore : after.position + 1 ≤ p.position + (m + 1) := by
        rw [← hend]
        exact (program_later (p := after.advance) (hlater.grammar_eq.trans hp)).1.position_le
      -- the statement ends before the end of input, so that the second parser finds it too
      have hfollows := h.pursue_indistinguishable lookahead_kept
        (max (advance^[i] p).budget (advance^[i] q).budget) .stmt (show i ≤ m by omega) trivial
      rw [← pursue_eq_of_budget_le hp .stmt (Nat.le_max_left _ (advance^[i] q).budget)] at hrun
      obtain ⟨j, hj, rfl, hrun'⟩ := hfollows statement after hrun (by omega)
      rw [pursue_eq_of_budget_le hq .stmt (Nat.le_max_right _ _)] at hrun'
      rw [position_iterate] at hmoved
      rw [← Function.iterate_succ_apply' advance] at hend hclean ⊢
      have hrounds := ih (m + 1 - (j + 1)) (by omega) (Nat.succ_le_succ hj) hend hclean rfl
      have hkind : (advance^[i] q).kind ≠ .eof := by
        rw [kind, (h.alike i (by omega)).1]
        exact heof
      have hslot' : (advance^[i] q).slot = some statement := by
        rw [slot, hrun']
        rfl
      have hnext' : (advance^[i] q).afterStatement false = advance^[j + 1] q := by
        rw [afterStatement, hrun', Function.iterate_succ_apply']
      rw [hslot, ← hslot']
      rw [← hnext'] at hrounds
      exact .round hkind hrounds

/-! ## Starting afresh -/

/-- A parser behind other tokens reads on as one that starts afresh on a token other than an
operator that applies to the one before it. -/
theorem shifted_lockstep_lookahead (n : Nat) (before : List Diagnostic) :
    Lockstep lookahead fun p q => Shifted n before p q ∧
      (p.position = 0 → Grammar.standard.trailing p.kind = false) where
  grammar_eq h := (shifted_lockstep n before).grammar_eq h.1
  alike := by
    rintro p q ⟨h, hstart⟩
    refine ⟨h.current_eq, fun _ => h.peek_eq, fun htrailing => h.previous_eq ?_⟩
    apply Nat.pos_of_ne_zero
    intro hzero
    simp [hstart hzero] at htrailing
  advance h _ := ⟨h.1.advance, fun hzero => absurd hzero (Nat.succ_ne_zero _)⟩
  report cause h := ⟨h.1.report cause, h.2⟩
  synchronize := by
    intro goal p₀ q₀ p q inBlock h₀ _ hlater _ hdiagnostics h
    refine ⟨@Lockstep.synchronize _ _ (shifted_lockstep n before) goal _ _ _ _ inBlock h₀.1 trivial
      hlater trivial hdiagnostics h.1, fun hzero => ?_⟩
    -- skipping that has not moved has not left the token at hand
    have hskipped := synchronize_later p p₀.checkpoint inBlock
    have hle := hskipped.position_le
    have hstill : p.position = 0 := by omega
    rw [kind, hskipped.window_eq (hzero.trans hstill.symm)]
    exact h.2 hstill

/-- Where it does not start on an operator that applies to the token before it, a parser behind
other tokens reads the program of one that starts afresh. -/
theorem Shifted.program_eq_of_trailing (h : Shifted n before p q)
    (hstart : Grammar.standard.trailing p.kind = false) :
    q.program.1.slots = p.program.1.slots ∧
      q.program.2.diagnostics = before ++ p.program.2.diagnostics := by
  have hgrammar := h.grammar_eq.1
  by_cases hkind : p.kind = .eof
  · rw [program_of_eof hkind, program_of_eof (h.kind_eq.trans hkind)]
    exact ⟨rfl, h.diagnostics_eq⟩
  · have hkind' : q.kind ≠ .eof := by rwa [h.kind_eq]
    have hmoved := position_lt_afterStatement hgrammar hkind false
    obtain ⟨hslot, hnext, -⟩ := (shifted_lockstep_lookahead n before).round lookahead_kept hgrammar
      ⟨h, fun _ => hstart⟩ trivial trivial fun _ _ _ => trivial
    obtain ⟨hslots, hdiagnostics⟩ := hnext.program_eq (.inl (Nat.zero_lt_of_lt hmoved))
    rw [program_of_ne hgrammar hkind, program_of_ne h.grammar_eq.2 hkind']
    exact ⟨congrArg₂ List.cons hslot hslots, hdiagnostics⟩

/-! ## Lists of tokens -/

variable {tokens rest : List Token} {word : Token}

/-- Up to a semicolon, what follows it makes no difference to what a plan sees. -/
theorem indistinguishable_ofTokens (hword : word.kind = .semicolon) (rest : List Token) :
    Indistinguishable lookahead tokens.length (ofTokens (tokens ++ [word]))
      (ofTokens (tokens ++ word :: rest)) := by
  have hcurrent : ∀ count ≤ tokens.length,
      (advance^[count] (ofTokens (tokens ++ word :: rest))).window.current =
        (advance^[count] (ofTokens (tokens ++ [word]))).window.current := by
    intro count hle
    have hlt : count < (tokens ++ [word]).length := by
      rw [List.length_append, List.length_singleton]
      omega
    have htoken := List.getElem?_eq_getElem hlt
    rw [current_iterate_append htoken, current_iterate_append htoken]
  refine ⟨⟨rfl, rfl⟩, fun count hle => ⟨hcurrent count hle, fun hoff => ?_, fun _ => ?_⟩⟩
  · have hlt : count < tokens.length := by
      apply Nat.lt_of_le_of_ne hle
      rintro rfl
      have hthere : (advance^[tokens.length] (ofTokens (tokens ++ [word]))).window.current = word :=
        current_iterate_append (by simp) []
      apply hoff
      rw [kind, hthere, hword]
    have hpeek := hcurrent (count + 1) hlt
    rwa [Function.iterate_succ_apply', Function.iterate_succ_apply', current_advance,
      current_advance] at hpeek
  · cases count with
    | zero => rfl
    | succ count =>
      rw [Function.iterate_succ_apply', Function.iterate_succ_apply', previous_advance,
        previous_advance]
      exact hcurrent count (Nat.le_of_succ_le hle)

/-- The first tokens that come to hand are those at the front of the list. -/
theorem ahead_ofTokens (tokens rest : List Token) :
    (ofTokens (tokens ++ rest)).ahead tokens.length = tokens := by
  apply List.ext_getElem (length_ahead _ _)
  intro index hleft hright
  have hcurrent := current_iterate_ofTokens (tokens ++ rest) index
  rw [List.getElem?_append_left hright, List.getElem?_eq_getElem hright, Option.getD_some]
    at hcurrent
  rw [← hcurrent]
  apply Option.some.inj
  rw [← List.getElem?_eq_getElem hleft, getElem?_ahead _ hright]

/-- A list without an end of input that is parsed without a diagnostic is taken as a whole, and it
nests. -/
theorem taken_of_clean (heof : ∀ token ∈ tokens, token.kind ≠ .eof)
    (hclean : (parseTokens tokens).2 = []) :
    (ofTokens tokens).program.2 = advance^[tokens.length] (ofTokens tokens) ∧
      Kind.WellNested (tokens.map Token.kind) := by
  obtain ⟨taken, hlast, hahead, htokensFor⟩ := program_tokensFor (p := ofTokens tokens) rfl hclean
  have hend := (program_later (p := ofTokens tokens) rfl).2
  rw [hlast] at hend
  have hall : tokens.takeWhile (·.kind ≠ .eof) = tokens :=
    List.takeWhile_eq_self_iff.2 (by simpa using heof)
  obtain rfl : tokens = taken := by
    rw [← hall]
    exact takeWhile_eq_of_ahead hahead (fun token hmem => (htokensFor.legal token hmem).2) hend
  exact ⟨hlast, htokensFor.nested⟩

/-- Behind tokens that nest, no brace is open. -/
theorem depth_of_wellNested (h : Kind.WellNested (tokens.map Token.kind)) (rest : List Token) :
    (advance^[tokens.length] (ofTokens (tokens ++ rest))).depth = 0 := by
  rw [depth_iterate, ahead_ofTokens]
  exact Kind.foldl_depthAfter h 0

/-- What follows a semicolon makes no difference to the rounds of a program that ends on it without
a diagnostic. -/
theorem rounds_of_clean (heof : ∀ token ∈ tokens, token.kind ≠ .eof)
    (hclean : (parseTokens tokens).2 = [])
    (hlast : tokens.getLast?.map Token.kind = some .semicolon) (rest : List Token) :
    Rounds (ofTokens (tokens ++ rest)) (parseTokens tokens).1.slots
      (advance^[tokens.length] (ofTokens (tokens ++ rest))) := by
  have hend : (ofTokens tokens).program.2.position = tokens.length := by
    rw [(taken_of_clean heof hclean).1, position_iterate]
    exact Nat.zero_add _
  obtain ⟨word, hword, hsemicolon⟩ := Option.map_eq_some_iff.1 hlast
  obtain ⟨front, rfl⟩ := List.getLast?_eq_some_iff.1 hword
  rw [List.length_append, List.length_singleton] at hend ⊢
  rw [List.append_assoc, List.singleton_append]
  exact (indistinguishable_ofTokens hsemicolon rest).rounds (Nat.zero_le _)
    (hend.trans (Nat.zero_add _).symm) hclean

end Parser

/-- **Programs compose.** Take any tokens without an end of input among them that are parsed without
a diagnostic and end on a semicolon, and put any others behind them that do not begin with an
operator which applies to the token before it. The program of all of them has the slots of the first
and then those of the second, and its diagnostics are those of the second. -/
theorem programs_compose {tokens : List Token} (heof : ∀ token ∈ tokens, token.kind ≠ .eof)
    (hclean : (parseTokens tokens).2 = [])
    (hlast : tokens.getLast?.map Token.kind = some .semicolon) {rest : List Token}
    (hfirst : ∀ token ∈ rest.head?, token.kind ≠ .plusPlus ∧ token.kind ≠ .minusMinus) :
    parseTokens (tokens ++ rest) =
      (⟨(parseTokens tokens).1.slots ++ (parseTokens rest).1.slots⟩, (parseTokens rest).2) := by
  cases rest with
  | nil =>
    have hnone : parseTokens [] = (⟨[]⟩, []) := rfl
    rw [hnone, List.append_nil, List.append_nil, ← hclean]
  | cons first rest =>
    have hrounds := rounds_of_clean heof hclean hlast (first :: rest)
    have hdepth := depth_of_wellNested (taken_of_clean heof hclean).2 (first :: rest)
    have hposition : (advance^[tokens.length] (ofTokens (tokens ++ first :: rest))).position =
        tokens.length := (position_iterate _ _).trans (Nat.zero_add _)
    have hstart : Grammar.standard.trailing (ofTokens (first :: rest)).kind = false := by
      obtain ⟨hplus, hminus⟩ := hfirst first rfl
      change (Grammar.standardTrailing first.kind).isSome = false
      unfold Grammar.standardTrailing
      split
      · exact absurd ‹_› hplus
      · exact absurd ‹_› hminus
      · rfl
    have hshifted := shifted_of_later hrounds.later hposition hdepth
    obtain ⟨hslots, hdiagnostics⟩ := hshifted.program_eq_of_trailing hstart
    have hbefore : (ofTokens (tokens ++ first :: rest)).diagnostics = [] := rfl
    rw [diagnostics_iterate, hbefore, List.nil_append] at hdiagnostics
    unfold parseTokens at hrounds ⊢
    simp only [hrounds.program_eq rfl, hslots, hdiagnostics]

/-- The law at a declaration, with a statement behind it that breaks off. -/
theorem programs_compose_broken :
    let tokens : List Token := [⟨.letWord, "let", 1⟩, ⟨.identifier, "x", 1⟩,
      ⟨.assignment, "=", 1⟩, ⟨.identifier, "y", 1⟩, ⟨.semicolon, ";", 1⟩]
    let rest : List Token := [⟨.openParen, "(", 2⟩, ⟨.semicolon, ";", 2⟩, ⟨.identifier, "z", 3⟩]
    (parseTokens tokens).2 = [] ∧
      parseTokens (tokens ++ rest) =
        (⟨(parseTokens tokens).1.slots ++ (parseTokens rest).1.slots⟩, (parseTokens rest).2) := by
  intro tokens rest
  have hclean : (parseTokens tokens).2 = [] := by decide
  exact ⟨hclean, programs_compose (by decide) hclean rfl (by decide)⟩

end ScriptFront
