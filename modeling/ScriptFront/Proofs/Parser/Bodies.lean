import ScriptFront.Proofs.Parser.LineNumbers
import ScriptFront.Proofs.Parser.Misses

/-!
# Statements inside braces

A list of tokens that is parsed without a diagnostic is read inside a block as it is on its own,
when it ends on a semicolon or when the end of input follows it in either place.

* `CleanTokens` — a list without an end of input that is parsed without a diagnostic.
* `CleanTokens.rounds`, `CleanTokens.rounds_eof` — wherever a parser has such a list in front of it,
  it reads the statements of the list, round by round.
* `Rounds.pursue_statements` — what is left of a block begins with the statements of its first
  rounds.
* `CleanTokens.reads_statements`, `CleanTokens.gives_body` — the list is read as what is left of a
  block, up to the closing brace, and as a body in braces.
-/

namespace ScriptFront

open ScriptFront.Parser

variable {tokens ending rest : List Token} {t u v : Token} {line : Nat} {p q r : Parser}

/-- A list without an end of input that is parsed without a diagnostic. -/
structure CleanTokens (tokens : List Token) : Prop where
  no_eof : ∀ t ∈ tokens, t.kind ≠ .eof
  clean : (parseTokens tokens).2 = []

/-- The list is empty or ends on a semicolon. -/
def EndsStatement (tokens : List Token) : Prop :=
  ∀ t ∈ tokens.getLast?, t.kind = .semicolon

/-! ## Lists without a diagnostic -/

/-- A program without diagnostics is its statements. -/
theorem slots_eq_statements (hclean : (parseTokens tokens).2 = []) :
    (parseTokens tokens).1.slots = (parseTokens tokens).1.statements.map some := by
  have hsome := List.takeWhile_eq_self_iff.1 (takeWhile_isSome_of_clean hclean)
  rw [Program.statements]
  generalize (parseTokens tokens).1.slots = slots at hsome
  induction slots with
  | nil => rfl
  | cons slot slots ih =>
    obtain ⟨hslot, hslots⟩ := List.forall_mem_cons.1 hsome
    obtain ⟨statement, rfl⟩ := Option.isSome_iff_exists.1 hslot
    exact congrArg (some statement :: ·) (ih hslots)

/-- An operator that applies to the token before it fails at the start of a list. -/
theorem missed_trailing (hp : p.Faces (t :: rest)) (hprevious : p.window.previous.kind = .eof)
    (ht : Grammar.standard.trailing t.kind = true) : ∃ cause, Missed .stmt p cause p := by
  have hstatement : Grammar.standard.statement t.kind = none := by
    revert ht
    cases t.kind <;> decide
  have hplan : ∃ cause, Rule.trailing.Misses p cause p := by
    refine ⟨.misplacedToken p.window.previous.kind
      ("expected a name or index before `" ++ p.window.current.value ++ "`"), .look ?_⟩
    change Rule.Misses (if _ then _ else _) _ _ _
    rw [if_neg (by rw [hprevious]; decide)]
    exact .fail
  obtain ⟨cause, hplan⟩ := hplan
  refine ⟨cause, missed_expressionStatement hp hstatement ?_⟩
  unfold Missed
  rw [hp.grammar_eq, Grammar.body, Grammar.standard_expression]
  refine .look ?_
  change Rule.Misses (if _ then _ else _) _ _ _
  rwa [if_pos (by rwa [hp.current_eq])]

/-- No list that is parsed without a diagnostic begins on such an operator. -/
theorem trailing_head_of_clean (hclean : (parseTokens tokens).2 = []) :
    ∀ t ∈ tokens.head?, Grammar.standard.trailing t.kind = false := by
  intro t ht
  obtain ⟨more, rfl⟩ : ∃ more, tokens = t :: more := List.head?_eq_some_iff.1 ht
  obtain ⟨rest, hp⟩ : ∃ rest, (ofTokens (t :: more)).Faces (t :: rest) := by
    cases more with
    | nil => exact ⟨[Token.eof t.line], rfl, [], t.line, rfl, rfl⟩
    | cons u more => exact ⟨u :: more, faces_ofTokens (by simp)⟩
  by_contra htrailing
  rw [Bool.not_eq_false] at htrailing
  have hkind : (ofTokens (t :: more)).kind ≠ .eof := by
    intro heof
    rw [kind, hp.current_eq] at heof
    rw [heof] at htrailing
    cases htrailing
  obtain ⟨statement, after, hrun, -⟩ := found_of_program_clean hp.grammar_eq hkind hclean
  obtain ⟨cause, -, budget, hfollow⟩ := missed_trailing hp rfl htrailing
  rw [pursue_eq_of_follow hp.grammar_eq (by simp) hfollow] at hrun
  cases hrun

/-! ## Wherever the list stands -/

/-- A parser for a list comes to each of its tokens by as many shifts as there are tokens before. -/
theorem current_iterate_of_getElem? {count : Nat} (ht : tokens[count]? = some t) :
    (advance^[count] (ofTokens tokens)).window.current = t := by
  rw [current_iterate_ofTokens, ht, Option.getD_some]

/-- A parser with the list in front of it stays indistinguishable from the parser for the list, if
the list ends on a semicolon, or if the next token is the same. -/
theorem indistinguishable_of_faces (hne : tokens ≠ []) (hq : q.Faces (tokens ++ u :: rest))
    (hhead : ∀ t ∈ tokens.head?, Grammar.standard.trailing t.kind = false)
    (hlast : EndsStatement tokens ∨ ending = [u]) :
    Indistinguishable lookahead (tokens.length - 1) (ofTokens (tokens ++ ending)) q := by
  have hpos := List.length_pos_iff.2 hne
  have hcurrent : ∀ {count t}, tokens[count]? = some t →
      (advance^[count] (ofTokens (tokens ++ ending))).window.current = t ∧
        (advance^[count] q).window.current = t := by
    intro count t ht
    obtain ⟨hlt, -⟩ := List.getElem?_eq_some_iff.1 ht
    rw [← List.getElem?_append_left hlt] at ht
    refine ⟨current_iterate_of_getElem? ht, ?_⟩
    rw [List.getElem?_append_left hlt, ← List.getElem?_append_left hlt] at ht
    exact current_iterate_of_faces hq ht
  refine ⟨⟨rfl, hq.grammar_eq⟩, fun count hle => ?_⟩
  have hlt : count < tokens.length := by omega
  obtain ⟨hp, hq'⟩ := hcurrent (List.getElem?_eq_getElem hlt)
  refine ⟨hq'.trans hp.symm, fun hoff => ?_, fun htrailing => ?_⟩
  · -- the next token is in the list, or it is the one behind it
    rw [← current_advance, ← current_advance, ← Function.iterate_succ_apply' advance,
      ← Function.iterate_succ_apply' advance]
    by_cases hnext : count + 1 < tokens.length
    · obtain ⟨hp', hq''⟩ := hcurrent (List.getElem?_eq_getElem hnext)
      exact hq''.trans hp'.symm
    · have hcount : count + 1 = tokens.length := by omega
      obtain hlast | rfl := hlast
      · have hthere : tokens[count] ∈ tokens.getLast? := by
          rw [List.getLast?_eq_getElem?, ← hcount]
          exact List.getElem?_eq_getElem hlt
        exact absurd (by rw [kind, hp, hlast _ hthere]) hoff
      · have hbehind : ∀ more, (tokens ++ u :: more)[count + 1]? = some u := by
          intro more
          rw [hcount, List.getElem?_append_right (Nat.le_refl _), Nat.sub_self]
          rfl
        rw [current_iterate_of_faces hq (hbehind rest), current_iterate_of_getElem? (hbehind [])]
  · cases count with
    | zero =>
      have hfirst := hhead tokens[0] (List.head?_eq_getElem?.trans (List.getElem?_eq_getElem hpos))
      rw [kind, hp, hfirst] at htrailing
      cases htrailing
    | succ count =>
      obtain ⟨hp', hq''⟩ := hcurrent (List.getElem?_eq_getElem (Nat.lt_of_succ_lt hlt))
      rw [Function.iterate_succ_apply', Function.iterate_succ_apply', previous_advance,
        previous_advance]
      exact hq''.trans hp'.symm

/-- A parser with the list in front of it reads the statements of the list. -/
theorem rounds_of_faces (hno_eof : ∀ t ∈ tokens, t.kind ≠ .eof)
    (hending : ∀ t ∈ ending.head?, t.kind = .eof)
    (hclean : (parseTokens (tokens ++ ending)).2 = []) (hlast : EndsStatement tokens ∨ ending = [u])
    (hq : q.Faces (tokens ++ u :: rest)) :
    Rounds q ((parseTokens (tokens ++ ending)).1.statements.map some)
      (advance^[tokens.length] q) := by
  have htaken : (tokens ++ ending).takeWhile (·.kind ≠ .eof) = tokens := by
    rw [List.takeWhile_append_of_pos (by simpa using hno_eof)]
    cases ending with
    | nil => simp
    | cons t ending => simp [hending t rfl]
  have hend := (program_ofTokens_end (tokens ++ ending)).1
  rw [htaken] at hend
  rw [← slots_eq_statements hclean]
  by_cases hne : tokens = []
  · subst hne
    have heof : (ofTokens ([] ++ ending)).kind = .eof := by
      cases ending with
      | nil => rfl
      | cons t ending => exact hending t rfl
    have hslots : (parseTokens ([] ++ ending)).1.slots = [] := by
      rw [parseTokens, program_of_eof heof]
    rw [hslots]
    exact .refl q
  · have hhead : ∀ t ∈ tokens.head?, Grammar.standard.trailing t.kind = false := by
      intro t ht
      refine trailing_head_of_clean hclean t ?_
      rwa [List.head?_append_of_ne_nil _ hne]
    have hlength : tokens.length - 1 + 1 = tokens.length :=
      Nat.sub_add_cancel (List.length_pos_iff.2 hne)
    have hrounds := (indistinguishable_of_faces hne hq hhead hlast).rounds (Nat.zero_le _)
      (by rw [hlength]; exact hend.trans (Nat.zero_add _).symm) hclean
    rwa [hlength] at hrounds

namespace CleanTokens

/-- Up to a semicolon, the list is read as it is on its own. -/
theorem rounds (h : CleanTokens tokens) (hlast : EndsStatement tokens)
    (hq : q.Faces (tokens ++ u :: rest)) :
    Rounds q ((parseTokens tokens).1.statements.map some) (advance^[tokens.length] q) := by
  have hclean : (parseTokens (tokens ++ [])).2 = [] := by rw [List.append_nil, h.clean]
  have hnone : ∀ t ∈ ([] : List Token).head?, t.kind = .eof := by simp
  have hrounds := rounds_of_faces h.no_eof hnone hclean (.inl hlast) hq
  rwa [List.append_nil] at hrounds

/-- Up to an end of input, the list is read without a failure. -/
theorem rounds_eof (h : CleanTokens tokens) (hq : q.Faces (tokens ++ Token.eof line :: rest)) :
    ∃ statements : List Stmt, Rounds q (statements.map some) (advance^[tokens.length] q) := by
  have hsupplied : (parseTokens (tokens ++ [Token.eof (lastLine 1 tokens)])).2 = [] := by
    rw [parseTokens_append_eof, h.clean]
  -- the line of the end of input does not matter
  have hsame : (tokens ++ [Token.eof (lastLine 1 tokens)]).map Token.flat =
      (tokens ++ [Token.eof line]).map Token.flat := by
    rw [List.map_append, List.map_append]
    rfl
  have hclean := (clean_iff_of_flat_eq hsame).1 hsupplied
  exact ⟨_, rounds_of_faces h.no_eof (by simp [Token.eof]) hclean (.inr rfl) hq⟩

end CleanTokens

/-! ## What is left of a block -/

/-- The reply with the statements put before those that were found. -/
def Reply.behind (statements : List Stmt) : Reply (List Stmt) → Reply (List Stmt)
  | .found rest => .found (statements ++ rest)
  | .absent => .absent
  | .exhausted => .exhausted

namespace Parser

/-- A goal is pursued by its plan, with any budget that is ample for the parts. -/
theorem pursue_eq_follow (hgrammar : p.grammar = .standard) (goal : Goal) {budget : Nat}
    (hbudget : p.budget ≤ budget) :
    pursue p.budget goal p = (Grammar.standard.body goal).follow (pursue budget) p := by
  rw [← pursue_eq_of_budget_le hgrammar goal (Nat.le_succ_of_le hbudget), pursue, hgrammar]

/-- No statement begins on a closing brace. -/
theorem kind_ne_closeCurly_of_found (hgrammar : p.grammar = .standard) {statement : Stmt}
    (hrun : pursue p.budget .stmt p = (.found statement, q)) : p.kind ≠ .closeCurly := by
  intro hkind
  have hcurrent : p.window.current.kind = .closeCurly := hkind
  have hexpr : (Grammar.standard.expression .default).follow (pursue p.budget) p =
      (.absent, p.report (.unexpectedToken .closeCurly)) := by
    simp only [Grammar.expression, Rule.window, Bind.bind, Rule.bind, Rule.follow]
    rw [hcurrent]
    rfl
  have hstmt : pursue p.budget .stmt p = Rule.expressionStatement.follow (pursue p.budget) p := by
    rw [pursue_eq_follow hgrammar .stmt (Nat.le_refl _)]
    simp only [Grammar.body, Grammar.statementBody, Rule.window, Bind.bind, Rule.bind, Rule.follow]
    rw [hcurrent]
    rfl
  have hgoal := pursue_eq_follow hgrammar (.expr .default) (Nat.le_refl p.budget)
  simp only [Grammar.body] at hgoal
  rw [hstmt] at hrun
  simp only [Rule.expressionStatement, Rule.current, Rule.anyExpr, Rule.expr, Bind.bind, Rule.bind,
    Rule.follow, hgoal, hexpr] at hrun
  cases hrun

/-- What is left of a block begins with the statements of its first rounds. -/
theorem Rounds.pursue_statements {slots : List (Option Stmt)} {statements : List Stmt}
    (h : Rounds p slots q) (hslots : slots = statements.map some)
    (hgrammar : p.grammar = .standard) :
    pursue p.budget .statements p =
      ((pursue q.budget .statements q).1.behind statements, (pursue q.budget .statements q).2) := by
  induction h generalizing statements with
  | refl p =>
    obtain rfl := List.map_eq_nil_iff.1 hslots.symm
    rcases pursue p.budget .statements p with ⟨_ | _ | _, after⟩ <;> rfl
  | @round p last slots hkind hrounds ih =>
    cases statements with
    | nil => cases hslots
    | cons statement statements =>
      obtain ⟨hslot, hslots⟩ := List.cons.inj hslots
      have hlater := afterStatement_later false p
      have hnext := ih hslots (hlater.grammar_eq.trans hgrammar)
      have hbudget := budget_le_of_later hlater
      -- the round finds its statement
      rw [slot] at hslot
      rcases hrun : pursue p.budget .stmt p with ⟨answer | _ | _, after⟩ <;> rw [hrun] at hslot
      · cases hslot
        have hclose := kind_ne_closeCurly_of_found hgrammar hrun
        have hafter : p.afterStatement false = after.advance := by rw [afterStatement, hrun]
        rw [hafter] at hnext hbudget hlater
        rw [pursue_eq_follow hgrammar .statements (Nat.le_refl _)]
        change (statementsAt p.kind).follow _ _ = _
        rw [statementsAt, if_neg hclose, if_neg hkind, Rule.follow, hrun]
        dsimp only [Rule.follow]
        rw [Rule.follow, pursue_eq_of_budget_le (hlater.grammar_eq.trans hgrammar) .statements
          hbudget,
          hnext]
        rcases pursue last.budget .statements last with ⟨_ | _ | _, last⟩ <;> rfl
      · cases hslot
      · cases hslot

end Parser

/-- Up to a closing brace, the list is read as what is left of a block. -/
theorem CleanTokens.reads_statements (h : CleanTokens tokens) (hlast : EndsStatement tokens)
    (hu : u.kind = .closeCurly) (hrest : 1 ≤ rest.length) (hp : p.Faces (tokens ++ u :: rest)) :
    Reads .statements p (parseTokens tokens).1.statements (advance^[tokens.length] p) := by
  have hrounds := (h.rounds hlast hp).pursue_statements rfl hp.grammar_eq
  have hbrace := faces_iterate hp (Nat.succ_le_succ hrest)
  have hkind : (advance^[tokens.length] p).kind = .closeCurly := by
    rw [kind, hbrace.current_eq, hu]
  rw [pursue_eq_follow hbrace.grammar_eq .statements (Nat.le_refl _),
    pursue_eq_follow hp.grammar_eq .statements (Nat.le_refl _)] at hrounds
  have hstop : (Grammar.standard.body .statements).follow
      (pursue (advance^[tokens.length] p).budget) (advance^[tokens.length] p) =
        (.found [], advance^[tokens.length] p) := by
    change (statementsAt (advance^[tokens.length] p).kind).follow _ _ = _
    rw [hkind]
    rfl
  unfold Reads
  rw [hp.grammar_eq]
  refine ⟨p.budget, hrounds.trans ?_⟩
  rw [hstop, Reply.behind, List.append_nil]

/-- A body in braces is read as the statements of the program that its tokens spell. -/
theorem CleanTokens.gives_body (h : CleanTokens tokens) (hends : EndsStatement tokens)
    (hp : p.Faces (t :: u :: (tokens ++ v :: rest))) (hu : u.kind = .openCurly)
    (hv : v.kind = .closeCurly) (hrest : 1 ≤ rest.length) :
    Rule.body.Gives p ⟨u, (parseTokens tokens).1.statements⟩ (advance^[tokens.length + 2] p) := by
  have hopen := hp.advance (by simp; omega)
  have hstatements := h.reads_statements hends hv hrest (hopen.advance (by simp; omega))
  refine (Rule.Gives.expect (by rw [hp.peek_eq, hu])).bind ?_
  rw [← show p.advance.window.current = u from hopen.current_eq]
  exact .look (.shift (.need hstatements .done))

end ScriptFront
