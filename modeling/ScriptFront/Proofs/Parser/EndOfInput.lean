import ScriptFront.Proofs.Parser.Isolation

/-!
# Nothing behind the end of input counts

An end of input is a stopping token. Two parsers that meet the same tokens up to it read the same
program, whatever stands behind it.

* `Twin.program_eq` — twins before an end of input read the same program.
* `exists_parseTokens_eof` — the end of a list is an end of input, written or supplied.
* `parseTokens_append_of_eof`, `end_of_input_ends` — tokens behind an end of input make no
  difference, and neither does an end of input that is left out.
-/

namespace ScriptFront

namespace Parser

variable {n : Nat} {p q : Parser}

/-! ## Twins before an end of input -/

/-- A later parser that has not passed the position will meet the same kind there. -/
theorem Later.kind_upTo (h : Later p q) (hle : q.position ≤ n) :
    (q.upTo n).kind = (p.upTo n).kind := by
  induction h with
  | refl => rfl
  | @advance q _ ih =>
    rw [position_advance] at hle
    rw [upTo_advance hle]
    exact ih (Nat.le_of_lt hle)
  | @report q _ cause ih =>
    rw [← ih hle, upTo, position_report, advance_iterate_report]
    rfl

/-- Twins before an end of input read the same program. -/
theorem Twin.program_eq (h : Twin n p q) (heof : (p.upTo n).kind = .eof) :
    q.program.1 = p.program.1 ∧ Twin n p.program.2 q.program.2 := by
  have hgrammar := h.grammar_eq.1
  revert q
  refine program_induction
    (motive := fun p => (p.upTo n).kind = .eof → ∀ {q}, Twin n p q →
      q.program.1 = p.program.1 ∧ Twin n p.program.2 q.program.2)
    (fun p _ hkind _ q h => ?_) (fun p hgrammar hkind ih heof q h => ?_) p hgrammar heof
  · rw [program_of_eof hkind, program_of_eof (h.kind_eq.trans hkind)]
    exact ⟨rfl, h⟩
  · -- a round can only begin before the stopping token, since the stopping token is an end of input
    have hbefore : p.position < n := by
      apply Nat.lt_of_le_of_ne h.within.position_le
      intro hthere
      rw [upTo_of_le (Nat.le_of_eq hthere.symm)] at heof
      exact hkind heof
    have hinside : Inside n p := ⟨h.within, hbefore⟩
    obtain ⟨hslot, hnext⟩ := (twin_lockstep n).round (stopContract_kept n) hgrammar h
      hbefore hinside
      fun _ _ hfound => hfound.position_lt
    have hlater := afterStatement_later false p
    obtain ⟨hprogram, hlast⟩ :=
      ih ((hlater.kind_upTo hnext.within.position_le).trans heof) hnext
    rw [program_of_ne hgrammar hkind, program_of_ne h.grammar_eq.2 (by rwa [h.kind_eq]), hslot,
      hprogram]
    exact ⟨rfl, hlast⟩

/-! ## Lists that meet in an end of input -/

/-- Lists are parsed alike when their parsers meet the same tokens up to an end of input. -/
theorem parseTokens_congr {tokens others : List Token}
    (heof : (advance^[n] (ofTokens tokens)).kind = .eof)
    (hcurrent : ∀ count ≤ n, (advance^[count] (ofTokens others)).window.current =
      (advance^[count] (ofTokens tokens)).window.current) :
    parseTokens others = parseTokens tokens := by
  have hwithin : Within n (ofTokens tokens) := by
    refine ⟨Nat.zero_le n, .inl heof, fun hne => absurd heof hne⟩
  have htwin : Twin n (ofTokens tokens) (ofTokens others) := by
    refine ⟨hwithin, ⟨rfl, rfl⟩, rfl, rfl, rfl, rfl, rfl, fun count hle => ?_⟩
    apply hcurrent count
    rwa [show (ofTokens tokens).position = 0 from rfl, Nat.zero_add] at hle
  obtain ⟨hprogram, hlast⟩ := htwin.program_eq heof
  unfold parseTokens
  simp only [hprogram, hlast.diagnostics_eq]

end Parser

open ScriptFront.Parser

/-- A list is parsed like the list with an end of input behind it, on the line of its last token. -/
theorem parseTokens_append_eof (tokens : List Token) :
    parseTokens (tokens ++ [Token.eof (lastLine 1 tokens)]) = parseTokens tokens := by
  have hsupplied : ∀ count ≤ tokens.length,
      (advance^[count] (ofTokens (tokens ++ [Token.eof (lastLine 1 tokens)]))).window.current =
        (advance^[count] (ofTokens tokens)).window.current := by
    intro count hle
    rw [current_iterate_ofTokens, current_iterate_ofTokens]
    rcases Nat.lt_or_eq_of_le hle with hlt | rfl
    · simp [List.getElem?_append_left hlt, hlt]
    · simp
  apply parseTokens_congr (n := tokens.length) _ hsupplied
  rw [kind, current_iterate_ofTokens]
  simp [Token.eof]

/-- At the end of a list there is an end of input, be it written or supplied. -/
theorem exists_parseTokens_eof (tokens : List Token) {ending : List Token}
    (hending : ∀ t ∈ ending.head?, t.kind = .eof) :
    ∃ t rest, t.kind = .eof ∧ parseTokens (tokens ++ ending) =
      parseTokens (tokens ++ t :: rest) := by
  cases ending with
  | nil =>
    refine ⟨Token.eof (lastLine 1 tokens), [], rfl, ?_⟩
    rw [List.append_nil, parseTokens_append_eof]
  | cons t rest => exact ⟨t, rest, hending t rfl, rfl⟩

/-- Tokens behind an end of input make no difference. -/
theorem parseTokens_append_of_eof (tokens : List Token) {last : Token} (hlast : last.kind = .eof)
    (rest : List Token) : parseTokens (tokens ++ last :: rest) =
      parseTokens (tokens ++ [last]) := by
  have hthere : (advance^[tokens.length] (ofTokens (tokens ++ [last]))).window.current = last :=
    current_iterate_append (by simp) []
  apply parseTokens_congr (n := tokens.length)
  · rw [kind, hthere, hlast]
  · intro count hle
    have hlt : count < (tokens ++ [last]).length := by
      rw [List.length_append, List.length_singleton]
      omega
    have htoken := List.getElem?_eq_getElem hlt
    rw [current_iterate_append htoken, current_iterate_append htoken]

/-- **Nothing behind the end of input is looked at, and one that is missing is supplied.** Tokens
behind an end of input change neither the program nor the diagnostics. A list without an end of
input is parsed like the list with one at its end, on the line of the last token, or on the first
line when there is no token. -/
theorem end_of_input_ends (tokens : List Token) :
    (∀ last : Token, last.kind = .eof → ∀ rest : List Token,
      parseTokens (tokens ++ [last] ++ rest) = parseTokens (tokens ++ [last])) ∧
    parseTokens tokens =
      parseTokens (tokens ++ [Token.eof (lastLine 1 tokens)]) := by
  constructor
  · intro last hlast rest
    rw [List.append_assoc, List.singleton_append]
    exact parseTokens_append_of_eof tokens hlast rest
  · exact (parseTokens_append_eof tokens).symm

/-- The law at a block that the end of input leaves open, with its closing brace behind. -/
theorem end_of_input_ends_block :
    let tokens : List Token := [⟨.openCurly, "\x7b", 1⟩, ⟨.identifier, "x", 2⟩]
    let last : Token := ⟨.eof, "", 2⟩
    let rest : List Token := [⟨.closeCurly, "\x7d", 3⟩]
    last.kind = .eof ∧ parseTokens (tokens ++ [last] ++ rest) = parseTokens (tokens ++ [last]) ∧
      parseTokens tokens = parseTokens (tokens ++ [Token.eof 2]) := by
  intro tokens last rest
  exact ⟨rfl, (end_of_input_ends tokens).1 last rfl rest, (end_of_input_ends tokens).2⟩

end ScriptFront
