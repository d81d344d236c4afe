import ScriptFront.Proofs.Lexer.Positions
import ScriptFront.Proofs.Parser.EndOfInput

/-!
# Diagnostics point at real lines, in order

A diagnostic is recorded on the line of the token at hand, and the window only ever moves on. So the
lines of diagnostics go up as those of the tokens do (`Later.diagnostics_ordered`), and what is
known of the lines of tokens is known of the lines of diagnostics.

* `diagnostics_point` — the lines of diagnostics, of texts that can be split and of those that
  cannot.
-/

namespace ScriptFront

open ScriptFront.Parser

/-! ## Diagnostics and the tokens of a list -/

section Lists

variable {tokens : List Token} {q : Parser}

/-- The line of the token that a parser for the list has at hand after some shifts. -/
def lineAt (tokens : List Token) (count : Nat) : Nat :=
  (tokens[count]?.getD (Token.eof (lastLine 1 tokens))).line

/-- The token at hand is on the line that its position says. -/
theorem lineAt_of_later (h : Later (ofTokens tokens) q) :
    q.window.current.line = lineAt tokens q.position := by
  obtain ⟨-, hwindow, -⟩ := h.eq_iterate
  rw [hwindow, current_iterate_ofTokens]
  rfl

/-- The token at hand is on the line of a token of the list. -/
theorem exists_line_eq_lineAt (hne : tokens ≠ []) (count : Nat) :
    ∃ token ∈ tokens, token.line = lineAt tokens count := by
  unfold lineAt
  by_cases hlt : count < tokens.length
  · exact ⟨tokens[count], List.getElem_mem hlt, by simp [hlt]⟩
  · refine ⟨tokens.getLast hne, List.getLast_mem hne, ?_⟩
    simp [Nat.not_lt.1 hlt, lastLine, List.getLast?_eq_some_getLast hne, Token.eof]

/-- Where lines never go down, the next line is no smaller. -/
theorem lineAt_le_succ (hordered : (tokens.map Token.line).Pairwise (· ≤ ·)) (count : Nat) :
    lineAt tokens count ≤ lineAt tokens (count + 1) := by
  unfold lineAt
  by_cases hnext : count + 1 < tokens.length
  · have hle := List.pairwise_iff_getElem.1 hordered count (count + 1) (by simp; omega) (by simpa)
      (Nat.lt_succ_self count)
    simpa [hnext, Nat.lt_of_succ_lt hnext] using hle
  by_cases hlast : count + 1 = tokens.length
  · -- behind the last token there are ends of input on its own line
    have hne : tokens ≠ [] := by
      rintro rfl
      cases hlast
    simp [← hlast, lastLine, List.getLast?_eq_some_getLast hne, List.getLast_eq_getElem, Token.eof]
  · simp [Nat.not_lt.1 hnext, show tokens.length ≤ count by omega]

/-- The diagnostics of a parser for a list whose lines never go down are on lines of tokens, in
order, and none is behind the token at hand. -/
theorem Parser.Later.diagnostics_ordered (h : Later (ofTokens tokens) q) (hne : tokens ≠ [])
    (hordered : (tokens.map Token.line).Pairwise (· ≤ ·)) :
    (q.diagnostics.map Diagnostic.line).Pairwise (· ≤ ·) ∧
      ∀ diagnostic ∈ q.diagnostics, diagnostic.line ≤ q.window.current.line ∧
        ∃ token ∈ tokens, token.line = diagnostic.line := by
  induction h with
  | refl => exact ⟨.nil, by simp [ofTokens, ofSource]⟩
  | @advance q hq ih =>
    obtain ⟨hlines, hbounds⟩ := ih
    refine ⟨hlines, fun diagnostic hmem => ?_⟩
    obtain ⟨hle, htoken⟩ := hbounds diagnostic hmem
    refine ⟨Nat.le_trans hle ?_, htoken⟩
    rw [lineAt_of_later hq, lineAt_of_later hq.advance]
    exact lineAt_le_succ hordered q.position
  | @report q hq cause ih =>
    obtain ⟨hlines, hbounds⟩ := ih
    have hadded : (q.report cause).diagnostics =
        q.diagnostics ++ [⟨cause, q.window.current.line⟩] := rfl
    rw [hadded, List.map_append, List.pairwise_append, List.forall_mem_append]
    refine ⟨⟨hlines, by simp, ?_⟩, hbounds, ?_⟩
    · intro line hline last hlast
      obtain ⟨diagnostic, hmem, rfl⟩ := List.mem_map.1 hline
      rw [List.mem_singleton.1 hlast]
      exact (hbounds diagnostic hmem).1
    · rw [List.forall_mem_singleton]
      refine ⟨Nat.le_refl _, ?_⟩
      rw [lineAt_of_later hq]
      exact exists_line_eq_lineAt hne q.position

end Lists

/-! ## Diagnostics and the text -/

section Texts

variable {text : String} {tokens : List Token}

/-- The tokens of a text cut it, behind the line that is for the system. -/
theorem splits_of_tokenize (h : tokenize text = .ok tokens) :
    ∃ directive rest, text.toList = directive ++ rest ∧ Splits directive rest tokens := by
  obtain ⟨directive, -, hstands⟩ := Lexer.ofText_standsIn text
  rw [tokenize_eq_drain h]
  exact ⟨directive, _, hstands.text_eq, hstands.splits⟩

/-- The diagnostics of a text are on lines of its tokens, in order. -/
theorem parseTokens_diagnostics_ordered (h : tokenize text = .ok tokens) :
    ((parseTokens tokens).2.map Diagnostic.line).Pairwise (· ≤ ·) ∧
      ∀ diagnostic ∈ (parseTokens tokens).2, ∃ token ∈ tokens, token.line = diagnostic.line := by
  obtain ⟨directive, rest, -, hsplits⟩ := splits_of_tokenize h
  obtain ⟨front, hends, -⟩ := hsplits.ends
  have hne : tokens ≠ [] := by simp [hends]
  have hlater : Later (ofTokens tokens) (ofTokens tokens).program.2 := (program_later rfl).1
  obtain ⟨hlines, hbounds⟩ := hlater.diagnostics_ordered hne hsplits.lines_ordered.1
  exact ⟨hlines, fun diagnostic hmem => (hbounds diagnostic hmem).2⟩

/-- Where a token begins, the line with the number of its line is the segment around that place. -/
theorem line?_of_begins (h : tokenize text = .ok tokens) {directive rest front : List Char}
    {token : Token} (htext : text.toList = directive ++ rest)
    (hbegins : Begins token front directive rest tokens) :
    ∃ head segment tail, Text.Segment text.toList head segment tail ∧
      head.length ≤ front.length ∧ front.length < head.length + segment.length ∧
      Text.line? text token.line = some (String.ofList (Text.shown segment tail)) := by
  obtain ⟨hmem, hkind, hline, lexeme, back, hstands, hwhole⟩ := hbegins.exists_lexeme
  have hscanned : token.Scanned := by
    rw [tokenize_eq_drain h] at hmem
    exact Lexer.drain_scanned (Lexer.ofText_ready text) token hmem hkind
  obtain ⟨c, more, rfl, hc⟩ := hscanned.head_ne_newline hstands
  obtain ⟨head, segment, tail, hsegment, hstart, hcount, hstop⟩ :=
    Text.exists_segment front (c :: more ++ back)
  rw [← hwhole, ← htext] at hsegment
  have hinside := hstop c rfl hc
  refine ⟨head, segment, tail, hsegment, hstart, hinside, ?_⟩
  rw [hline, hcount, Text.line?_of_segment hsegment, if_neg]
  rintro ⟨rfl, -⟩
  rw [List.length_nil] at hinside
  omega

end Texts

/-- **Diagnostics point at real lines, in order.** When a text can be split into tokens, the lines
of its diagnostics never go down, each is the line of a token, and each lies between one and one
more than there are newlines; the text has no such line only when it is the last one and the text is
empty or ends with a newline. Each token but the end of input begins somewhere in the text, and
wherever one begins, its line is the stretch without newlines around that place, less a carriage
return before its newline; so is what is shown for a diagnostic there. When a text cannot be split,
the line of its problem lies in the same range, and the text has it. -/
theorem diagnostics_point (text : String) :
    (∀ tokens program diagnostics, tokenize text = .ok tokens →
      parseText text = .ok (program, diagnostics) →
      (diagnostics.map Diagnostic.line).Pairwise (· ≤ ·) ∧
      (∀ diagnostic ∈ diagnostics,
        (∃ token ∈ tokens, token.line = diagnostic.line) ∧
        1 ≤ diagnostic.line ∧ diagnostic.line ≤ 1 + Text.newlines text.toList ∧
        (Text.line? text diagnostic.line = none →
          diagnostic.line = 1 + Text.newlines text.toList ∧ Text.Closed text.toList)) ∧
      ∃ directive rest, text.toList = directive ++ rest ∧ Lexer.Directive directive rest ∧
        (∀ token ∈ tokens, token.kind ≠ .eof → ∃ front, Begins token front directive rest tokens) ∧
        ∀ diagnostic ∈ diagnostics, ∀ token front, token.line = diagnostic.line →
          Begins token front directive rest tokens →
          ∃ head segment tail, Text.Segment text.toList head segment tail ∧
            head.length ≤ front.length ∧ front.length < head.length + segment.length ∧
            Text.line? text diagnostic.line = some (String.ofList (Text.shown segment tail))) ∧
    ∀ problem, parseText text = .error problem →
      1 ≤ problem.line ∧ problem.line ≤ 1 + Text.newlines text.toList ∧
        (Text.line? text problem.line).isSome := by
  refine ⟨fun tokens program diagnostics htokens hparse => ?_, fun problem hproblem => ?_⟩
  · have hparsed : parseTokens tokens = (program, diagnostics) := by
      simpa [parseText, htokens, Except.map] using hparse
    obtain ⟨hlines, hpoints⟩ := parseTokens_diagnostics_ordered htokens
    rw [hparsed] at hlines hpoints
    obtain ⟨directive, hdirective, hstands⟩ := Lexer.ofText_standsIn text
    have hsplits := hstands.splits
    rw [← tokenize_eq_drain htokens] at hsplits
    refine ⟨hlines, fun diagnostic hmem => ?_, directive, _, hstands.text_eq, hdirective,
      fun token htoken hkind => hsplits.exists_begins htoken hkind,
      fun diagnostic _ token front hline hbegins => ?_⟩
    · obtain ⟨token, htoken, hline⟩ := hpoints diagnostic hmem
      obtain ⟨hfirst, hlast⟩ := hsplits.lines_ordered.2 token htoken
      rw [← hstands.text_eq, hline] at hlast
      have hone : 1 ≤ diagnostic.line := by omega
      exact ⟨⟨token, htoken, hline⟩, hone, hlast, Text.line?_eq_none_of_le hone hlast⟩
    · rw [← hline]
      exact line?_of_begins htokens hstands.text_eq hbegins
  · have herror : tokenize text = .error problem := by
      unfold parseText at hproblem
      cases htokens : tokenize text with
      | error found =>
        rw [htokens] at hproblem
        rw [Except.error.inj hproblem]
      | ok tokens =>
        rw [htokens] at hproblem
        cases hproblem
    obtain ⟨front, back, htext, hback, hline⟩ := tokenize_error_placed herror
    have hcount : Text.newlines text.toList = Text.newlines front + Text.newlines back := by
      rw [htext, Text.newlines_append]
    rw [hline]
    exact ⟨by omega, by omega, Text.line?_isSome_of_ne_nil htext hback⟩

/-- The lines of a diagnostic behind a line that ends with a carriage return, and of a character
that is no token. -/
theorem diagnostics_point_return :
    let text : String := "a;\r\nlet"
    let tokens : List Token :=
      [⟨.identifier, "a", 1⟩, ⟨.semicolon, ";", 1⟩, ⟨.letWord, "let", 2⟩, Token.eof 2]
    let stray : String := "a\n$"
    let problem : Diagnostic := ⟨.unrecognisedToken "$", 2⟩
    tokenize text = .ok tokens ∧ (parseTokens tokens).2.map Diagnostic.line = [2] ∧
      (∀ diagnostic ∈ (parseTokens tokens).2,
        (∃ token ∈ tokens, token.line = diagnostic.line) ∧
          diagnostic.line ≤ 1 + Text.newlines text.toList) ∧
      parseText stray = .error problem ∧ (Text.line? stray problem.line).isSome := by
  intro text tokens stray problem
  have htokens : tokenize text = .ok tokens := by decide +kernel
  have hparse : parseText text = .ok ((parseTokens tokens).1, (parseTokens tokens).2) := by
    simp only [parseText, htokens, Except.map]
  have hstray : tokenize stray = .error problem := by decide +kernel
  have herror : parseText stray = .error problem := by simp only [parseText, hstray, Except.map]
  obtain ⟨-, hpoints, -⟩ := (diagnostics_point text).1 tokens _ _ htokens hparse
  refine ⟨htokens, by decide +kernel, fun diagnostic hmem => ?_, herror,
    ((diagnostics_point stray).2 problem herror).2.2⟩
  obtain ⟨htoken, -, hlast, -⟩ := hpoints diagnostic hmem
  exact ⟨htoken, hlast⟩

end ScriptFront
