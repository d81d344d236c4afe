import Mathlib.Logic.Function.Iterate
import ScriptFront.Proofs.Lexer.Scans

/-!
# A text and its tokens

* `Lexer.StandsIn` — the cursor stands in a text, behind a part of it, on the line that the newlines
  of that part make.
* `Lexer.drain` — the tokens up to the first end of input, and the lexer behind them.
* `Splits` — a text is cut into gaps and the lexemes of tokens, each token on its own line, up to
  the one end of input (`Splits.ends`).
* `lexer_partitions` — from the start of any text, the cursor always stands in it, every scan moves
  it on, and the tokens that are drained cut the text.
-/

namespace ScriptFront

namespace Lexer

variable {lexer after : Lexer} {token : Token}

/-! ## The cursor -/

/-- The cursor stands in the text, behind the given part of it, before a character or at the end,
and on the line that the newlines of that part make. Nothing waits. -/
structure StandsIn (lexer : Lexer) (text before : List Char) : Prop extends lexer.Ready where
  text_eq : text = before ++ lexer.rest
  line_eq : lexer.line = 1 + Text.newlines before

/-- A cursor that passes a piece of the text stands in the text behind it. -/
theorem StandsIn.passes {text before piece : List Char} (h : lexer.StandsIn text before)
    (hpasses : lexer.Passes piece after) (hready : after.Ready) :
    after.StandsIn text (before ++ piece) := by
  refine ⟨hready, ?_, ?_⟩
  · rw [h.text_eq, hpasses.rest_eq, List.append_assoc]
  · rw [hpasses.line_eq, h.line_eq, Text.newlines_append, Nat.add_assoc]

/-- The first line of a text that is for the system, and the rest of the text. -/
inductive Directive : List Char → List Char → Prop
  | none {rest : List Char} (h : ¬ ['#', '!'] <+: rest) : Directive [] rest
  | line {body rest : List Char} (hbody : '\n' ∉ body) (hrest : ∀ c ∈ rest.head?, c = '\n') :
      Directive ('#' :: '!' :: body) rest

/-- A lexer starts behind the line that is for the system, if there is one. -/
theorem ofText_standsIn (text : String) :
    ∃ directive, Directive directive (ofText text).rest ∧
      (ofText text).StandsIn text.toList directive := by
  unfold ofText
  split
  · next body htext =>
    refine ⟨'#' :: '!' :: body.takeWhile (· != '\n'), .line (newline_not_mem_takeWhile body)
      (head?_dropWhile_newline body), ⟨rfl, rfl⟩, ?_, ?_⟩
    · rw [htext, List.cons_append, List.cons_append, List.takeWhile_append_dropWhile]
    · simp [Text.newlines, List.count_eq_zero.2 (newline_not_mem_takeWhile body)]
  · next hnone =>
    refine ⟨[], .none ?_, ⟨rfl, rfl⟩, rfl, rfl⟩
    rintro ⟨body, hbody⟩
    exact hnone body hbody.symm

/-! ## Calls for tokens -/

/-- The lexer behind its next token. -/
def step (lexer : Lexer) : Lexer :=
  match lexer.next? with
  | some (_, after) => after
  | none => lexer

/-- The tokens up to the first end of input, and the lexer behind them. -/
def drain (lexer : Lexer) : List Token × Lexer :=
  match _ : lexer.next? with
  | none => ([], lexer)
  | some (token, after) =>
    if _ : token.kind = .eof then ([token], after)
    else (token :: after.drain.1, after.drain.2)
termination_by lexer.size
decreasing_by
  all_goals
    have h := next?_size ‹_›
    rw [Token.weight_of_ne ‹_›] at h
    omega

/-- At the end of input, only that is drained. -/
theorem drain_of_eof (h : lexer.next? = some (token, after)) (hkind : token.kind = .eof) :
    lexer.drain = ([token], after) := by
  rw [drain]
  split <;> simp_all

/-- Before the end of input, a token is drained and then what is behind it. -/
theorem drain_of_ne (h : lexer.next? = some (token, after)) (hkind : token.kind ≠ .eof) :
    lexer.drain = (token :: after.drain.1, after.drain.2) := by
  rw [drain]
  split <;> simp_all

/-- What holds of a lexer at the end of input, and before a token when it holds behind it, holds of
every lexer that is ready. -/
theorem drain_induction {motive : Lexer → Prop}
    (eof : ∀ lexer token after, lexer.Ready → lexer.next? = some (token, after) →
      token.kind = .eof → lexer.Hands token after → motive lexer)
    (token : ∀ lexer token after, lexer.Ready → lexer.next? = some (token, after) →
      token.kind ≠ .eof → lexer.Hands token after → motive after → motive lexer)
    (lexer : Lexer) (h : lexer.Ready) : motive lexer := by
  induction hsize : lexer.size using Nat.strongRecOn generalizing lexer with
  | ind size ih =>
    obtain ⟨first, after, hnext, hhands⟩ := next?_hands h
    by_cases hkind : first.kind = .eof
    · exact eof lexer first after h hnext hkind hhands
    · have hsmaller := next?_size hnext
      rw [Token.weight_of_ne hkind] at hsmaller
      exact token lexer first after h hnext hkind hhands
        (ih after.size (by omega) after (hhands.ready h) rfl)

end Lexer

/-! ## The cut -/

/-- The rest of a text, behind the given part of it, is cut into gaps and the lexemes of the tokens,
up to the end of input. Each token is on the line that the newlines before its lexeme make. -/
inductive Splits : List Char → List Char → List Token → Prop
  | eof {before gap : List Char} (hgap : Gap gap []) :
      Splits before gap [Token.eof (1 + Text.newlines (before ++ gap))]
  | token {before gap lexeme rest : List Char} {token : Token} {tokens : List Token}
      (hgap : Gap gap (lexeme ++ rest)) (hstands : token.StandsFor lexeme)
      (hline : token.line = 1 + Text.newlines (before ++ gap)) (hkind : token.kind ≠ .eof)
      (h : Splits (before ++ (gap ++ lexeme)) rest tokens) :
      Splits before (gap ++ lexeme ++ rest) (token :: tokens)

/-- The tokens of a cut end with the one end of input, on the last line of the text. -/
theorem Splits.ends {before rest : List Char} {tokens : List Token}
    (h : Splits before rest tokens) :
    ∃ front, tokens = front ++ [Token.eof (1 + Text.newlines (before ++ rest))] ∧
      ∀ token ∈ front, token.kind ≠ .eof := by
  induction h with
  | eof hgap => exact ⟨[], rfl, by simp⟩
  | @token before gap lexeme rest token tokens hgap hstands hline hkind h ih =>
    obtain ⟨front, htokens, hne⟩ := ih
    refine ⟨token :: front, ?_, List.forall_mem_cons.2 ⟨hkind, hne⟩⟩
    rw [htokens, List.append_assoc before, List.cons_append]

namespace Lexer

variable {lexer : Lexer} {text before : List Char}

/-- A call for a token leaves the cursor in the text. -/
theorem StandsIn.step (h : lexer.StandsIn text before) :
    ∃ piece, lexer.step.StandsIn text (before ++ piece) := by
  obtain ⟨token, after, hnext, hhands⟩ := next?_hands h.toReady
  have hready := hhands.ready h.toReady
  unfold Lexer.step
  rw [hnext]
  cases hhands with
  | eof hpasses => exact ⟨_, h.passes hpasses hready⟩
  | token hpasses => exact ⟨_, h.passes hpasses hready⟩

/-- However many tokens were asked for, the cursor stands in the text. -/
theorem StandsIn.iterate (h : lexer.StandsIn text before) (count : Nat) :
    ∃ piece, (Lexer.step^[count] lexer).StandsIn text (before ++ piece) := by
  induction count with
  | zero => exact ⟨[], by rwa [List.append_nil]⟩
  | succ count ih =>
    obtain ⟨piece, hpiece⟩ := ih
    obtain ⟨more, hmore⟩ := hpiece.step
    rw [Function.iterate_succ_apply']
    exact ⟨piece ++ more, by rwa [← List.append_assoc]⟩

/-- The tokens that are drained cut what is left of the text. -/
theorem StandsIn.splits (h : lexer.StandsIn text before) :
    Splits before lexer.rest lexer.drain.1 := by
  refine drain_induction (motive := fun lexer => ∀ before, lexer.StandsIn text before →
    Splits before lexer.rest lexer.drain.1) ?_ ?_ lexer h.toReady before h
  · intro lexer token after hready hnext hkind hhands before h
    have hafter := hhands.ready hready
    rw [drain_of_eof hnext hkind]
    cases hhands with
    | eof hpasses hgap hrest =>
      rw [(h.passes hpasses hafter).line_eq, hpasses.rest_eq, hrest, List.append_nil]
      exact .eof hgap
    | token _ _ _ _ hne => exact absurd hkind hne
  · intro lexer token after hready hnext hkind hhands ih before h
    have hafter := hhands.ready hready
    rw [drain_of_ne hnext hkind]
    cases hhands with
    | eof => exact absurd rfl hkind
    | token hpasses hgap hstands hline =>
      rw [hpasses.rest_eq]
      refine .token hgap hstands ?_ hkind (ih _ (h.passes hpasses hafter))
      rw [hline, h.line_eq, Text.newlines_append, Nat.add_assoc]

/-- What is drained from a text ends with the end of input, on the last line, and has no other. -/
theorem drain_ends (text : String) :
    ∃ front, (ofText text).drain.1 = front ++ [Token.eof (1 + Text.newlines text.toList)] ∧
      ∀ token ∈ front, token.kind ≠ .eof := by
  obtain ⟨_, -, hstands⟩ := ofText_standsIn text
  rw [hstands.text_eq]
  exact hstands.splits.ends

end Lexer

/-- **The lexer cuts the text and counts its lines.** However many tokens were asked for from the
start of any text, the cursor stands before a character of the text or at its end, on the line that
the newlines before it make, and another token can be had. Every scan before the end moves a cursor
over a piece of the text that is not empty. The tokens up to the first end of input cut the text,
behind a first line that is for the system, into gaps of blanks and comments and one lexeme for each
token but the last: each token stands for its lexeme and is on the line where that begins, and the
end of input is on the last line of the text. -/
theorem lexer_partitions (text : String) :
    (∀ count, (∃ before, (Lexer.step^[count] (Lexer.ofText text)).StandsIn text.toList before) ∧
      (Lexer.step^[count] (Lexer.ofText text)).next?.isSome) ∧
    (∀ lexer : Lexer, lexer.rest ≠ [] →
      ∃ piece, piece ≠ [] ∧ lexer.Passes piece lexer.scan) ∧
    (∃ directive rest, text.toList = directive ++ rest ∧ Lexer.Directive directive rest ∧
      Splits directive rest (Lexer.ofText text).drain.1) ∧
    ∃ front, (Lexer.ofText text).drain.1 = front ++ [Token.eof (1 + Text.newlines text.toList)] ∧
      ∀ token ∈ front, token.kind ≠ .eof := by
  obtain ⟨directive, hdirective, hstands⟩ := Lexer.ofText_standsIn text
  refine ⟨fun count => ?_, fun lexer hrest => ?_,
    ⟨directive, _, hstands.text_eq, hdirective, hstands.splits⟩, Lexer.drain_ends text⟩
  · obtain ⟨piece, hpiece⟩ := hstands.iterate count
    obtain ⟨token, after, hnext, -⟩ := Lexer.next?_hands hpiece.toReady
    exact ⟨⟨_, hpiece⟩, by rw [hnext]; rfl⟩
  · cases Lexer.scan_scans hrest with
    | trivia hpasses hne => exact ⟨_, hne, hpasses⟩
    | token hpasses hne => exact ⟨_, hne, hpasses⟩

/-- The law at a text with a first line for the system, a comment that is never closed, and a string
over two lines. -/
theorem lexer_partitions_directive :
    (Lexer.ofText "#! run\n'a\nb' /* c").rest ≠ [] ∧
      (∃ piece, piece ≠ [] ∧ (Lexer.ofText "#! run\n'a\nb' /* c").Passes piece
        (Lexer.ofText "#! run\n'a\nb' /* c").scan) ∧
      ∃ directive rest, "#! run\n'a\nb' /* c".toList = directive ++ rest ∧
        Lexer.Directive directive rest ∧
        Splits directive rest (Lexer.ofText "#! run\n'a\nb' /* c").drain.1 := by
  obtain ⟨-, hscan, hsplits, -⟩ := lexer_partitions "#! run\n'a\nb' /* c"
  have hrest : (Lexer.ofText "#! run\n'a\nb' /* c").rest ≠ [] := by decide
  exact ⟨hrest, hscan _ hrest, hsplits⟩

end ScriptFront
