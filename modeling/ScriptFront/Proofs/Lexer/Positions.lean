import ScriptFront.Proofs.Lexer.Partition
import ScriptFront.Proofs.Parser.Streaming
import ScriptFront.Proofs.Text.Segments

/-!
# Where tokens and problems stand

* `Token.Scanned` — the token is what a scan finds somewhere. All tokens of a text but the end of
  input are (`drain_scanned`), so none of them begins with a blank.
* `Begins` — a token begins behind a given part of the text, in a cut of the text into its tokens.
* `Splits.lines_ordered` — the tokens of a cut are on lines that never go down.
* `tokenize_error_placed` — the problem of a text that cannot be split is on the line of a place in
  it with something behind.
-/

namespace ScriptFront

open Lexeme

/-! ## What a scan finds -/

/-- The token is what a scan finds at some place of some text. -/
def Token.Scanned (token : Token) : Prop :=
  ∃ lexer : Lexer, lexer.rest ≠ [] ∧ lexer.scan.pending = lexer.pending ++ [token]

namespace Lexer

variable {lexer after : Lexer} {token : Token}

/-- A scan leaves what waited, and adds at most a token that it found. -/
theorem pending_scan (h : lexer.rest ≠ []) (hpending : ∀ token ∈ lexer.pending, token.Scanned) :
    ∀ token ∈ lexer.scan.pending, token.Scanned := by
  cases scan_scans h with
  | trivia _ _ _ hsame => rwa [hsame]
  | @token _ found _ _ _ _ _ _ hadded =>
    intro token htoken
    rw [hadded, List.mem_append, List.mem_singleton] at htoken
    rcases htoken with htoken | rfl
    · exact hpending token htoken
    · exact ⟨lexer, h, hadded⟩

/-- What a lexer hands out is an end of input or was found by a scan. -/
theorem next?_scanned (h : lexer.next? = some (token, after))
    (hpending : ∀ token ∈ lexer.pending, token.Scanned) :
    token.kind = .eof ∨ token.Scanned := by
  fun_induction next? lexer with
  | case1 lexer first later hcons =>
    cases h
    exact .inr (hpending token (by simp [hcons]))
  | case2 =>
    cases h
    exact .inl rfl
  | case3 => cases h
  | case4 lexer _ hrest _ ih => exact ih h (pending_scan hrest hpending)

/-- All that is drained but the end of input was found by a scan. -/
theorem drain_scanned (h : lexer.Ready) :
    ∀ token ∈ lexer.drain.1, token.kind ≠ .eof → token.Scanned := by
  refine drain_induction (motive := fun lexer =>
    ∀ token ∈ lexer.drain.1, token.kind ≠ .eof → token.Scanned) ?_ ?_ lexer h
  · intro lexer first after _ hnext hkind _ token htoken hne
    rw [drain_of_eof hnext hkind, List.mem_singleton] at htoken
    exact absurd (htoken ▸ hkind) hne
  · intro lexer first after hready hnext hkind _ ih token htoken hne
    rw [drain_of_ne hnext hkind] at htoken
    rcases List.mem_cons.1 htoken with rfl | htoken
    · exact (next?_scanned hnext (by simp [hready.pending_eq])).resolve_left hkind
    · exact ih token htoken hne

/-- Blanks are taken before anything else. -/
theorem firstMatch?_of_isBlank {c : Char} (h : Text.isBlank c = true) (rest : List Char) :
    ∃ run, firstMatch? (c :: rest) = some (.blanks, run) := by
  refine ⟨c :: rest.takeWhile Text.isBlank, ?_⟩
  simp [firstMatch?, patterns, Pattern.lexeme?, nonempty?, h]

end Lexer

/-- What a lexeme of the shape, in front of the given text, is made into. -/
def Lexeme.Pattern.Makes (pattern : Pattern) (lexeme after : List Char) (token : Token) : Prop :=
  match pattern with
  | .blanks | .lineComment | .closedComment | .openComment => False
  | .word =>
    token.kind = Lexer.wordKind (String.ofList lexeme) after ∧ token.value = String.ofList lexeme
  | .marked _ | .digits => token.kind = .integer ∧ token.value = String.ofList lexeme
  | .fraction => token.kind = .float ∧ token.value = String.ofList lexeme
  | .quoted _ => token.kind = .string
  | .strayQuote => token.kind = .illegal ∧ token.value = String.ofList (lexeme ++ after)
  | .fixed _ kind => token.kind = kind ∧ token.value = String.ofList lexeme

/-- A token that a scan finds is made of the first shape that fits, or of one character where none
does. -/
theorem Token.Scanned.exists_match {token : Token} (h : token.Scanned) :
    (∃ pattern lexeme after, firstMatch? (lexeme ++ after) = some (pattern, lexeme) ∧
      pattern.Makes lexeme after token) ∨
    ∃ c after, firstMatch? (c :: after) = none ∧ token.kind = .illegal ∧
      token.value = String.singleton c := by
  obtain ⟨lexer, hrest, hpending⟩ := h
  unfold Lexer.scan at hpending
  split at hpending
  · next pattern lexeme hmatch =>
    obtain ⟨after, hafter⟩ := lexeme?_isPrefix (firstMatch?_eq_some hmatch).2
    rw [← hafter] at hmatch
    refine .inl ⟨pattern, lexeme, after, hmatch, ?_⟩
    have hdrop : lexer.rest.drop lexeme.length = after := by rw [← hafter, List.drop_left]
    cases pattern <;>
      simp [Lexer.accept, Lexer.push, Lexer.move, Lexer.pass, Lexer.reject, hdrop] at hpending <;>
      subst hpending <;> simp [Lexeme.Pattern.Makes, hafter]
  · next hnone =>
    split at hpending
    · next hnil => exact absurd hnil hrest
    · next c after hcons =>
      rw [hcons] at hnone
      simp only [Lexer.reject, Lexer.push, Lexer.move, List.append_cancel_left_eq,
        List.cons.injEq, and_true] at hpending
      subst hpending
      exact .inr ⟨c, after, hnone, rfl, rfl⟩

/-- No token begins with a blank, and so none begins with a newline. -/
theorem Token.Scanned.head_ne_newline {token : Token} (h : token.Scanned) {lexeme : List Char}
    (hstands : token.StandsFor lexeme) : ∃ c rest, lexeme = c :: rest ∧ c ≠ '\n' := by
  unfold Token.StandsFor at hstands
  split at hstands
  · next hstring =>
    obtain ⟨quote, contents, hquote, rfl, -⟩ := hstands
    refine ⟨quote, contents ++ [quote], rfl, ?_⟩
    rcases hquote with rfl | rfl <;> decide
  · next hstring =>
    obtain ⟨hne, hvalue⟩ := hstands
    obtain ⟨c, rest, rfl⟩ := List.exists_cons_of_ne_nil hne
    refine ⟨c, rest, rfl, ?_⟩
    rintro rfl
    have hblank : Text.isBlank '\n' = true := by decide
    rcases h.exists_match with ⟨pattern, found, after, hmatch, hmakes⟩ | ⟨d, after, hnone, -, hd⟩
    · -- a text that begins with a newline begins with blanks, and these make no token
      have hfound : ∃ more, found ++ after = '\n' :: more := by
        cases pattern <;> simp only [Lexeme.Pattern.Makes] at hmakes
        case quoted => exact absurd hmakes hstring
        case strayQuote =>
          rw [hmakes.2, String.ofList_inj] at hvalue
          exact ⟨rest, hvalue⟩
        all_goals
          rw [hmakes.2, String.ofList_inj] at hvalue
          exact ⟨rest ++ after, by rw [hvalue]; rfl⟩
      obtain ⟨more, hmore⟩ := hfound
      obtain ⟨run, hrun⟩ := Lexer.firstMatch?_of_isBlank hblank more
      rw [hmore, hrun] at hmatch
      cases hmatch
      exact hmakes
    · rw [hd] at hvalue
      obtain rfl : d = '\n' := by
        have hlist := congrArg String.toList hvalue
        simp at hlist
        exact hlist.1
      obtain ⟨run, hrun⟩ := Lexer.firstMatch?_of_isBlank hblank after
      rw [hrun] at hnone
      cases hnone

/-! ## Where tokens begin -/

/-- In a cut of the rest of a text behind `before`, the token begins behind `front`. -/
inductive Begins (token : Token) (front : List Char) : List Char → List Char → List Token → Prop
  | here {before gap lexeme rest : List Char} {tokens : List Token}
      (hfront : front = before ++ gap) (hgap : Gap gap (lexeme ++ rest))
      (hstands : token.StandsFor lexeme) (hline : token.line = 1 + Text.newlines (before ++ gap))
      (hkind : token.kind ≠ .eof) (h : Splits (before ++ (gap ++ lexeme)) rest tokens) :
      Begins token front before (gap ++ lexeme ++ rest) (token :: tokens)
  | later {before gap lexeme rest : List Char} {first : Token} {tokens : List Token}
      (hgap : Gap gap (lexeme ++ rest)) (hstands : first.StandsFor lexeme)
      (hline : first.line = 1 + Text.newlines (before ++ gap)) (hkind : first.kind ≠ .eof)
      (h : Begins token front (before ++ (gap ++ lexeme)) rest tokens) :
      Begins token front before (gap ++ lexeme ++ rest) (first :: tokens)

section Begins

variable {token : Token} {front before rest : List Char} {tokens : List Token}

/-- Every token of a cut but the end of input begins somewhere. -/
theorem Splits.exists_begins (h : Splits before rest tokens) (htoken : token ∈ tokens)
    (hkind : token.kind ≠ .eof) : ∃ front, Begins token front before rest tokens := by
  induction h with
  | eof hgap =>
    rw [List.mem_singleton.1 htoken] at hkind
    exact absurd rfl hkind
  | token hgap hstands hline hfirst hrest ih =>
    rcases List.mem_cons.1 htoken with rfl | htoken
    · exact ⟨_, .here rfl hgap hstands hline hfirst hrest⟩
    · obtain ⟨front, hfront⟩ := ih htoken
      exact ⟨front, .later hgap hstands hline hfirst hfront⟩

/-- Where a token begins, its lexeme stands in the text, on the line of the token. -/
theorem Begins.exists_lexeme (h : Begins token front before rest tokens) :
    token ∈ tokens ∧ token.kind ≠ .eof ∧ token.line = 1 + Text.newlines front ∧
      ∃ lexeme back, token.StandsFor lexeme ∧ before ++ rest = front ++ (lexeme ++ back) := by
  induction h with
  | @here before gap lexeme rest tokens hfront hgap hstands hline hkind _ =>
    subst hfront
    exact ⟨List.mem_cons_self, hkind, hline, lexeme, rest, hstands, by simp [List.append_assoc]⟩
  | later hgap _ _ _ _ ih =>
    obtain ⟨hmem, hkind, hline, lexeme, back, hstands, htext⟩ := ih
    refine ⟨List.mem_cons_of_mem _ hmem, hkind, hline, lexeme, back, hstands, ?_⟩
    rw [← htext]
    simp [List.append_assoc]

/-- The tokens of a cut are on lines that never go down, none before the cut and none behind the
text. -/
theorem Splits.lines_ordered (h : Splits before rest tokens) :
    (tokens.map Token.line).Pairwise (· ≤ ·) ∧ ∀ token ∈ tokens,
      1 + Text.newlines before ≤ token.line ∧ token.line ≤ 1 + Text.newlines (before ++ rest) := by
  induction h with
  | @eof before gap hgap =>
    simp [Token.eof, Text.newlines_append]
  | @token before gap lexeme rest first tokens hgap _ hline _ _ ih =>
    obtain ⟨hordered, hbounds⟩ := ih
    simp only [Text.newlines_append] at hline hbounds ⊢
    refine ⟨?_, ?_⟩
    · rw [List.map_cons, List.pairwise_cons]
      refine ⟨fun line hmem => ?_, hordered⟩
      obtain ⟨token, htoken, rfl⟩ := List.mem_map.1 hmem
      have := hbounds token htoken
      omega
    · rw [List.forall_mem_cons]
      refine ⟨by omega, fun token htoken => ?_⟩
      have := hbounds token htoken
      omega

end Begins

/-! ## Where problems stand -/

namespace Lexer

variable {lexer after : Lexer} {token : Token} {text : List Char}

/-- The line is that of a place in the text with something behind it. -/
def Placed (text : List Char) (line : Nat) : Prop :=
  ∃ front back, text = front ++ back ∧ back ≠ [] ∧ line = 1 + Text.newlines front

/-- The cursor stands in the text, and all problems have a place there. -/
structure Tracks (text : List Char) (lexer : Lexer) : Prop where
  cursor : ∃ before, text = before ++ lexer.rest ∧ lexer.line = 1 + Text.newlines before
  errors : ∀ problem ∈ lexer.errors, Placed text problem.line

/-- A scan records one problem at most, on the line of the cursor. -/
theorem errors_scan (lexer : Lexer) :
    lexer.scan.errors = lexer.errors ∨
      ∃ cause, lexer.scan.errors = lexer.errors ++ [⟨cause, lexer.line⟩] := by
  unfold scan
  split
  · next pattern lexeme _ =>
    cases pattern with
    | strayQuote => exact .inr ⟨_, rfl⟩
    | _ => exact .inl rfl
  · split
    · exact .inl rfl
    · exact .inr ⟨_, rfl⟩

/-- A scan keeps the cursor in the text, and its problem has a place there. -/
theorem Tracks.scan (h : lexer.Tracks text) (hrest : lexer.rest ≠ []) : lexer.scan.Tracks text := by
  obtain ⟨⟨before, htext, hline⟩, herrors⟩ := h
  constructor
  · have hpasses : ∃ piece, lexer.Passes piece lexer.scan := by
      cases scan_scans hrest with
      | trivia hpasses => exact ⟨_, hpasses⟩
      | token hpasses => exact ⟨_, hpasses⟩
    obtain ⟨piece, hpasses⟩ := hpasses
    refine ⟨before ++ piece, ?_, ?_⟩
    · rw [htext, hpasses.rest_eq, List.append_assoc]
    · rw [hpasses.line_eq, hline, Text.newlines_append, Nat.add_assoc]
  · rcases errors_scan lexer with hsame | ⟨cause, hadded⟩
    · rwa [hsame]
    · rw [hadded, List.forall_mem_append, List.forall_mem_singleton]
      exact ⟨herrors, before, lexer.rest, htext, hrest, hline⟩

/-- A call for a token keeps the cursor in the text, with its problems. -/
theorem Tracks.next? (h : lexer.Tracks text) (hnext : lexer.next? = some (token, after)) :
    after.Tracks text := by
  fun_induction Lexer.next? lexer with
  | case1 lexer first later hcons =>
    cases hnext
    exact ⟨h.cursor, h.errors⟩
  | case2 =>
    cases hnext
    exact h
  | case3 => cases hnext
  | case4 lexer _ hrest _ ih => exact ih (h.scan hrest) hnext

/-- Draining keeps the cursor in the text, with its problems. -/
theorem Tracks.drain (hready : lexer.Ready) (h : lexer.Tracks text) :
    lexer.drain.2.Tracks text := by
  revert h
  refine drain_induction (motive := fun lexer => lexer.Tracks text → lexer.drain.2.Tracks text)
    ?_ ?_ lexer hready
  · intro lexer token after _ hnext hkind _ h
    rw [drain_of_eof hnext hkind]
    exact h.next? hnext
  · intro lexer token after _ hnext hkind _ ih h
    rw [drain_of_ne hnext hkind]
    exact ih (h.next? hnext)

end Lexer

/-- The problem of a text that cannot be split has a place in it. -/
theorem tokenize_error_placed {text : String} {problem : Diagnostic}
    (h : tokenize text = .error problem) : Lexer.Placed text.toList problem.line := by
  obtain ⟨before, -, hstands⟩ := Lexer.ofText_standsIn text
  have htracks : (Lexer.ofText text).Tracks text.toList :=
    ⟨⟨before, hstands.text_eq, hstands.line_eq⟩, by simp [Lexer.ofText]⟩
  have herrors := (htracks.drain hstands.toReady).errors
  rw [tokenize, Lexer.tokens_eq_drain hstands.toReady rfl] at h
  split at h
  · cases h
  · next first others hcons =>
    cases h
    exact herrors problem (by simp [hcons])

/-- The tokens of a text that can be split are those that are drained from it. -/
theorem tokenize_eq_drain {text : String} {tokens : List Token} (h : tokenize text = .ok tokens) :
    tokens = (Lexer.ofText text).drain.1 := by
  rw [tokenize, Lexer.tokens_eq_drain (Lexer.ofText_ready text) rfl] at h
  split at h
  · exact (Except.ok.inj h).symm
  · cases h

end ScriptFront
