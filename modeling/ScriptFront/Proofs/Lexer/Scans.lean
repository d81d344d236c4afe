import Mathlib.Data.List.Infix
import Mathlib.Data.List.TakeWhile
import ScriptFront.Lexeme.Lexer

/-!
# What a scan takes

* `Lexer.Passes` — a cursor moved over a piece of the text and counted its newlines.
* `Trivia`, `Gap` — the pieces of a text that are no lexemes of a token: blanks and comments.
* `newline_not_mem_lexeme` — words, numbers and punctuation marks hold no newline, so that a cursor
  that counts none behind them is on the right line (`move_eq_pass`).
* `Token.StandsFor` — which lexeme a token was made of.
* `Lexer.Scans`, `scan_scans` — a scan before the end passes a piece of the text that is not empty,
  and that is trivia or the lexeme of the one token that it finds.
* `Lexer.Hands`, `next?_hands` — a call for a token passes a gap and the lexeme of the token, or a
  gap up to the end of the text.
-/

namespace ScriptFront

open Lexeme

/-- The newlines of two texts add up. -/
theorem Text.newlines_append (text more : List Char) :
    newlines (text ++ more) = newlines text + newlines more :=
  List.count_append

/-! ## Lines and comments -/

/-- A text up to its first newline holds none. -/
theorem newline_not_mem_takeWhile (text : List Char) : '\n' ∉ text.takeWhile (· != '\n') := by
  intro hmem
  simpa using List.mem_takeWhile_imp hmem

/-- Behind a text up to its first newline, that newline follows, or nothing. -/
theorem head?_dropWhile_newline (text : List Char) :
    ∀ c ∈ (text.dropWhile (· != '\n')).head?, c = '\n' := by
  intro c hc
  have hhead := List.head?_dropWhile_not (· != '\n') text
  rw [Option.mem_def.1 hc] at hhead
  simpa using hhead

/-- The mark that closes a bracketed comment. -/
def closeMark : List Char :=
  ['*', '/']

/-- A comment that is closed ends with the first mark that closes one. -/
theorem throughClose?_eq_some {text inner : List Char} (h : throughClose? text = some inner) :
    inner <+: text ∧ ∃ body, inner = body ++ closeMark ∧ ¬ closeMark <:+: body ++ ['*'] := by
  fun_induction throughClose? text generalizing inner with
  | case1 => cases h
  | case2 rest =>
    cases h
    refine ⟨by simp, [], rfl, fun hinfix => ?_⟩
    have hlength := hinfix.length_le
    simp [closeMark] at hlength
  | case3 c rest hmark ih =>
    obtain ⟨inner, hinner, rfl⟩ := Option.map_eq_some_iff.1 h
    obtain ⟨hfront, body, rfl, hbody⟩ := ih hinner
    refine ⟨(List.cons_prefix_cons.2 ⟨rfl, hfront⟩), c :: body, rfl, fun hinfix => ?_⟩
    rcases List.infix_cons_iff.1 hinfix with hfirst | hlater
    · -- the mark would stand here already
      obtain ⟨rfl, hslash⟩ := List.cons_prefix_cons.1 hfirst
      have hbefore : body ++ ['*'] <+: rest := by
        refine List.IsPrefix.trans ⟨['/'], ?_⟩ hfront
        rw [List.append_assoc]
        rfl
      obtain ⟨tail, htail⟩ := hslash.trans hbefore
      exact hmark tail rfl htail.symm
    · exact hbody hlater

/-- A comment that is not closed holds no mark that closes one. -/
theorem throughClose?_eq_none {text : List Char} (h : throughClose? text = none) :
    ¬ closeMark <:+: text := by
  fun_induction throughClose? text with
  | case1 => simp [closeMark]
  | case2 => cases h
  | case3 c rest hmark ih =>
    intro hinfix
    rcases List.infix_cons_iff.1 hinfix with hfirst | hlater
    · obtain ⟨rfl, tail, htail⟩ := List.cons_prefix_cons.1 hfirst
      exact hmark tail rfl htail.symm
    · exact ih (Option.map_eq_none_iff.1 h) hlater

/-! ## Gaps -/

/-- Blanks, or one comment, in front of the given text. -/
inductive Trivia : List Char → List Char → Prop
  | blanks {run after : List Char} (h : ∀ c ∈ run, Text.isBlank c = true) : Trivia run after
  /-- A comment up to the end of its line. -/
  | lineComment {body after : List Char} (hbody : '\n' ∉ body)
      (hafter : ∀ c ∈ after.head?, c = '\n') : Trivia ('/' :: '/' :: body) after
  /-- A comment up to the first mark that closes it. -/
  | closedComment {body after : List Char} (hbody : ¬ closeMark <:+: body ++ ['*']) :
      Trivia ('/' :: '*' :: (body ++ closeMark)) after
  /-- A comment that is never closed takes the rest of the text. -/
  | openComment {body : List Char} (hbody : ¬ closeMark <:+: body) : Trivia ('/' :: '*' :: body) []

/-- Blanks and comments, one after the other, in front of the given text. -/
inductive Gap : List Char → List Char → Prop
  | nil {after : List Char} : Gap [] after
  | cons {piece gap after : List Char} (hpiece : Trivia piece (gap ++ after)) (h : Gap gap after) :
      Gap (piece ++ gap) after

/-! ## Lexemes -/

namespace Lexeme

/-- A literal that is closed ends with the quote. -/
theorem throughQuote?_eq_some {quote : Char} {text inner : List Char}
    (h : throughQuote? quote text = some inner) :
    inner <+: text ∧ ∃ contents, inner = contents ++ [quote] := by
  fun_induction throughQuote? quote text generalizing inner with
  | case1 => cases h
  | case2 rest =>
    cases h
    exact ⟨by simp, [], rfl⟩
  | case3 => cases h
  | case4 d tail _ ih =>
    obtain ⟨inner, hinner, rfl⟩ := Option.map_eq_some_iff.1 h
    obtain ⟨hfront, contents, rfl⟩ := ih hinner
    exact ⟨by simpa using hfront, '\\' :: d :: contents, rfl⟩
  | case5 c tail _ _ ih =>
    obtain ⟨inner, hinner, rfl⟩ := Option.map_eq_some_iff.1 h
    obtain ⟨hfront, contents, rfl⟩ := ih hinner
    exact ⟨by simpa using hfront, c :: contents, rfl⟩

/-- What a shape takes from a text stands at its front. -/
theorem lexeme?_isPrefix {pattern : Pattern} {text lexeme : List Char}
    (h : pattern.lexeme? text = some lexeme) : lexeme <+: text := by
  revert h
  fun_cases Pattern.lexeme? pattern text <;> intro h
  case case1 | case15 =>
    obtain ⟨rfl, -⟩ := nonempty?_eq_some h
    exact List.takeWhile_prefix _
  case case2 | case8 =>
    cases h
    simp [List.takeWhile_prefix]
  case case4 =>
    obtain ⟨inner, hinner, rfl⟩ := Option.map_eq_some_iff.1 h
    simpa using (throughClose?_eq_some hinner).1
  case case6 =>
    cases h
    exact List.prefix_rfl
  case case11 =>
    obtain ⟨run, hrun, rfl⟩ := Option.map_eq_some_iff.1 h
    obtain ⟨rfl, -⟩ := nonempty?_eq_some hrun
    simp [List.takeWhile_prefix]
  case case14 =>
    obtain ⟨whole, hwhole, h⟩ := Option.bind_eq_some_iff.1 h
    obtain ⟨rfl, -⟩ := nonempty?_eq_some hwhole
    split at h
    · next rest hdrop =>
      obtain ⟨part, hpart, rfl⟩ := Option.map_eq_some_iff.1 h
      obtain ⟨rfl, -⟩ := nonempty?_eq_some hpart
      have hsplit : text.takeWhile Char.isDigit ++ '.' :: rest = text := by
        rw [← hdrop, List.takeWhile_append_dropWhile]
      have hfront : text.takeWhile Char.isDigit ++ '.' :: rest.takeWhile Char.isDigit <+:
          text.takeWhile Char.isDigit ++ '.' :: rest := by
        simp [List.takeWhile_prefix]
      rwa [hsplit] at hfront
    · cases h
  case case16 =>
    obtain ⟨inner, hinner, rfl⟩ := Option.map_eq_some_iff.1 h
    simpa using (throughQuote?_eq_some hinner).1
  case case19 =>
    cases h
    simp
  case case22 hfront =>
    obtain ⟨rfl, -⟩ := nonempty?_eq_some h
    exact List.isPrefixOf_iff_prefix.1 hfront
  all_goals cases h

/-- A string literal is its contents between two quotes. -/
theorem exists_contents_of_quoted {quote : Char} {text lexeme : List Char}
    (h : (Pattern.quoted quote).lexeme? text = some lexeme) :
    ∃ contents, lexeme = quote :: (contents ++ [quote]) := by
  cases text with
  | nil => cases h
  | cons c rest =>
    change (if c = quote then _ else none) = some lexeme at h
    split_ifs at h with hquote
    obtain ⟨inner, hinner, rfl⟩ := Option.map_eq_some_iff.1 h
    obtain ⟨-, contents, rfl⟩ := throughQuote?_eq_some hinner
    exact ⟨contents, by rw [hquote]⟩

/-- What is known of the first shape that fits. -/
theorem firstMatch?_eq_some {text lexeme : List Char} {pattern : Pattern}
    (h : firstMatch? text = some (pattern, lexeme)) :
    pattern ∈ patterns ∧ pattern.lexeme? text = some lexeme := by
  obtain ⟨candidate, hmem, hcandidate⟩ := List.exists_of_findSome?_eq_some h
  obtain ⟨found, hfound, heq⟩ := Option.map_eq_some_iff.1 hcandidate
  cases heq
  exact ⟨hmem, hfound⟩

/-- A comment is taken for one that is never closed only where it is not closed. -/
theorem throughClose?_eq_none_of_match {rest lexeme : List Char}
    (h : firstMatch? ('/' :: '*' :: rest) = some (.openComment, lexeme)) :
    throughClose? rest = none := by
  rw [Option.eq_none_iff_forall_ne_some]
  intro inner hinner
  have hblank : Text.isBlank '/' = false := by decide
  simp [firstMatch?, patterns, Pattern.lexeme?, hblank, nonempty?, hinner] at h

/-- The shape takes blanks or a comment, and no lexeme of a token. -/
def Pattern.isTrivial : Pattern → Bool
  | .blanks | .lineComment | .closedComment | .openComment => true
  | _ => false

/-- A shape for blanks or comments takes trivia. -/
theorem trivia_of_match {pattern : Pattern} {text lexeme after : List Char}
    (h : firstMatch? text = some (pattern, lexeme)) (htext : text = lexeme ++ after)
    (htrivial : pattern.isTrivial = true) : Trivia lexeme after := by
  obtain ⟨-, hlexeme⟩ := firstMatch?_eq_some h
  revert hlexeme h htrivial
  fun_cases Pattern.lexeme? pattern text <;> intro h htrivial hlexeme
  case case1 =>
    obtain ⟨rfl, -⟩ := nonempty?_eq_some hlexeme
    exact .blanks fun c hmem => List.mem_takeWhile_imp hmem
  case case2 rest =>
    cases hlexeme
    have hafter : rest.takeWhile (· != '\n') ++ rest.dropWhile (· != '\n') =
        rest.takeWhile (· != '\n') ++ after := by
      rw [List.takeWhile_append_dropWhile]
      simpa using htext
    obtain rfl := List.append_cancel_left hafter
    exact .lineComment (newline_not_mem_takeWhile rest) (head?_dropWhile_newline rest)
  case case4 rest =>
    obtain ⟨inner, hinner, rfl⟩ := Option.map_eq_some_iff.1 hlexeme
    obtain ⟨-, body, rfl, hbody⟩ := throughClose?_eq_some hinner
    exact .closedComment hbody
  case case6 rest =>
    cases hlexeme
    obtain rfl : after = [] := List.append_right_eq_self.1 htext.symm
    exact .openComment (throughClose?_eq_none (throughClose?_eq_none_of_match h))
  case case3 | case5 | case7 => cases hlexeme
  all_goals cases htrivial

/-! ### Lexemes in one line -/

/-- The shape takes a word, a number or a punctuation mark. -/
def Pattern.isInline : Pattern → Bool
  | .word | .marked _ | .fraction | .digits | .fixed _ _ => true
  | _ => false

/-- A newline is no part of a number in any base. -/
theorem isDigit_newline (radix : Numeral.Radix) : radix.isDigit '\n' = false := by
  cases radix <;> decide

/-- A newline is no base mark. -/
theorem isMark_newline (radix : Numeral.Radix) : radix.isMark '\n' = false := by
  cases radix <;> decide

/-- A run of characters other than newlines holds none. -/
theorem newline_not_mem_run {p : Char → Bool} (h : p '\n' = false) (text : List Char) :
    '\n' ∉ text.takeWhile p := by
  intro hmem
  rw [List.mem_takeWhile_imp hmem] at h
  cases h

/-- The spelling of a punctuation mark. -/
def Pattern.spelling? : Pattern → Option String
  | .fixed spelling _ => some spelling
  | _ => none

/-- No punctuation mark holds a blank. -/
theorem not_blank_of_fixed {spelling : String} {kind : Kind} (h : .fixed spelling kind ∈ patterns) :
    ∀ c ∈ spelling.toList, Text.isBlank c = false := by
  have hall : ((patterns.filterMap Pattern.spelling?).all fun spelling =>
      spelling.toList.all fun c => !Text.isBlank c) = true := by decide
  have hspelling := List.all_eq_true.1 hall spelling (List.mem_filterMap.2 ⟨_, h, rfl⟩)
  simpa using hspelling

/-- Words, numbers and punctuation marks stand in one line. -/
theorem newline_not_mem_lexeme {pattern : Pattern} {text lexeme : List Char}
    (hmem : pattern ∈ patterns) (h : pattern.lexeme? text = some lexeme)
    (hinline : pattern.isInline = true) : '\n' ∉ lexeme := by
  have hdigits (text : List Char) : '\n' ∉ text.takeWhile Char.isDigit :=
    newline_not_mem_run (by decide) text
  revert hmem h hinline
  fun_cases Pattern.lexeme? pattern text <;> intro hmem h hinline
  case case8 c rest hstart =>
    cases h
    refine List.not_mem_cons_of_ne_of_not_mem ?_ (newline_not_mem_run (by decide) rest)
    rintro rfl
    exact absurd hstart (by decide)
  case case11 radix mark rest hmark =>
    obtain ⟨run, hrun, rfl⟩ := Option.map_eq_some_iff.1 h
    obtain ⟨rfl, -⟩ := nonempty?_eq_some hrun
    have hrest := newline_not_mem_run (isDigit_newline radix) rest
    refine List.not_mem_cons_of_ne_of_not_mem (by decide)
      (List.not_mem_cons_of_ne_of_not_mem ?_ hrest)
    rintro rfl
    rw [isMark_newline] at hmark
    cases hmark
  case case14 =>
    obtain ⟨whole, hwhole, h⟩ := Option.bind_eq_some_iff.1 h
    obtain ⟨rfl, -⟩ := nonempty?_eq_some hwhole
    split at h
    · next rest _ =>
      obtain ⟨part, hpart, rfl⟩ := Option.map_eq_some_iff.1 h
      obtain ⟨rfl, -⟩ := nonempty?_eq_some hpart
      simp [hdigits]
    · cases h
  case case15 =>
    obtain ⟨rfl, -⟩ := nonempty?_eq_some h
    exact hdigits text
  case case22 =>
    obtain ⟨rfl, -⟩ := nonempty?_eq_some h
    exact fun hnewline => absurd (not_blank_of_fixed hmem _ hnewline) (by decide)
  all_goals first | exact absurd hinline Bool.false_ne_true | cases h

/-- Where no shape fits, there is no newline, since that is a blank. -/
theorem ne_newline_of_firstMatch?_eq_none {c : Char} {rest : List Char}
    (h : firstMatch? (c :: rest) = none) : c ≠ '\n' := by
  rintro rfl
  have hblank : Text.isBlank '\n' = true := by decide
  simp [firstMatch?, patterns, Pattern.lexeme?, nonempty?, hblank] at h

/-! ### The kinds of tokens -/

/-- The kind of a punctuation mark. -/
def Pattern.fixedKind? : Pattern → Option Kind
  | .fixed _ kind => some kind
  | _ => none

end Lexeme

/-- Tokens of the kind hold their lexeme as it stands, and no problem comes with them. -/
def Kind.isVerbatim (kind : Kind) : Bool :=
  kind != .eof && kind != .illegal && kind != .string

/-- Only ends of input, illegal tokens and strings do not hold their lexemes as they stand. -/
theorem Kind.isVerbatim_iff {kind : Kind} :
    kind.isVerbatim = true ↔ kind ≠ .eof ∧ kind ≠ .illegal ∧ kind ≠ .string := by
  simp [isVerbatim, and_assoc]

/-- Punctuation marks hold their lexemes as they stand. -/
theorem isVerbatim_of_fixed {spelling : String} {kind : Kind}
    (h : .fixed spelling kind ∈ patterns) : kind.isVerbatim = true := by
  have hall : ∀ kind ∈ patterns.filterMap Pattern.fixedKind?, kind.isVerbatim = true := by decide
  exact hall kind (List.mem_filterMap.2 ⟨_, h, rfl⟩)

/-- There are two quotes. -/
theorem quote_of_quoted {quote : Char} (h : .quoted quote ∈ patterns) :
    quote = '\x22' ∨ quote = '\x27' := by
  simpa [patterns] using h

/-- Words hold their lexemes as they stand. -/
theorem isVerbatim_wordKind (word : String) (after : List Char) :
    (Lexer.wordKind word after).isVerbatim = true := by
  unfold Lexer.wordKind
  split
  · rfl
  · cases hword : Kind.ofWord? word with
    | none => rfl
    | some kind =>
      have hall : ∀ entry ∈ Kind.words, entry.2.isVerbatim = true := by decide
      obtain ⟨before, after, hsplit, -⟩ := List.lookup_eq_some_iff.1 hword
      exact hall (word, kind) (by simp [hsplit])

/-- The token stands for the lexeme: it holds it as it is, or, for a string, what is between its
quotes with the escapes resolved. -/
def Token.StandsFor (token : Token) (lexeme : List Char) : Prop :=
  if token.kind = .string then
    ∃ quote contents, (quote = '\x22' ∨ quote = '\x27') ∧ lexeme = quote :: (contents ++ [quote]) ∧
      token.value = String.ofList (unescape contents)
  else lexeme ≠ [] ∧ token.value = String.ofList lexeme

/-- A token other than a string stands for the lexeme that is its value. -/
theorem Token.standsFor_of_ne {token : Token} {lexeme : List Char} (hkind : token.kind ≠ .string)
    (hne : lexeme ≠ []) (hvalue : token.value = String.ofList lexeme) : token.StandsFor lexeme := by
  rw [StandsFor, if_neg hkind]
  exact ⟨hne, hvalue⟩

namespace Lexer

/-! ## One scan -/

/-- The cursor has moved over a piece of the text and counted its newlines. -/
structure Passes (lexer : Lexer) (piece : List Char) (after : Lexer) : Prop where
  rest_eq : lexer.rest = piece ++ after.rest
  skew_eq : after.skew = lexer.skew
  line_eq : after.line = lexer.line + Text.newlines piece

/-- What a scan can come to: it passes trivia, or the lexeme of a token, which then waits behind
those that waited before. With an illegal token comes a problem. -/
inductive Scans (lexer after : Lexer) : Prop
  | trivia {piece : List Char} (hpasses : lexer.Passes piece after) (hne : piece ≠ [])
      (htrivia : Trivia piece after.rest) (hpending : after.pending = lexer.pending)
      (herrors : after.errors = lexer.errors)
  | token {lexeme : List Char} {token : Token} {added : List Diagnostic}
      (hpasses : lexer.Passes lexeme after) (hne : lexeme ≠ []) (hstands : token.StandsFor lexeme)
      (hline : token.line = lexer.line) (hkind : token.kind ≠ .eof)
      (hpending : after.pending = lexer.pending ++ [token])
      (herrors : after.errors = lexer.errors ++ added)
      (hadded : added.length = if token.kind = .illegal then 1 else 0)

variable {lexer middle after : Lexer} {token : Token}

/-- A piece at the cursor is passed. -/
theorem passes_pass {piece : List Char} (h : piece <+: lexer.rest) :
    lexer.Passes piece (lexer.pass piece) := by
  obtain ⟨tail, htail⟩ := h
  refine ⟨?_, rfl, rfl⟩
  rw [pass, move, ← htail, List.drop_left]

/-- Over a piece without a newline it does not matter whether newlines are counted. -/
theorem move_eq_pass {piece : List Char} (h : '\n' ∉ piece) :
    lexer.move piece = lexer.pass piece := by
  rw [pass, Text.newlines, List.count_eq_zero_of_not_mem h]
  rfl

/-- A lexeme in one line that its token holds as it stands. -/
theorem scans_verbatim {lexeme : List Char} {kind : Kind} (hfront : lexeme <+: lexer.rest)
    (hne : lexeme ≠ []) (hline : '\n' ∉ lexeme) (hkind : kind.isVerbatim = true) :
    lexer.Scans ((lexer.move lexeme).push ⟨kind, String.ofList lexeme, lexer.line⟩) := by
  obtain ⟨heof, hillegal, hstring⟩ := Kind.isVerbatim_iff.1 hkind
  have hpasses := passes_pass hfront
  rw [move_eq_pass hline]
  refine .token ⟨hpasses.rest_eq, rfl, rfl⟩ hne (Token.standsFor_of_ne hstring hne rfl) rfl heof rfl
    (List.append_nil _).symm ?_
  simp [hillegal]

/-- A text that is no lexeme. -/
theorem scans_reject {text : List Char} (cause : Cause) (hfront : text <+: lexer.rest)
    (hne : text ≠ []) : lexer.Scans ((lexer.pass text).reject cause text lexer.line) := by
  have hpasses := passes_pass hfront
  have hstands : Token.StandsFor ⟨.illegal, String.ofList text, lexer.line⟩ text :=
    Token.standsFor_of_ne (by simp) hne rfl
  exact .token ⟨hpasses.rest_eq, rfl, rfl⟩ hne hstands rfl (by simp) rfl rfl rfl

/-- A string literal. -/
theorem scans_quoted {quote : Char} {lexeme : List Char}
    (hlexeme : (Pattern.quoted quote).lexeme? lexer.rest = some lexeme)
    (hquote : quote = '\x22' ∨ quote = '\x27') :
    lexer.Scans ((lexer.pass lexeme).push
      ⟨.string, String.ofList (unescape lexeme.tail.dropLast), lexer.line⟩) := by
  have hpasses := passes_pass (lexeme?_isPrefix hlexeme)
  obtain ⟨contents, rfl⟩ := exists_contents_of_quoted hlexeme
  refine .token ⟨hpasses.rest_eq, rfl, rfl⟩ (List.cons_ne_nil _ _) ?_ rfl (by simp) rfl
    (List.append_nil _).symm (by simp)
  rw [Token.StandsFor, if_pos rfl]
  exact ⟨quote, contents, hquote, rfl, by simp⟩

/-- Whatever shape fits, its lexeme is trivia or becomes one token. -/
theorem accept_scans {pattern : Pattern} {lexeme : List Char}
    (h : firstMatch? lexer.rest = some (pattern, lexeme)) :
    lexer.Scans (lexer.accept pattern lexeme) := by
  obtain ⟨hmem, hlexeme⟩ := firstMatch?_eq_some h
  have hfront := lexeme?_isPrefix hlexeme
  have hne := firstMatch?_ne_nil h
  have hpasses := passes_pass hfront
  have htrivia : pattern.isTrivial = true → lexer.Scans (lexer.pass lexeme) := fun htrivial =>
    .trivia hpasses hne (trivia_of_match h hpasses.rest_eq htrivial) rfl rfl
  have hinline := newline_not_mem_lexeme hmem hlexeme
  cases pattern with
  | blanks => exact htrivia rfl
  | lineComment => exact htrivia rfl
  | closedComment => exact htrivia rfl
  | openComment => exact htrivia rfl
  | word => exact scans_verbatim hfront hne (hinline rfl) (isVerbatim_wordKind _ _)
  | marked radix => exact scans_verbatim hfront hne (hinline rfl) rfl
  | fraction => exact scans_verbatim hfront hne (hinline rfl) rfl
  | digits => exact scans_verbatim hfront hne (hinline rfl) rfl
  | quoted quote => exact scans_quoted hlexeme (quote_of_quoted hmem)
  | strayQuote =>
    refine scans_reject _ List.prefix_rfl fun hnil => ?_
    rw [hnil] at hfront
    exact hne (List.prefix_nil.1 hfront)
  | fixed spelling kind =>
    exact scans_verbatim hfront hne (hinline rfl) (isVerbatim_of_fixed hmem)

/-- Before the end of the text, a scan takes a piece of it that is not empty. -/
theorem scan_scans (h : lexer.rest ≠ []) : lexer.Scans lexer.scan := by
  unfold scan
  split
  · next hmatch => exact accept_scans hmatch
  · next hnone =>
    split
    · next hnil => exact absurd hnil h
    · next c rest hcons =>
      rw [hcons] at hnone
      have hne := ne_newline_of_firstMatch?_eq_none hnone
      rw [move_eq_pass (by simpa using hne.symm)]
      exact scans_reject _ (by simp [hcons]) (List.cons_ne_nil _ _)

/-! ## One token -/

/-- What a call for a token comes to: it passes a gap and the lexeme of the token, or a gap up to
the end of the text. Nothing is left waiting. -/
inductive Hands (lexer : Lexer) : Token → Lexer → Prop
  | eof {gap : List Char} {after : Lexer} (hpasses : lexer.Passes gap after) (hgap : Gap gap [])
      (hrest : after.rest = []) (hpending : after.pending = [])
      (herrors : after.errors = lexer.errors) :
      Hands lexer (Token.eof after.line) after
  | token {gap lexeme : List Char} {token : Token} {after : Lexer} {added : List Diagnostic}
      (hpasses : lexer.Passes (gap ++ lexeme) after) (hgap : Gap gap (lexeme ++ after.rest))
      (hstands : token.StandsFor lexeme) (hline : token.line = lexer.line + Text.newlines gap)
      (hkind : token.kind ≠ .eof) (hpending : after.pending = [])
      (herrors : after.errors = lexer.errors ++ added)
      (hadded : added.length = if token.kind = .illegal then 1 else 0) :
      Hands lexer token after

/-- A cursor that does not move passes nothing. -/
theorem Passes.refl : lexer.Passes [] lexer :=
  ⟨rfl, rfl, rfl⟩

/-- A cursor that passes one piece after the other passes both. -/
theorem Passes.trans {piece more : List Char} (h₁ : lexer.Passes piece middle)
    (h₂ : middle.Passes more after) : lexer.Passes (piece ++ more) after := by
  constructor
  · rw [h₁.rest_eq, h₂.rest_eq, List.append_assoc]
  · rw [h₂.skew_eq, h₁.skew_eq]
  · rw [h₂.line_eq, h₁.line_eq, Text.newlines_append, Nat.add_assoc]

/-- Trivia in front belongs to the gap. -/
theorem Hands.of_trivia {piece : List Char} (h : middle.Hands token after)
    (hpasses : lexer.Passes piece middle) (htrivia : Trivia piece middle.rest)
    (herrors : middle.errors = lexer.errors) : lexer.Hands token after := by
  cases h with
  | @eof gap _ hmore hgap hrest hpending hnone =>
    have hpiece : Trivia piece (gap ++ []) := by rwa [hmore.rest_eq, hrest] at htrivia
    exact .eof (hpasses.trans hmore) (hgap.cons hpiece) hrest hpending (hnone.trans herrors)
  | @token gap lexeme _ _ added hmore hgap hstands hline hkind hpending hsome hadded =>
    have hall := hpasses.trans hmore
    rw [← List.append_assoc] at hall
    have hpiece : Trivia piece (gap ++ (lexeme ++ after.rest)) := by
      rwa [hmore.rest_eq, List.append_assoc] at htrivia
    refine .token hall (hgap.cons hpiece) hstands ?_ hkind hpending (by rw [hsome, herrors]) hadded
    rw [hline, hpasses.line_eq, Text.newlines_append, Nat.add_assoc]

/-- Nothing waits, and the cursor stands before a character or at the end. -/
structure Ready (lexer : Lexer) : Prop where
  pending_eq : lexer.pending = []
  skew_eq : lexer.skew = 0

/-- A cursor that hands out a token stays before a character or at the end. -/
theorem Hands.ready (hready : lexer.Ready) (h : lexer.Hands token after) : after.Ready := by
  cases h with
  | eof hpasses _ _ hpending _ => exact ⟨hpending, hpasses.skew_eq.trans hready.skew_eq⟩
  | token hpasses _ _ _ _ hpending _ _ => exact ⟨hpending, hpasses.skew_eq.trans hready.skew_eq⟩

/-- A lexer that is ready hands out a token. -/
theorem next?_hands (hready : lexer.Ready) :
    ∃ token after, lexer.next? = some (token, after) ∧ lexer.Hands token after := by
  obtain ⟨hpending, hskew⟩ := hready
  induction hlength : lexer.rest.length using Nat.strongRecOn generalizing lexer with
  | ind length ih =>
    by_cases hrest : lexer.rest = []
    · refine ⟨_, _, next?_of_atEnd hpending hrest, ?_⟩
      exact .eof .refl .nil hrest hpending rfl
    rw [next?_of_scan hpending hrest hskew]
    have hshorter := scan_length_lt lexer hrest
    cases scan_scans hrest with
    | trivia hpasses hne htrivia hwaits herrors =>
      obtain ⟨token, after, hnext, hhands⟩ := ih _ (hlength ▸ hshorter) (hwaits.trans hpending)
        (hpasses.skew_eq.trans hskew) rfl
      exact ⟨token, after, hnext, hhands.of_trivia hpasses htrivia herrors⟩
    | @token lexeme token added hpasses hne hstands hline hkind hwaits herrors hadded =>
      rw [hpending] at hwaits
      refine ⟨token, _, next?_of_pending hwaits, ?_⟩
      have hall : lexer.Passes ([] ++ lexeme) { lexer.scan with pending := [] } :=
        ⟨hpasses.rest_eq, hpasses.skew_eq, hpasses.line_eq⟩
      exact .token hall .nil hstands hline hkind rfl herrors hadded

end Lexer

end ScriptFront
