import Mathlib.Data.List.Chain
import ScriptFront.Proofs.Lexer.Printed
import ScriptFront.Proofs.Lexer.Scans

/-!
# Layout makes no difference

* `Filler`, `Separator` — blanks and closed comments, and such a text that starts on a blank.
* `IsLexeme` — the text is a word, a number, a closed string literal or a punctuation mark.
* `LaidOut` — a text in which separators stand between lexemes.
* `firstMatch?_lexeme` — in front of a blank, and at the end of a text, every lexeme is taken whole.
* `next?_filler` — a cursor in front of a filler finds what one behind it does.
* `layout_free` — a text that is laid out has one token for each lexeme, of the kind and the value
  that the lexeme has on its own.
-/

namespace ScriptFront

open Lexeme

/-- The newlines of a text are those of its first character and those behind. -/
theorem Text.newlines_cons (c : Char) (text : List Char) :
    newlines (c :: text) = newlines [c] + newlines text :=
  newlines_append [c] text

/-! ## Layouts -/

/-- Blanks, comments up to the end of their lines, and comments that are closed, in any order. -/
inductive Filler : List Char → Prop
  | nil : Filler []
  | blank {c : Char} {more : List Char} (hblank : Text.isBlank c = true) (h : Filler more) :
      Filler (c :: more)
  | lineComment {body more : List Char} (hbody : '\n' ∉ body) (h : Filler more) :
      Filler ('/' :: '/' :: (body ++ '\n' :: more))
  | closedComment {body more : List Char} (hbody : ¬ closeMark <:+: body) (h : Filler more) :
      Filler ('/' :: '*' :: (body ++ closeMark ++ more))

/-- A blank and any filler behind it. -/
inductive Separator : List Char → Prop
  | mk {c : Char} {more : List Char} (hblank : Text.isBlank c = true) (h : Filler more) :
      Separator (c :: more)

/-- The shape is that of a token that can be read without a problem. -/
def Lexeme.Pattern.isSolid : Pattern → Bool
  | .word | .marked _ | .fraction | .digits | .quoted _ | .fixed _ _ => true
  | .blanks | .lineComment | .closedComment | .openComment | .strayQuote => false

/-- The whole text is a word, a number, a closed string literal or a punctuation mark. -/
def IsLexeme (text : String) : Prop :=
  ∃ pattern ∈ patterns, pattern.isSolid = true ∧ pattern.lexeme? text.toList = some text.toList

instance (text : String) : Decidable (IsLexeme text) :=
  inferInstanceAs (Decidable (∃ _ ∈ _, _))

/-- The text consists of the lexemes with a separator between any two, and maybe one at the end. -/
inductive Spaced : List String → List Char → Prop
  | nil : Spaced [] []
  | last (lexeme : String) : Spaced [lexeme] lexeme.toList
  | cons {lexeme : String} {lexemes : List String} {separator rest : List Char}
      (hseparator : Separator separator) (h : Spaced lexemes rest) :
      Spaced (lexeme :: lexemes) (lexeme.toList ++ (separator ++ rest))

/-- The same with a separator in front, or without. -/
inductive LaidOut : List String → List Char → Prop
  | flush {lexemes : List String} {text : List Char} (h : Spaced lexemes text) :
      LaidOut lexemes text
  | indented {lexemes : List String} {separator text : List Char} (hseparator : Separator separator)
      (h : Spaced lexemes text) : LaidOut lexemes (separator ++ text)

namespace Lexeme

/-! ## A lexeme in front of a blank -/

/-- Nothing follows, or a blank does. -/
def Breaks (rest : List Char) : Prop :=
  ∀ c ∈ rest.head?, Text.isBlank c = true

/-- At the end of a text, nothing follows. -/
theorem breaks_nil : Breaks [] :=
  nofun

/-- A separator in front breaks. -/
theorem Breaks.of_separator {separator : List Char} (h : Separator separator) (rest : List Char) :
    Breaks (separator ++ rest) := by
  obtain ⟨hblank, _⟩ := h
  intro c hc
  cases hc
  exact hblank

/-- No character that goes on with a word or a number is blank. -/
theorem isWordPart_eq_false_of_isBlank {c : Char} (h : Text.isBlank c = true) :
    isWordPart c = false := by
  by_contra hword
  rw [Bool.not_eq_false] at hword
  have hrange := isWordPart_range hword
  rw [Text.isBlank_eq_false_of_range (by omega) (by omega)] at h
  cases h

/-- What breaks cannot be taken for more of a name or a number. -/
theorem Breaks.follows {rest : List Char} (h : Breaks rest) : Follows rest := by
  constructor
  · intro c hc
    exact isWordPart_eq_false_of_isBlank (h c hc)
  · rintro c tail rfl
    have hpoint := h '.' rfl
    contradiction

/-- What breaks does not begin with a digit. -/
theorem Breaks.isDigit_eq {rest : List Char} (h : Breaks rest) :
    ∀ c ∈ rest.head?, c.isDigit = false := by
  intro c hc
  have hword := isWordPart_eq_false_of_isBlank (h c hc)
  by_contra hdigit
  rw [Bool.not_eq_false] at hdigit
  rw [isWordPart_iff.2 (.inr hdigit)] at hword
  cases hword

/-- Blanks behind a text make nothing stand at its front that did not stand there before. -/
theorem isPrefixOf_append_of_breaks {spelling text rest : List Char}
    (hspelling : ∀ c ∈ spelling, Text.isBlank c = false) (hrest : Breaks rest) :
    spelling.isPrefixOf (text ++ rest) = spelling.isPrefixOf text := by
  induction spelling generalizing text with
  | nil => simp
  | cons c spelling ih =>
    have htail := fun {text} => @ih text fun d hd => hspelling d (List.mem_cons_of_mem c hd)
    cases text with
    | cons d text => simp [List.isPrefixOf, htail]
    | nil =>
      cases rest with
      | nil => rfl
      | cons d rest =>
        have hne : c ≠ d := by
          rintro rfl
          have hblank := hrest c rfl
          rw [hspelling c List.mem_cons_self] at hblank
          cases hblank
        simp [List.isPrefixOf, hne]

/-! ### Punctuation -/

/-- The text starts like a punctuation mark: not on a blank, a letter, a digit or a quote, and not
like a comment. -/
def isPunctuation : List Char → Bool
  | [] => false
  | c :: tail =>
    !Text.isBlank c && !isWordPart c && c != '\x22' && c != '\x27' &&
      !(['/', '/'].isPrefixOf (c :: tail)) && !(['/', '*'].isPrefixOf (c :: tail))

/-- Without two slashes in front, there is no line comment. -/
theorem lexeme?_lineComment_eq_none {text : List Char} (h : ['/', '/'].isPrefixOf text = false) :
    Pattern.lineComment.lexeme? text = none := by
  unfold Pattern.lexeme?
  split <;> simp_all

/-- Without its opening mark in front, there is no bracketed comment. -/
theorem lexeme?_closedComment_eq_none {text : List Char} (h : ['/', '*'].isPrefixOf text = false) :
    Pattern.closedComment.lexeme? text = none ∧ Pattern.openComment.lexeme? text = none := by
  constructor
  · unfold Pattern.lexeme?
    split <;> simp_all
  · unfold Pattern.lexeme?
    split <;> simp_all

/-- Where a text starts like a punctuation mark, no other shape fits. -/
theorem lexeme?_eq_none_of_isPunctuation {text : List Char} (htext : isPunctuation text = true)
    {pattern : Pattern} (hmem : pattern ∈ patterns)
    (hfixed : ∀ spelling kind, pattern ≠ .fixed spelling kind) : pattern.lexeme? text = none := by
  cases text with
  | nil => cases htext
  | cons c tail =>
    simp only [isPunctuation, Bool.and_eq_true, Bool.not_eq_true', bne_iff_ne, ne_eq] at htext
    obtain ⟨⟨⟨⟨⟨hblank, hword⟩, hdouble⟩, hsingle⟩, hline⟩, hcomment⟩ := htext
    have hneither : isWordStart c = false ∧ c.isDigit = false := by
      rw [Bool.eq_false_iff, ne_eq, isWordPart_iff, not_or] at hword
      simpa using hword
    obtain ⟨hstart, hdigit⟩ := hneither
    cases pattern with
    | blanks => simp [Pattern.lexeme?, hblank, nonempty?]
    | lineComment => exact lexeme?_lineComment_eq_none hline
    | closedComment => exact (lexeme?_closedComment_eq_none hcomment).1
    | openComment => exact (lexeme?_closedComment_eq_none hcomment).2
    | word => simp [Pattern.lexeme?, hstart]
    | marked radix =>
      apply lexeme?_marked_of_not_mark
      rintro mark tail heq
      cases heq
      cases hdigit
    | fraction => simp [Pattern.lexeme?, hdigit, nonempty?]
    | digits => simp [Pattern.lexeme?, hdigit, nonempty?]
    | quoted quote =>
      have hquote : c ≠ quote := by
        rintro rfl
        rcases quote_of_quoted hmem with rfl | rfl
        · exact hdouble rfl
        · exact hsingle rfl
      simp [Pattern.lexeme?, hquote]
    | strayQuote => simp [Pattern.lexeme?, hdouble, hsingle]
    | fixed spelling kind => exact absurd rfl (hfixed spelling kind)

/-- Blanks behind a punctuation mark do not change which shape fits first. -/
theorem firstMatch?_append_of_isPunctuation {text rest : List Char}
    (htext : isPunctuation text = true) (hrest : Breaks rest) :
    firstMatch? (text ++ rest) = firstMatch? text := by
  have hwhole : isPunctuation (text ++ rest) = true := by
    cases text with
    | nil => cases htext
    | cons c tail =>
      have hline : ∀ c ∈ ['/', '/'], Text.isBlank c = false := by simp; decide
      have hcomment : ∀ c ∈ ['/', '*'], Text.isBlank c = false := by simp; decide
      rw [isPunctuation] at htext
      rw [List.cons_append, isPunctuation, ← List.cons_append,
        isPrefixOf_append_of_breaks hline hrest, isPrefixOf_append_of_breaks hcomment hrest]
      exact htext
  unfold firstMatch?
  rw [← List.head?_filterMap, ← List.head?_filterMap]
  apply congrArg
  apply List.filterMap_congr
  intro pattern hmem
  by_cases hfixed : ∀ spelling kind, pattern ≠ .fixed spelling kind
  · rw [lexeme?_eq_none_of_isPunctuation hwhole hmem hfixed,
      lexeme?_eq_none_of_isPunctuation htext hmem hfixed]
  · simp only [not_forall, not_not] at hfixed
    obtain ⟨spelling, kind, rfl⟩ := hfixed
    simp only [Pattern.lexeme?, isPrefixOf_append_of_breaks (not_blank_of_fixed hmem) hrest]

/-- The shape fits its own spelling first, and the spelling starts like a punctuation mark. -/
def Pattern.isOwnMatch : Pattern → Bool
  | .fixed spelling kind =>
    isPunctuation spelling.toList &&
      firstMatch? spelling.toList == some (.fixed spelling kind, spelling.toList)
  | _ => true

/-- In front of a blank, a punctuation mark is taken whole. -/
theorem firstMatch?_fixed {spelling : String} {kind : Kind} (h : .fixed spelling kind ∈ patterns)
    {rest : List Char} (hrest : Breaks rest) :
    firstMatch? (spelling.toList ++ rest) = some (.fixed spelling kind, spelling.toList) := by
  have hall : ∀ pattern ∈ patterns, pattern.isOwnMatch = true := by decide +kernel
  have hown := hall _ h
  simp only [Pattern.isOwnMatch, Bool.and_eq_true, beq_iff_eq] at hown
  rw [firstMatch?_append_of_isPunctuation hown.1 hrest, hown.2]

/-! ### Numbers with a fraction, and strings -/

/-- A number with a fraction is digits, a point and digits. -/
theorem exists_of_fraction {text lexeme : List Char}
    (h : Pattern.fraction.lexeme? text = some lexeme) :
    ∃ whole part, lexeme = whole ++ '.' :: part ∧ whole ≠ [] ∧ part ≠ [] ∧
      (∀ c ∈ whole, c.isDigit = true) ∧ ∀ c ∈ part, c.isDigit = true := by
  simp only [Pattern.lexeme?, Option.bind_eq_some_iff] at h
  obtain ⟨whole, hwhole, h⟩ := h
  obtain ⟨rfl, hne⟩ := nonempty?_eq_some hwhole
  split at h
  · next rest _ =>
    obtain ⟨part, hpart, hsplit⟩ := Option.map_eq_some_iff.1 h
    obtain ⟨rfl, hne'⟩ := nonempty?_eq_some hpart
    exact ⟨_, _, hsplit.symm, hne, hne', fun c hc => List.mem_takeWhile_imp hc, fun c hc =>
      List.mem_takeWhile_imp hc⟩
  · cases h

/-- In front of a blank, a number with a fraction is taken whole. -/
theorem firstMatch?_fraction {text rest : List Char}
    (h : Pattern.fraction.lexeme? text = some text) (hrest : Breaks rest) :
    firstMatch? (text ++ rest) = some (.fraction, text) := by
  obtain ⟨whole, part, rfl, hne, hne', hwhole, hpart⟩ := exists_of_fraction h
  have hfirst : (whole ++ '.' :: (part ++ rest)).takeWhile Char.isDigit = whole :=
    takeWhile_append_of_head hwhole (by simp)
  have hbehind : (whole ++ '.' :: (part ++ rest)).dropWhile Char.isDigit =
    '.' :: (part ++ rest) := by
    rw [List.dropWhile_append_of_pos hwhole]
    rfl
  have hsecond : (part ++ rest).takeWhile Char.isDigit = part :=
    takeWhile_append_of_head hpart hrest.isDigit_eq
  have hthis : Pattern.fraction.lexeme? (whole ++ '.' :: (part ++ rest)) =
      some (whole ++ '.' :: part) := by
    simp [Pattern.lexeme?, hfirst, hbehind, hsecond, nonempty?, hne, hne']
  -- behind a zero there is a digit or the point, and neither is a base mark
  have hmarked : ∀ radix,
      (Pattern.marked radix).lexeme? (whole ++ '.' :: (part ++ rest)) = none := by
    intro radix
    apply lexeme?_marked_of_not_mark
    intro mark tail heq
    by_contra hmark
    rw [Bool.not_eq_false] at hmark
    obtain ⟨hword, hdigit⟩ := isWordPart_of_isMark hmark
    obtain ⟨c, more, rfl⟩ := List.exists_cons_of_ne_nil hne
    cases more with
    | nil =>
      simp only [List.singleton_append, List.cons.injEq] at heq
      rw [← heq.2.1] at hword
      cases hword
    | cons d digits =>
      simp only [List.cons_append, List.cons.injEq] at heq
      rw [← heq.2.1, hwhole d (by simp)] at hdigit
      cases hdigit
  rw [List.append_assoc, List.cons_append]
  obtain ⟨c, digits, rfl⟩ := List.exists_cons_of_ne_nil hne
  rw [List.cons_append] at hthis hmarked ⊢
  rw [firstMatch?_digit (hwhole c List.mem_cons_self)]
  simp only [patterns, List.drop, List.findSome?_cons, hmarked, hthis, Option.map_none,
    Option.map_some, List.cons_append]

/-- A literal that is closed stays closed, whatever follows. -/
theorem throughQuote?_append {quote : Char} {text inner : List Char}
    (h : throughQuote? quote text = some inner) (rest : List Char) :
    throughQuote? quote (text ++ rest) = some inner := by
  fun_induction throughQuote? quote text generalizing inner with
  | case1 => cases h
  | case2 tail =>
    cases h
    simp [throughQuote?.eq_def]
  | case3 => cases h
  | case4 d tail hquote ih =>
    obtain ⟨inner, hinner, rfl⟩ := Option.map_eq_some_iff.1 h
    have hrest := ih hinner
    simp [throughQuote?, hquote, hrest]
  | case5 c tail hquote hslash ih =>
    obtain ⟨inner, hinner, rfl⟩ := Option.map_eq_some_iff.1 h
    have hrest := ih hinner
    rw [List.cons_append, throughQuote?.eq_def]
    simp [hquote, hslash, hrest]

/-- A string literal that is closed is taken whole, whatever follows. -/
theorem firstMatch?_literal {quote : Char} (hmem : .quoted quote ∈ patterns)
    {text : List Char} (h : (Pattern.quoted quote).lexeme? text = some text) (rest : List Char) :
    firstMatch? (text ++ rest) = some (.quoted quote, text) := by
  cases text with
  | nil => cases h
  | cons c inner =>
    simp only [Pattern.lexeme?, Option.ite_none_right_eq_some, Option.map_eq_some_iff,
      List.cons.injEq, true_and, exists_eq_right] at h
    obtain ⟨rfl, hinner⟩ := h
    have hthrough := throughQuote?_append hinner rest
    have hthis : (Pattern.quoted c).lexeme? (c :: (inner ++ rest)) = some (c :: inner) := by
      simp [Pattern.lexeme?, hthrough]
    rw [List.cons_append]
    rcases quote_of_quoted hmem with rfl | rfl
    · have hfront : firstMatch? ('\x22' :: (inner ++ rest)) =
          (patterns.drop 10).findSome? fun pattern =>
            (pattern.lexeme? ('\x22' :: (inner ++ rest))).map fun lexeme => (pattern, lexeme) := rfl
      rw [hfront]
      simp only [patterns, List.drop, List.findSome?_cons, hthis, Option.map_some]
    · have hfront : firstMatch? ('\x27' :: (inner ++ rest)) =
          (patterns.drop 11).findSome? fun pattern =>
            (pattern.lexeme? ('\x27' :: (inner ++ rest))).map fun lexeme => (pattern, lexeme) := rfl
      rw [hfront]
      simp only [patterns, List.drop, List.findSome?_cons, hthis, Option.map_some]

/-! ### All lexemes -/

variable {pattern : Pattern} {text rest : List Char}

/-- In front of a blank, and at the end of a text, every lexeme is taken whole. -/
theorem firstMatch?_lexeme (hmem : pattern ∈ patterns) (hsolid : pattern.isSolid = true)
    (h : pattern.lexeme? text = some text) (hrest : Breaks rest) :
    firstMatch? (text ++ rest) = some (pattern, text) := by
  cases pattern with
  | blanks | lineComment | closedComment | openComment | strayQuote => cases hsolid
  | word => exact firstMatch?_word h hrest.follows
  | marked radix => exact firstMatch?_marked h hrest.follows
  | fraction => exact firstMatch?_fraction h hrest
  | digits => exact firstMatch?_digits h hrest.follows
  | quoted quote => exact firstMatch?_literal hmem h rest
  | fixed spelling kind =>
    simp only [Pattern.lexeme?, Option.ite_none_right_eq_some] at h
    obtain ⟨rfl, -⟩ := nonempty?_eq_some h.2
    exact firstMatch?_fixed hmem hrest

/-- The kind of the token that a lexeme of the shape becomes in front of the given text. -/
def Pattern.kindBefore (pattern : Pattern) (text after : List Char) : Kind :=
  match pattern with
  | .word => Lexer.wordKind (String.ofList text) after
  | .marked _ | .digits => .integer
  | .fraction => .float
  | .quoted _ => .string
  | .fixed _ kind => kind
  | .blanks | .lineComment | .closedComment | .openComment | .strayQuote => .illegal

/-- The value of the token that a lexeme of the shape becomes. -/
def Pattern.valueOf (pattern : Pattern) (text : List Char) : String :=
  match pattern with
  | .quoted _ => String.ofList (unescape text.tail.dropLast)
  | _ => String.ofList text

/-- No lexeme becomes an end of input. -/
theorem Pattern.kindBefore_ne_eof (hmem : pattern ∈ patterns) (text after : List Char) :
    pattern.kindBefore text after ≠ .eof := by
  cases pattern with
  | word => exact (Kind.isVerbatim_iff.1 (isVerbatim_wordKind _ _)).1
  | fixed spelling kind => exact (Kind.isVerbatim_iff.1 (isVerbatim_of_fixed hmem)).1
  | _ => simp [kindBefore]

end Lexeme

namespace Lexer

/-! ## Cursors on any line -/

/-- A cursor on the line in front of the text, with nothing waiting. -/
def onLine (line : Nat) (text : List Char) : Lexer :=
  ⟨[], text, 0, line, []⟩

variable {pattern : Pattern} {piece rest : List Char}

/-- A cursor that passes a piece of its text stands behind it, on the line that its newlines
make. -/
theorem pass_onLine (line : Nat) (piece rest : List Char) :
    (onLine line (piece ++ rest)).pass piece = onLine (line + Text.newlines piece) rest := by
  simp [pass, move, onLine]

/-- Where a lexeme is taken first, it becomes the next token, and the cursor stands behind it. -/
theorem next?_of_match (hsolid : pattern.isSolid = true)
    (hmatch : firstMatch? (piece ++ rest) = some (pattern, piece)) (line : Nat) :
    (onLine line (piece ++ rest)).next? =
      some (⟨pattern.kindBefore piece rest, pattern.valueOf piece, line⟩,
        onLine (line + Text.newlines piece) rest) := by
  have hne : piece ++ rest ≠ [] := by
    simp [firstMatch?_ne_nil hmatch]
  obtain ⟨hmem, hlexeme⟩ := firstMatch?_eq_some hmatch
  have hinline := newline_not_mem_lexeme hmem hlexeme
  have hscan : (onLine line (piece ++ rest)).scan =
      (onLine (line + Text.newlines piece) rest).push
        ⟨pattern.kindBefore piece rest, pattern.valueOf piece, line⟩ := by
    unfold scan
    rw [show (onLine line (piece ++ rest)).rest = piece ++ rest from rfl, hmatch]
    cases pattern with
    | blanks | lineComment | closedComment | openComment | strayQuote => cases hsolid
    | quoted _ =>
      simp only [accept, pass_onLine]
      rfl
    | _ =>
      simp only [accept, move_eq_pass (hinline rfl), pass_onLine]
      rfl
  rw [next?_of_scan rfl hne rfl, hscan]
  exact next?_of_pending rfl

/-- A lexeme in front of a blank, or at the end, becomes one token. -/
theorem tokens_lexeme (hmem : pattern ∈ patterns) (hsolid : pattern.isSolid = true)
    (h : pattern.lexeme? piece = some piece) (hrest : Breaks rest) (line : Nat) :
    (onLine line (piece ++ rest)).tokens =
      (onLine (line + Text.newlines piece) rest).tokens.map
        (⟨pattern.kindBefore piece rest, pattern.valueOf piece, line⟩ :: ·) := by
  have hmatch := firstMatch?_lexeme hmem hsolid h hrest
  rw [tokens_eq, next?_of_match hsolid hmatch]
  simp only [onLine, if_neg (Pattern.kindBefore_ne_eof hmem piece rest)]

/-! ## Fillers -/

/-- Where a gap is taken first, the next token is the one behind it. -/
theorem next?_of_gap (hmatch : firstMatch? (piece ++ rest) = some (pattern, piece))
    (htrivial : pattern.isTrivial = true) (line : Nat) :
    (onLine line (piece ++ rest)).next? = (onLine (line + Text.newlines piece) rest).next? := by
  have hne : piece ++ rest ≠ [] := by
    simp [firstMatch?_ne_nil hmatch]
  have hscan : (onLine line (piece ++ rest)).scan = onLine (line + Text.newlines piece) rest := by
    unfold scan
    rw [show (onLine line (piece ++ rest)).rest = piece ++ rest from rfl, hmatch, ← pass_onLine]
    cases pattern <;> first | rfl | cases htrivial
  rw [next?_of_scan rfl hne rfl, hscan]

/-- A run of blanks is passed at once. -/
theorem next?_blanks (line : Nat) (text : List Char) :
    (onLine line text).next? =
      (onLine (line + Text.newlines (text.takeWhile Text.isBlank))
        (text.dropWhile Text.isBlank)).next? := by
  by_cases hrun : text.takeWhile Text.isBlank = []
  · have hsplit := List.takeWhile_append_dropWhile (p := Text.isBlank) (l := text)
    rw [hrun, List.nil_append] at hsplit
    rw [hrun, hsplit]
    rfl
  · have hmatch : firstMatch? (text.takeWhile Text.isBlank ++ text.dropWhile Text.isBlank) =
        some (.blanks, text.takeWhile Text.isBlank) := by
      have hthis : Pattern.blanks.lexeme? text = some (text.takeWhile Text.isBlank) := by
        simp [Pattern.lexeme?, nonempty?, hrun]
      rw [List.takeWhile_append_dropWhile]
      simp only [firstMatch?, patterns, List.findSome?_cons, hthis, Option.map_some]
    rw [← next?_of_gap hmatch rfl, List.takeWhile_append_dropWhile]

/-- One blank more or less in front makes no difference but for the line. -/
theorem next?_blank {c : Char} (h : Text.isBlank c = true) (line : Nat) (text : List Char) :
    (onLine line (c :: text)).next? = (onLine (line + Text.newlines [c]) text).next? := by
  rw [next?_blanks, next?_blanks (line + Text.newlines [c]) text, List.takeWhile_cons_of_pos h,
    List.dropWhile_cons_of_pos h, Text.newlines_cons, Nat.add_assoc]

/-- A comment is closed by the first mark that closes one. -/
theorem throughClose?_of_closed {body : List Char} (h : ¬ closeMark <:+: body) (rest : List Char) :
    throughClose? (body ++ closeMark ++ rest) = some (body ++ closeMark) := by
  induction body with
  | nil => rfl
  | cons c body ih =>
    have hrest := ih fun hinfix => h (List.infix_cons hinfix)
    rw [List.cons_append, List.cons_append, throughClose?]
    · rw [hrest]
      rfl
    · -- the mark would stand at the front of the body, or start on its last character
      rintro tail rfl htail
      cases body with
      | nil => cases htail
      | cons d body =>
        simp only [List.cons_append, List.cons.injEq] at htail
        rw [htail.1] at h
        exact h ⟨[], body, rfl⟩

/-- A cursor in front of a filler finds what one behind it finds. -/
theorem next?_filler {filler : List Char} (h : Filler filler) (line : Nat) (rest : List Char) :
    (onLine line (filler ++ rest)).next? = (onLine (line + Text.newlines filler) rest).next? := by
  induction h generalizing line with
  | nil => rfl
  | @blank c more hblank _ ih =>
    rw [List.cons_append, next?_blank hblank, ih, Text.newlines_cons c more, Nat.add_assoc]
  | @lineComment body more hbody _ ih =>
    have hrun : (body ++ '\n' :: (more ++ rest)).takeWhile (· != '\n') = body := by
      apply takeWhile_append_of_head
      · intro c hc
        simp only [bne_iff_ne, ne_eq]
        rintro rfl
        exact hbody hc
      · simp
    have hmatch : firstMatch? (('/' :: '/' :: body) ++ '\n' :: (more ++ rest)) =
        some (.lineComment, '/' :: '/' :: body) := by
      calc firstMatch? ('/' :: '/' :: (body ++ '\n' :: (more ++ rest)))
        _ = some (.lineComment,
              '/' :: '/' :: (body ++ '\n' :: (more ++ rest)).takeWhile (· != '\n')) := rfl
        _ = some (.lineComment, '/' :: '/' :: body) := by rw [hrun]
    have hsplit : '/' :: '/' :: (body ++ '\n' :: more) =
      ('/' :: '/' :: body) ++ ['\n'] ++ more := by
      simp
    rw [hsplit, Text.newlines_append, Text.newlines_append, List.append_assoc, List.append_assoc,
      List.singleton_append, next?_of_gap hmatch rfl, next?_blank (by decide), ih, Nat.add_assoc,
      Nat.add_assoc, Nat.add_assoc]
  | @closedComment body more hbody _ ih =>
    have hthrough := throughClose?_of_closed hbody (more ++ rest)
    have hmatch : firstMatch? (('/' :: '*' :: (body ++ closeMark)) ++ (more ++ rest)) =
        some (.closedComment, '/' :: '*' :: (body ++ closeMark)) := by
      calc firstMatch? ('/' :: '*' :: (body ++ closeMark ++ (more ++ rest)))
        _ = (patterns.drop 2).findSome? fun pattern =>
              (pattern.lexeme? ('/' :: '*' :: (body ++ closeMark ++ (more ++ rest)))).map
                fun lexeme => (pattern, lexeme) := rfl
        _ = some (.closedComment, '/' :: '*' :: (body ++ closeMark)) := by
          simp only [patterns, List.drop, List.findSome?_cons, Pattern.lexeme?, hthrough,
            Option.map_some]
    have hsplit : '/' :: '*' :: (body ++ closeMark ++ more) =
        ('/' :: '*' :: (body ++ closeMark)) ++ more := rfl
    rw [hsplit, Text.newlines_append, List.append_assoc, next?_of_gap hmatch rfl, ih, Nat.add_assoc]

/-- A separator makes no token, and only its newlines make a difference. -/
theorem tokens_separator {separator : List Char} (h : Separator separator) (line : Nat)
    (rest : List Char) :
    (onLine line (separator ++ rest)).tokens =
      (onLine (line + Text.newlines separator) rest).tokens := by
  obtain ⟨hblank, hmore⟩ := h
  exact tokens_congr (next?_filler (.blank hblank hmore) line rest)

/-- A text that does not start on a hash has no line for the system. -/
theorem ofText_eq_onLine {text : String} (h : text.toList.head? ≠ some '#') :
    ofText text = onLine 1 text.toList := by
  unfold ofText
  split
  · next htext => simp [htext] at h
  · rfl

end Lexer

/-! ## The first character of a lexeme -/

/-- What a lexeme starts on is no blank and no hash, and an opening parenthesis only when it is all
of the lexeme. -/
def Lexeme.opensAs (c : Char) (lexeme : String) : Bool :=
  !Text.isBlank c && c != '#' && (c != '(' || lexeme == "(")

/-- What can be part of a name opens a lexeme. -/
theorem Lexeme.opensAs_of_isWordPart {c : Char} (h : isWordPart c = true) (lexeme : String) :
    opensAs c lexeme = true := by
  have hrange := isWordPart_range h
  have hblank := Text.isBlank_eq_false_of_range (c := c) (by omega) (by omega)
  have hhash : c ≠ '#' := by
    rintro rfl
    exact absurd hrange (by decide)
  have hparen : c ≠ '(' := by
    rintro rfl
    exact absurd hrange (by decide)
  simp [opensAs, hblank, hhash, hparen]

/-- Every lexeme has a first character, which is one that opens it. -/
theorem IsLexeme.exists_opensAs {lexeme : String} (h : IsLexeme lexeme) :
    ∃ c tail, lexeme.toList = c :: tail ∧ opensAs c lexeme = true := by
  obtain ⟨pattern, hmem, hsolid, hlexeme⟩ := h
  cases pattern with
  | blanks | lineComment | closedComment | openComment | strayQuote => cases hsolid
  | word =>
    obtain ⟨c, run, htext, hstart, -⟩ := exists_of_word hlexeme
    exact ⟨c, run, htext, opensAs_of_isWordPart (isWordPart_iff.2 (.inl hstart)) lexeme⟩
  | marked radix =>
    obtain ⟨mark, run, htext, -⟩ := exists_of_marked hlexeme
    exact ⟨'0', mark :: run, htext, opensAs_of_isWordPart rfl lexeme⟩
  | fraction =>
    obtain ⟨whole, part, htext, hne, -, hwhole, -⟩ := exists_of_fraction hlexeme
    obtain ⟨c, digits, rfl⟩ := List.exists_cons_of_ne_nil hne
    have hdigit := hwhole c List.mem_cons_self
    exact ⟨c, digits ++ '.' :: part, htext,
      opensAs_of_isWordPart (isWordPart_iff.2 (.inr hdigit)) lexeme⟩
  | digits =>
    obtain ⟨hne, hdigits⟩ := forall_of_digits hlexeme
    obtain ⟨c, digits, htext⟩ := List.exists_cons_of_ne_nil hne
    have hdigit := hdigits c (by simp [htext])
    exact ⟨c, digits, htext, opensAs_of_isWordPart (isWordPart_iff.2 (.inr hdigit)) lexeme⟩
  | quoted quote =>
    cases htext : lexeme.toList with
    | nil =>
      rw [htext] at hlexeme
      cases hlexeme
    | cons c tail =>
      rw [htext] at hlexeme
      simp only [Pattern.lexeme?, Option.ite_none_right_eq_some] at hlexeme
      refine ⟨c, tail, rfl, ?_⟩
      rcases quote_of_quoted hmem with rfl | rfl <;> rw [hlexeme.1] <;> rfl
  | fixed spelling kind =>
    have hall : ∀ spelling ∈ patterns.filterMap Pattern.spelling?,
        (spelling.toList.head?.any fun c => opensAs c spelling) = true := by decide
    have hopens := hall spelling (List.mem_filterMap.2 ⟨_, hmem, rfl⟩)
    simp only [Pattern.lexeme?, Option.ite_none_right_eq_some] at hlexeme
    obtain rfl := String.toList_inj.1 (nonempty?_eq_some hlexeme.2).1
    cases htext : spelling.toList with
    | nil => simp [htext] at hopens
    | cons c tail => exact ⟨c, tail, rfl, by simpa [htext] using hopens⟩

/-! ## The word that looks ahead -/

/-- The kind of a lexeme does not depend on what follows, unless it is `import` in front of a
parenthesis. -/
theorem Lexeme.Pattern.kindBefore_eq {pattern : Pattern} {text after : List Char}
    (h : String.ofList text = "import" → (Text.trimStart after).head? ≠ some '(') :
    pattern.kindBefore text after = pattern.kindBefore text [] := by
  cases pattern with
  | word =>
    have hparen : ¬ (String.ofList text = "import" ∧ (Text.trimStart after).head? = some '(') :=
      fun hboth => h hboth.1 hboth.2
    have hnone : ¬ (String.ofList text = "import" ∧ (Text.trimStart []).head? = some '(') := nofun
    simp only [kindBefore, Lexer.wordKind, if_neg hparen, if_neg hnone]
  | _ => rfl

/-- Behind a filler, an opening parenthesis comes first only if it does so without the filler. -/
theorem Filler.head?_trimStart {filler rest : List Char} (h : Filler filler)
    (hparen : (Text.trimStart (filler ++ rest)).head? = some '(') :
    (Text.trimStart rest).head? = some '(' := by
  unfold Text.trimStart at hparen ⊢
  induction h with
  | nil => exact hparen
  | blank hblank _ ih =>
    rw [List.cons_append, List.dropWhile_cons_of_pos hblank] at hparen
    exact ih hparen
  | lineComment | closedComment =>
    rw [List.cons_append, List.dropWhile_cons_of_neg (by decide)] at hparen
    cases hparen

/-- A text of lexemes starts on what its first lexeme starts on. -/
theorem Spaced.exists_opensAs {lexemes : List String} {text : List Char} (h : Spaced lexemes text)
    (hlexemes : ∀ lexeme ∈ lexemes, IsLexeme lexeme) :
    ∀ c ∈ text.head?, ∃ lexeme ∈ lexemes.head?, opensAs c lexeme = true := by
  intro c hc
  cases h with
  | nil => cases hc
  | last lexeme =>
    obtain ⟨d, tail, htext, hopens⟩ := (hlexemes lexeme (by simp)).exists_opensAs
    rw [htext] at hc
    cases hc
    exact ⟨lexeme, rfl, hopens⟩
  | @cons lexeme =>
    obtain ⟨d, tail, htext, hopens⟩ := (hlexemes lexeme (by simp)).exists_opensAs
    rw [htext] at hc
    cases hc
    exact ⟨lexeme, rfl, hopens⟩

/-- Lexemes whose text has an opening parenthesis in front begin with that lexeme. -/
theorem Spaced.head?_eq {lexemes : List String} {text : List Char} (h : Spaced lexemes text)
    (hlexemes : ∀ lexeme ∈ lexemes, IsLexeme lexeme)
    (hparen : (Text.trimStart text).head? = some '(') : lexemes.head? = some "(" := by
  cases text with
  | nil => cases hparen
  | cons c tail =>
    obtain ⟨lexeme, hlexeme, hopens⟩ := h.exists_opensAs hlexemes c rfl
    simp only [opensAs, Bool.and_eq_true, Bool.not_eq_true', Bool.or_eq_true, bne_iff_ne,
      beq_iff_eq] at hopens
    obtain ⟨⟨hblank, -⟩, hwhole⟩ := hopens
    rw [Text.trimStart, List.dropWhile_cons_of_neg (by simp [hblank])] at hparen
    cases hparen
    rw [hwhole.resolve_left fun hne => hne rfl] at hlexeme
    exact hlexeme

/-! ## The tokens of a layout -/

/-- On its own, the lexeme is split into one token, and the token has its kind and its value. -/
def Token.IsOf (lexeme : String) (token : Token) : Prop :=
  ∃ alone line, tokenize lexeme = .ok [alone, Token.eof line] ∧ token.kind = alone.kind ∧
    token.value = alone.value

/-- At the end of the text there is only the end of input. -/
theorem Lexer.tokens_onLine_nil (line : Nat) : (onLine line []).tokens = .ok [Token.eof line] := by
  rw [tokens_eq, next?_of_atEnd rfl rfl]
  rfl

/-- A token that is made of the lexeme as if nothing followed is the one the lexeme has alone. -/
theorem Token.isOf_of_lexeme {lexeme : String} {pattern : Pattern} (hmem : pattern ∈ patterns)
    (hsolid : pattern.isSolid = true) (h : pattern.lexeme? lexeme.toList = some lexeme.toList)
    (line : Nat) :
    Token.IsOf lexeme ⟨pattern.kindBefore lexeme.toList [], pattern.valueOf lexeme.toList,
      line⟩ := by
  obtain ⟨c, tail, htext, hopens⟩ := IsLexeme.exists_opensAs ⟨pattern, hmem, hsolid, h⟩
  have hhash : lexeme.toList.head? ≠ some '#' := by
    simp only [opensAs, Bool.and_eq_true, bne_iff_ne] at hopens
    simpa [htext] using hopens.1.2
  have htokens := Lexer.tokens_lexeme hmem hsolid h breaks_nil 1
  rw [List.append_nil, Lexer.tokens_onLine_nil] at htokens
  refine ⟨⟨_, _, 1⟩, 1 + Text.newlines lexeme.toList, ?_, rfl, rfl⟩
  unfold tokenize
  rw [Lexer.ofText_eq_onLine hhash, htokens]
  rfl

/-- The tokens of spaced lexemes, from a cursor on any line. -/
theorem Spaced.tokens {lexemes : List String} {text : List Char} (h : Spaced lexemes text)
    (hlexemes : ∀ lexeme ∈ lexemes, IsLexeme lexeme)
    (himport : lexemes.IsChain fun lexeme next => ¬ (lexeme = "import" ∧ next = "("))
    (line : Nat) :
    ∃ tokens last, (Lexer.onLine line text).tokens = .ok (tokens ++ [Token.eof last]) ∧
      List.Forall₂ Token.IsOf lexemes tokens := by
  induction h generalizing line with
  | nil => exact ⟨[], line, Lexer.tokens_onLine_nil line, .nil⟩
  | last lexeme =>
    obtain ⟨pattern, hmem, hsolid, hlexeme⟩ := hlexemes lexeme (by simp)
    have htokens := Lexer.tokens_lexeme hmem hsolid hlexeme breaks_nil line
    rw [List.append_nil, Lexer.tokens_onLine_nil] at htokens
    exact ⟨[_], _, htokens, .cons (Token.isOf_of_lexeme hmem hsolid hlexeme line) .nil⟩
  | @cons lexeme lexemes separator rest hseparator h ih =>
    obtain ⟨pattern, hmem, hsolid, hlexeme⟩ := hlexemes lexeme (by simp)
    have hothers : ∀ other ∈ lexemes, IsLexeme other := fun other hother =>
      hlexemes other (List.mem_cons_of_mem lexeme hother)
    have htokens := Lexer.tokens_lexeme hmem hsolid hlexeme (.of_separator hseparator rest) line
    -- what the first lexeme becomes does not depend on the separator behind it
    have hkind : pattern.kindBefore lexeme.toList (separator ++ rest) =
        pattern.kindBefore lexeme.toList [] := by
      apply Pattern.kindBefore_eq
      intro hword hparen
      rw [String.ofList_toList] at hword
      obtain ⟨hblank, hmore⟩ := hseparator
      have hnext := h.head?_eq hothers ((Filler.blank hblank hmore).head?_trimStart hparen)
      obtain ⟨others, rfl⟩ := List.head?_eq_some_iff.1 hnext
      exact (List.isChain_cons_cons.1 himport).1 ⟨hword, rfl⟩
    rw [Lexer.tokens_separator hseparator, hkind] at htokens
    obtain ⟨tokens, last, hrest, hof⟩ := ih hothers himport.tail _
    refine ⟨_ :: tokens, last, ?_, .cons (Token.isOf_of_lexeme hmem hsolid hlexeme line) hof⟩
    rw [htokens, hrest]
    rfl

/-- **Tokens do not depend on layout.** Take lexemes of which no `import` stands right before an
opening parenthesis, and put separators between them, and in front and at the end as you like. The
text is split into one token for each lexeme, in their order, and the end of input. Each token has
the kind and the value that its lexeme has on its own, whatever the separators are. -/
theorem layout_free {lexemes : List String} {text : List Char}
    (hlexemes : ∀ lexeme ∈ lexemes, IsLexeme lexeme)
    (himport : lexemes.IsChain fun lexeme next => ¬ (lexeme = "import" ∧ next = "("))
    (h : LaidOut lexemes text) :
    ∃ tokens last, tokenize (String.ofList text) = .ok (tokens ++ [Token.eof last]) ∧
      List.Forall₂ Token.IsOf lexemes tokens := by
  unfold tokenize
  cases h with
  | flush h =>
    have hhash : text.head? ≠ some '#' := by
      intro hhash
      obtain ⟨lexeme, -, hopens⟩ := h.exists_opensAs hlexemes '#' hhash
      simp [opensAs] at hopens
    rw [Lexer.ofText_eq_onLine (by rwa [String.toList_ofList]), String.toList_ofList]
    exact h.tokens hlexemes himport 1
  | @indented separator text hseparator h =>
    have hhash : (separator ++ text).head? ≠ some '#' := by
      obtain ⟨hblank, -⟩ := hseparator
      rintro hhash
      cases hhash
      cases hblank
    rw [Lexer.ofText_eq_onLine (by rwa [String.toList_ofList]), String.toList_ofList,
      Lexer.tokens_separator hseparator]
    exact h.tokens hlexemes himport _

/-- The law at an import of a name that a comment sets apart from a slash, behind which a comment
follows that is no part of it, and at a string over two lines. -/
theorem layout_free_comments :
    let lexemes : List String := ["import", "a", "/", "'b\nc'"]
    let text : List Char := "import a /*(*/ / // d\n'b\nc'\t".toList
    (∀ lexeme ∈ lexemes, IsLexeme lexeme) ∧
      (lexemes.IsChain fun lexeme next => ¬ (lexeme = "import" ∧ next = "(")) ∧
      LaidOut lexemes text ∧
      ∃ tokens last, tokenize (String.ofList text) = .ok (tokens ++ [Token.eof last]) ∧
        List.Forall₂ Token.IsOf lexemes tokens := by
  intro lexemes text
  have hlexemes : ∀ lexeme ∈ lexemes, IsLexeme lexeme := by decide +kernel
  have himport : lexemes.IsChain fun lexeme next => ¬ (lexeme = "import" ∧ next = "(") := by decide
  have hspace : Separator [' '] := .mk rfl .nil
  have hcomment : Separator " /*(*/ ".toList :=
    .mk rfl (@Filler.closedComment ['('] _ (by decide) (.blank rfl .nil))
  have hline : Separator " // d\n".toList :=
    .mk rfl (@Filler.lineComment [' ', 'd'] _ (by decide) .nil)
  have hlayout : LaidOut lexemes text :=
    .flush (.cons hspace (.cons hcomment (.cons hline (.cons (.mk (c := '\t') rfl .nil) .nil))))
  exact ⟨hlexemes, himport, hlayout, layout_free hlexemes himport hlayout⟩

end ScriptFront
