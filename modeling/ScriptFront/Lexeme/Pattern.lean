import ScriptFront.Numeral.Integer
import ScriptFront.Text.Blank
import ScriptFront.Token.Kind

/-!
# The patterns of lexemes

* `Pattern` — the shapes that the front of a text can have: gaps (blanks and comments), words,
  numbers, strings, a quote without a partner, and fixed punctuation.
* `Pattern.lexeme? p text` — the part at the front of `text` that has the shape `p`; never empty
  (`Pattern.lexeme?_ne_nil`).
* `patterns` — the order in which the shapes are tried: the first that fits wins.
-/

namespace ScriptFront.Lexeme

open Numeral (Radix)

/-- A shape that the front of a text can have. -/
inductive Pattern where
  /-- A run of blanks. -/
  | blanks
  /-- Two slashes and the rest of the line. -/
  | lineComment
  /-- A bracketed comment, up to the first closing mark. -/
  | closedComment
  /-- A bracketed comment that the text ends in. -/
  | openComment
  /-- A name or a reserved word. -/
  | word
  /-- An integer with a base mark. -/
  | marked (radix : Radix)
  /-- Digits, a point and digits. -/
  | fraction
  /-- Digits. -/
  | digits
  /-- A string literal up to its closing quote. -/
  | quoted (quote : Char)
  /-- A quote with no partner. -/
  | strayQuote
  /-- Punctuation with one spelling. -/
  | fixed (text : String) (kind : Kind)
deriving DecidableEq, Repr

/-- The letters, and the underscore. -/
def isWordStart (c : Char) : Bool :=
  c.isAlpha || c == '_'

/-- The letters, the digits and the underscore. -/
def isWordPart (c : Char) : Bool :=
  c.isAlphanum || c == '_'

/-- The text up to and with the first closing mark of a comment. -/
def throughClose? : List Char → Option (List Char)
  | [] => none
  | '*' :: '/' :: _ => some ['*', '/']
  | c :: rest => (throughClose? rest).map (c :: ·)

/-- The text up to and with the first `quote` that has no backslash of its own in front. -/
def throughQuote? (quote : Char) : List Char → Option (List Char)
  | [] => none
  | c :: rest =>
    if c = quote then some [c]
    else if c = '\\' then
      match rest with
      | [] => none
      | d :: tail => (throughQuote? quote tail).map fun inner => c :: d :: inner
    else (throughQuote? quote rest).map (c :: ·)

/-- A run as a lexeme: an empty run is none. -/
def nonempty? (run : List Char) : Option (List Char) :=
  if run.isEmpty then none else some run

namespace Pattern

/-- The part at the front of a text that has the shape. -/
def lexeme? : Pattern → List Char → Option (List Char)
  | blanks, text => nonempty? (text.takeWhile Text.isBlank)
  | lineComment, '/' :: '/' :: rest => some ('/' :: '/' :: rest.takeWhile (· != '\n'))
  | lineComment, _ => none
  | closedComment, '/' :: '*' :: rest => (throughClose? rest).map fun inner => '/' :: '*' :: inner
  | closedComment, _ => none
  | openComment, '/' :: '*' :: rest => some ('/' :: '*' :: rest)
  | openComment, _ => none
  | word, c :: rest => if isWordStart c then some (c :: rest.takeWhile isWordPart) else none
  | word, [] => none
  | marked radix, '0' :: mark :: rest =>
    if radix.isMark mark then
      (nonempty? (rest.takeWhile radix.isDigit)).map fun run => '0' :: mark :: run
    else none
  | marked _, _ => none
  | fraction, text =>
    (nonempty? (text.takeWhile Char.isDigit)).bind fun whole =>
      match text.dropWhile Char.isDigit with
      | '.' :: rest =>
        (nonempty? (rest.takeWhile Char.isDigit)).map fun part => whole ++ '.' :: part
      | _ => none
  | digits, text => nonempty? (text.takeWhile Char.isDigit)
  | quoted quote, c :: rest =>
    if c = quote then (throughQuote? quote rest).map (c :: ·) else none
  | quoted _, [] => none
  | strayQuote, c :: _ => if c = '\x22' ∨ c = '\x27' then some [c] else none
  | strayQuote, [] => none
  | fixed spelling _, text =>
    if spelling.toList.isPrefixOf text then nonempty? spelling.toList else none

end Pattern

/-- The shapes in the order in which they are tried. -/
def patterns : List Pattern :=
  [.blanks, .lineComment, .closedComment, .openComment, .word,
   .marked .hexadecimal, .marked .octal, .marked .binary, .fraction, .digits,
   .quoted '\x22', .quoted '\x27', .strayQuote,
   .fixed "..." .ellipsis, .fixed ".." .dotDot, .fixed "." .dot,
   .fixed "[" .openBracket, .fixed "]" .closeBracket,
   .fixed "\x7b" .openCurly, .fixed "\x7d" .closeCurly,
   .fixed "(" .openParen, .fixed ")" .closeParen,
   .fixed "==" .equals, .fixed "=>" .arrow, .fixed "=" .assignment,
   .fixed "!=" .notEquals, .fixed "!" .not,
   .fixed "<=" .lessEquals, .fixed "<" .less,
   .fixed ">=" .greaterEquals, .fixed ">" .greater,
   .fixed "||" .or, .fixed "&&" .and, .fixed "&" .ampersand, .fixed "??" .nullCoalesce,
   .fixed ";" .semicolon, .fixed ":" .colon, .fixed "," .comma, .fixed "@" .atSign,
   .fixed "++" .plusPlus, .fixed "+=" .plusEquals, .fixed "+" .plus,
   .fixed "->" .arrow, .fixed "--" .minusMinus, .fixed "-=" .minusEquals, .fixed "-" .dash,
   .fixed "**" .starStar, .fixed "*=" .starEquals, .fixed "*" .star,
   .fixed "/=" .slashEquals, .fixed "/" .slash,
   .fixed "%=" .percentEquals, .fixed "%" .percent]

/-- The first shape that fits the front of a text, and the part that it fits. -/
def firstMatch? (text : List Char) : Option (Pattern × List Char) :=
  patterns.findSome? fun pattern => (pattern.lexeme? text).map fun lexeme => (pattern, lexeme)

/-! ## A lexeme is never empty -/

/-- A run that is taken is not empty. -/
theorem nonempty?_eq_some {run lexeme : List Char} (h : nonempty? run = some lexeme) :
    run = lexeme ∧ lexeme ≠ [] := by
  unfold nonempty? at h
  split at h
  · cases h
  · next hrun =>
    cases h
    exact ⟨rfl, by simpa using hrun⟩

/-- No run is the empty lexeme. -/
theorem nonempty?_ne_some_nil (run : List Char) : nonempty? run ≠ some [] :=
  fun h => (nonempty?_eq_some h).2 rfl

/-- What a shape takes from a text is never empty. -/
theorem Pattern.lexeme?_ne_nil {pattern : Pattern} {text lexeme : List Char}
    (h : pattern.lexeme? text = some lexeme) : lexeme ≠ [] := by
  rintro rfl
  revert h
  fun_cases Pattern.lexeme? pattern text
  case case14 =>
    intro h
    obtain ⟨whole, _, h⟩ := Option.bind_eq_some_iff.1 h
    split at h
    · obtain ⟨part, _, h⟩ := Option.map_eq_some_iff.1 h
      simp at h
    · cases h
  all_goals simp [nonempty?_ne_some_nil]

/-- The part that the first fitting shape takes is never empty. -/
theorem firstMatch?_ne_nil {text lexeme : List Char} {pattern : Pattern}
    (h : firstMatch? text = some (pattern, lexeme)) : lexeme ≠ [] := by
  obtain ⟨candidate, _, hcandidate⟩ := List.exists_of_findSome?_eq_some h
  obtain ⟨found, hfound, heq⟩ := Option.map_eq_some_iff.1 hcandidate
  cases heq
  exact Pattern.lexeme?_ne_nil hfound

end ScriptFront.Lexeme
