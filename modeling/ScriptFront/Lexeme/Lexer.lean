import ScriptFront.Diagnostic.Basic
import ScriptFront.Lexeme.Escape
import ScriptFront.Lexeme.Pattern
import ScriptFront.Text.Lines
import ScriptFront.Token.Basic

/-!
# The lexer

* `Lexer` — a cursor in a text that hands out tokens one at a time. A text that is no lexeme
  becomes an `illegal` token, and the problem is kept in `errors`.
* `Lexer.next?` — the next token; after the end, the end of input for ever. There is none only when
  the cursor was moved into the middle of a character.
* `tokenize` — all tokens of a text up to the end of input, or the first problem.

Each scan shortens what is left (`Lexer.scan_length_lt`), and each token that is handed out is paid
for by a token that was waiting or by a character (`Lexer.next?_size`); both loops end for that
reason.
-/

namespace ScriptFront

/-- A cursor in a text, with the tokens that were found and not yet handed out. -/
structure Lexer where
  /-- Tokens found and not yet handed out. -/
  pending : List Token
  /-- The text from the character on which the cursor stands. -/
  rest : List Char
  /-- How many bytes the cursor stands behind the start of `rest`: less than the width of its first
  character, or any number at the end of the text. -/
  skew : Nat
  /-- The line of the cursor, counted from one. -/
  line : Nat
  /-- The problems met so far. -/
  errors : List Diagnostic
deriving DecidableEq, Repr

namespace Lexer

open Lexeme

/-! ## Moving the cursor -/

/-- A lexer at the start of a text. A first line that begins with `#!` is for the system and not for
the program; the cursor starts on the newline that ends it. -/
def ofText (text : String) : Lexer :=
  let rest :=
    match text.toList with
    | '#' :: '!' :: directive => directive.dropWhile (· != '\n')
    | rest => rest
  ⟨[], rest, 0, 1, []⟩

/-- Drop as many whole characters as `count` bytes cover, and say how many bytes are left over. -/
def dropBytes : Nat → List Char → List Char × Nat
  | count, [] => ([], count)
  | count, c :: rest =>
    if c.utf8Size ≤ count then dropBytes (count - c.utf8Size) rest else (c :: rest, count)

/-- Move the cursor by a number of bytes, whatever stands there. -/
def advance (lexer : Lexer) (count : Nat) : Lexer :=
  let (rest, skew) := dropBytes (lexer.skew + count) lexer.rest
  { lexer with rest, skew }

/-- Let a token wait behind those found before. -/
def push (lexer : Lexer) (token : Token) : Lexer :=
  { lexer with pending := lexer.pending ++ [token] }

/-- The text from the cursor on; none when the cursor does not stand before a character or at the
end. -/
def remainder? (lexer : Lexer) : Option String :=
  if lexer.skew = 0 then some (String.ofList lexer.rest) else none

/-- The cursor has reached the end of the text. -/
def atEnd (lexer : Lexer) : Bool :=
  lexer.rest.isEmpty

/-! ## Scanning one lexeme -/

/-- Move past a lexeme. -/
def move (lexer : Lexer) (lexeme : List Char) : Lexer :=
  { lexer with rest := lexer.rest.drop lexeme.length }

/-- Move past a lexeme and count its newlines. -/
def pass (lexer : Lexer) (lexeme : List Char) : Lexer :=
  { lexer.move lexeme with line := lexer.line + Text.newlines lexeme }

/-- The kind of a word in front of the given text. The word `import` in front of an opening
parenthesis names a function. -/
def wordKind (word : String) (after : List Char) : Kind :=
  if word = "import" ∧ (Text.trimStart after).head? = some '(' then .identifier
  else (Kind.ofWord? word).getD .identifier

/-- Keep a problem on the given line, and let the text that caused it wait as an illegal token. -/
def reject (lexer : Lexer) (cause : Cause) (text : List Char) (line : Nat) : Lexer :=
  { lexer.push ⟨.illegal, String.ofList text, line⟩ with
    errors := lexer.errors ++ [⟨cause, line⟩] }

/-- Take a lexeme that has the given shape. Gaps yield no token; a quote without a partner takes the
whole rest of the text. Newlines are counted where there can be some: in a gap, in a string and
behind a quote without a partner. -/
def accept (lexer : Lexer) (pattern : Pattern) (lexeme : List Char) : Lexer :=
  let text := String.ofList lexeme
  match pattern with
  | .blanks | .lineComment | .closedComment | .openComment => lexer.pass lexeme
  | .word =>
    let after := lexer.move lexeme
    after.push ⟨wordKind text after.rest, text, lexer.line⟩
  | .marked _ | .digits => (lexer.move lexeme).push ⟨.integer, text, lexer.line⟩
  | .fraction => (lexer.move lexeme).push ⟨.float, text, lexer.line⟩
  | .quoted _ =>
    (lexer.pass lexeme).push ⟨.string, String.ofList (unescape lexeme.tail.dropLast), lexer.line⟩
  | .strayQuote => (lexer.pass lexer.rest).reject .unterminatedString lexer.rest lexer.line
  | .fixed _ kind => (lexer.move lexeme).push ⟨kind, text, lexer.line⟩

/-- Take the lexeme at the cursor, or one character when no shape fits. -/
def scan (lexer : Lexer) : Lexer :=
  match firstMatch? lexer.rest with
  | some (pattern, lexeme) => lexer.accept pattern lexeme
  | none =>
    match lexer.rest with
    | [] => lexer
    | c :: _ =>
      (lexer.move [c]).reject (.unrecognisedToken (String.singleton c)) [c] lexer.line

/-! ## What a scan costs -/

/-- How many tokens a lexer can still hand out at most before the end of input. -/
def size (lexer : Lexer) : Nat :=
  lexer.pending.length + lexer.rest.length

/-- Taking a lexeme shortens the rest, and adds at most one waiting token. -/
theorem accept_length (lexer : Lexer) (pattern : Pattern) {lexeme : List Char}
    (hlexeme : lexeme ≠ []) (hrest : lexer.rest ≠ []) :
    (lexer.accept pattern lexeme).rest.length < lexer.rest.length ∧
      (lexer.accept pattern lexeme).pending.length ≤ lexer.pending.length + 1 := by
  have h₁ : 0 < lexeme.length := List.length_pos_iff.2 hlexeme
  have h₂ : 0 < lexer.rest.length := List.length_pos_iff.2 hrest
  cases pattern <;> simp [accept, move, pass, push, reject] <;> omega

/-- A scan before the end shortens the rest, and adds at most one waiting token. -/
theorem scan_length (lexer : Lexer) (hrest : lexer.rest ≠ []) :
    lexer.scan.rest.length < lexer.rest.length ∧
      lexer.scan.pending.length ≤ lexer.pending.length + 1 := by
  unfold scan
  split
  · next hmatch => exact accept_length lexer _ (firstMatch?_ne_nil hmatch) hrest
  · split
    · next hnil => exact absurd hnil hrest
    · next hcons => simp [reject, move, push, hcons]

/-- A scan before the end shortens the rest. -/
theorem scan_length_lt (lexer : Lexer) (hrest : lexer.rest ≠ []) :
    lexer.scan.rest.length < lexer.rest.length :=
  (scan_length lexer hrest).1

/-- A scan hands out no token that it did not pay for with a character. -/
theorem size_scan_le (lexer : Lexer) (hrest : lexer.rest ≠ []) : lexer.scan.size ≤ lexer.size := by
  have h := scan_length lexer hrest
  unfold size
  omega

/-! ## Tokens -/

/-- The next token and the lexer behind it: a waiting token first, then the next lexeme that is no
gap. At the end of the text it is the end of input. A cursor inside a character finds nothing. -/
def next? (lexer : Lexer) : Option (Token × Lexer) :=
  match lexer.pending with
  | token :: later => some (token, { lexer with pending := later })
  | [] =>
    if _ : lexer.rest = [] then some (Token.eof lexer.line, lexer)
    else if lexer.skew ≠ 0 then none
    else lexer.scan.next?
termination_by lexer.rest.length
decreasing_by exact scan_length_lt lexer ‹_›

/-- A waiting token is handed out first. -/
theorem next?_of_pending {lexer : Lexer} {token : Token} {later : List Token}
    (h : lexer.pending = token :: later) :
    lexer.next? = some (token, { lexer with pending := later }) := by
  rw [next?, h]

/-- At the end of the text there is only the end of input. -/
theorem next?_of_atEnd {lexer : Lexer} (hpending : lexer.pending = []) (hrest : lexer.rest = []) :
    lexer.next? = some (Token.eof lexer.line, lexer) := by
  rw [next?, hpending]
  simp [hrest]

/-- Before the end, with nothing waiting, the next token is that after one scan. -/
theorem next?_of_scan {lexer : Lexer} (hpending : lexer.pending = []) (hrest : lexer.rest ≠ [])
    (hskew : lexer.skew = 0) : lexer.next? = lexer.scan.next? := by
  rw [next?, hpending]
  simp [hrest, hskew]

/-- A token other than the end of input makes the lexer smaller. -/
theorem next?_size {lexer after : Lexer} {token : Token} (h : lexer.next? = some (token, after)) :
    after.size + token.weight ≤ lexer.size := by
  fun_induction next? lexer with
  | case1 lexer token' later hpending =>
    have := token.weight_le_one
    cases h
    simp only [size, hpending, List.length_cons]
    omega
  | case2 lexer hpending hrest =>
    cases h
    simp
  | case3 => cases h
  | case4 lexer hpending hrest _ ih => exact Nat.le_trans (ih h) (size_scan_le lexer hrest)

/-- The tokens from the cursor up to the first end of input, or the first problem. -/
def tokens (lexer : Lexer) : Except Diagnostic (List Token) :=
  match _ : lexer.next? with
  | none => .ok []
  | some (token, after) =>
    match after.errors with
    | problem :: _ => .error problem
    | [] =>
      if _ : token.kind = .eof then .ok [token]
      else after.tokens.map (token :: ·)
termination_by lexer.size
decreasing_by
  have h := next?_size ‹_›
  rw [Token.weight_of_ne ‹_›] at h
  omega

/-- The tokens of a lexer, one step at a time. -/
theorem tokens_eq (lexer : Lexer) :
    lexer.tokens =
      match lexer.next? with
      | none => .ok []
      | some (token, after) =>
        match after.errors with
        | problem :: _ => .error problem
        | [] => if token.kind = .eof then .ok [token] else after.tokens.map (token :: ·) := by
  rw [tokens]
  split <;> simp_all

end Lexer

/-- The tokens of a text, the last being the end of input, or the first problem. -/
def tokenize (text : String) : Except Diagnostic (List Token) :=
  (Lexer.ofText text).tokens

end ScriptFront
