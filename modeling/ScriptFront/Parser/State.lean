import ScriptFront.Grammar.Rule
import ScriptFront.Grammar.Table
import ScriptFront.Lexeme.Lexer

/-!
# The state of a parser

* `Source` — where tokens come from: a list, a lexer that is asked as needed, or anything else that
  gives a token for each call (`TokenSequence`).
* `Parser` — the source, the window on it, how far the window has moved, how many braces are open
  before it, the diagnostics so far, and the grammar.
* `Parser.advance`, `Parser.report` — the two ways in which reading changes the state.
* `Parser.synchronize` — skipping to a token on which a statement can start.

A token list that ends without an end of input gets one on the line of its last token, and a source
that is used up gives ends of input only. Until the window stands on one, `Parser.remaining` falls
with every move (`Parser.advance_remaining_lt`).
-/

namespace ScriptFront

/-! ## Sources -/

/-- What is given by a source of any other make: a token for each call, and nothing but ends of
input once its own input is exhausted. -/
structure TokenSequence where
  /-- The token that is given after so many others. -/
  token : Nat → Token
  /-- After how many tokens the input is exhausted. -/
  length : Nat
  kind_eq : ∀ count, length ≤ count → (token count).kind = .eof

/-- Where tokens come from. -/
inductive Source where
  /-- A list of tokens, and the line of the one that was taken last. -/
  | list (tokens : List Token) (lastLine : Nat)
  /-- A lexer. -/
  | lexer (lexer : Lexer)
  /-- Anything else, and how many tokens were taken. -/
  | sequence (tokens : TokenSequence) (count : Nat)

namespace Source

/-- A source that gives the tokens of a list. -/
def ofTokens (tokens : List Token) : Source :=
  list tokens 1

/-- A source that gives the tokens of a text. -/
def ofText (text : String) : Source :=
  lexer (Lexer.ofText text)

/-- The next token and the source behind it. -/
def next : Source → Token × Source
  | list [] lastLine => (Token.eof lastLine, list [] lastLine)
  | list (token :: rest) _ => (token, list rest token.line)
  | lexer l =>
    match l.next? with
    | some (token, after) => (token, lexer after)
    | none => (Token.eof l.line, lexer l)
  | sequence tokens count => (tokens.token count, sequence tokens (count + 1))

/-- How many tokens a source can still give at most before it is used up. -/
def size : Source → Nat
  | list tokens _ => tokens.length
  | lexer l => l.size
  | sequence tokens count => tokens.length - count

/-- The problems that the lexer met. -/
def errors : Source → List Diagnostic
  | lexer l => l.errors
  | list _ _ | sequence _ _ => []

/-- A token other than the end of input makes the source smaller. -/
theorem next_size (source : Source) :
    source.next.2.size + source.next.1.weight ≤ source.size := by
  match source with
  | list [] lastLine => simp [next, size]
  | list (token :: rest) lastLine =>
    have := token.weight_le_one
    simp only [next, size, List.length_cons]
    omega
  | lexer l =>
    cases h : l.next? with
    | none => simp [next, h, size]
    | some found =>
      simp only [next, h]
      exact Lexer.next?_size h
  | sequence tokens count =>
    simp only [next, size]
    by_cases hlength : tokens.length ≤ count
    · rw [Token.weight_of_eq (tokens.kind_eq count hlength)]
      omega
    · have := (tokens.token count).weight_le_one
      omega

/-- The tokens of `count` calls. -/
def take : Nat → Source → List Token
  | 0, _ => []
  | count + 1, source => source.next.1 :: take count source.next.2

end Source

/-! ## Parsers -/

/-- Where a statement began. -/
structure Checkpoint where
  /-- How many tokens were taken before it. -/
  position : Nat
  /-- How many braces were open before it. -/
  depth : Nat
deriving DecidableEq, Repr

/-- A parser in the course of its work. -/
structure Parser where
  /-- Where further tokens come from. -/
  source : Source
  /-- The tokens in sight. -/
  window : Window
  /-- How many tokens were taken. -/
  position : Nat
  /-- How many braces were opened and not closed by the tokens taken. -/
  depth : Nat
  /-- The position at which the last diagnostic was recorded. -/
  errorPosition : Nat
  /-- The diagnostics so far, in the order found. -/
  diagnostics : List Diagnostic
  /-- The rules of the language. -/
  grammar : Grammar

namespace Parser

/-- The depth after a token of the kind was taken. -/
def depthAfter (kind : Kind) (depth : Nat) : Nat :=
  match kind with
  | .openCurly => depth + 1
  | .closeCurly => depth - 1
  | _ => depth

/-- Shift the window by one token. -/
def advance (parser : Parser) : Parser :=
  let (token, source) := parser.source.next
  { parser with
    source
    window := ⟨parser.window.current, parser.window.peek, token⟩
    position := parser.position + 1
    depth := depthAfter parser.window.current.kind parser.depth }

/-- A parser with its first token at hand, for the language as it stands. -/
def ofSource (source : Source) : Parser :=
  let (current, source) := source.next
  let (peek, source) := source.next
  { source
    window := ⟨Token.eof 1, current, peek⟩
    position := 0
    depth := 0
    errorPosition := 0
    diagnostics := []
    grammar := .standard }

/-- A parser for a list of tokens. -/
def ofTokens (tokens : List Token) : Parser :=
  ofSource (.ofTokens tokens)

/-- A parser for a text, which is split into tokens as the work goes on. -/
def ofText (text : String) : Parser :=
  ofSource (.ofText text)

/-- The kind of the token at hand. -/
def kind (parser : Parser) : Kind :=
  parser.window.current.kind

/-- Where the parser stands. -/
def checkpoint (parser : Parser) : Checkpoint :=
  ⟨parser.position, parser.depth⟩

/-- Record a diagnostic on a line of its own. -/
def reportAt (parser : Parser) (cause : Cause) (line : Nat) : Parser :=
  { parser with
    errorPosition := parser.position
    diagnostics := parser.diagnostics ++ [⟨cause, line⟩] }

/-- Record a diagnostic on the line of the token at hand. -/
def report (parser : Parser) (cause : Cause) : Parser :=
  parser.reportAt cause parser.window.current.line

/-! ## How much is left -/

/-- How many tokens the window can still move over at most before it stands on the end of input. -/
def remaining (parser : Parser) : Nat :=
  parser.source.size + parser.window.peek.weight + parser.window.current.weight

/-- Every move before the end of input uses something up. -/
theorem advance_remaining_lt (parser : Parser) (h : parser.kind ≠ .eof) :
    parser.advance.remaining < parser.remaining := by
  have hsize := parser.source.next_size
  have hcurrent : parser.window.current.weight = 1 := Token.weight_of_ne h
  simp only [remaining, advance]
  omega

/-! ## Recovery -/

/-- The token at hand can begin a statement after one that failed. That holds right after a
semicolon, on a word that only begins statements, on a later line than the failure, and, within a
block, on a closing brace; but never on a brace that closes one of the failed statement's own. A
word on which the failure was recorded does not count when an expression can start on it, since
reading it again would fail in the same way. -/
def atBoundary (parser : Parser) (start : Checkpoint) (inBlock : Bool) (failedLine failedAt : Nat) :
    Bool :=
  let token := parser.window.current
  let nestedClose := token.kind = .closeCurly ∧ start.depth < parser.depth
  let freshWord :=
    token.kind.startsStatement ∧
      ¬ (parser.position = failedAt ∧ (parser.grammar.leading token.kind).isSome)
  let boundary :=
    parser.window.previous.kind = .semicolon ∨ freshWord ∨ failedLine < token.line ∨
      (inBlock ∧ token.kind = .closeCurly)
  boundary ∧ ¬ nestedClose

/-- Skip tokens up to a boundary or the end of input. A token that a failed statement began on is
skipped in any case. -/
def skipTo (parser : Parser) (start : Checkpoint) (inBlock : Bool) (failedLine failedAt : Nat) :
    Parser :=
  if _ : parser.kind = .eof then parser
  else if start.position < parser.position ∧
      parser.atBoundary start inBlock failedLine failedAt then parser
  else parser.advance.skipTo start inBlock failedLine failedAt
termination_by parser.remaining
decreasing_by exact advance_remaining_lt parser ‹_›

/-- Skip what is left of a failed statement that began at `start`. -/
def synchronize (parser : Parser) (start : Checkpoint) (inBlock : Bool) : Parser :=
  parser.skipTo start inBlock parser.window.current.line parser.errorPosition

end Parser

end ScriptFront
