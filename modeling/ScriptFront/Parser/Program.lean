import ScriptFront.Parser.Run

/-!
# Whole programs

`Parser.program` reads statements up to the end of input. It never stops early: a statement that
cannot be read leaves an empty slot, and the parser skips to the next place where one can begin.

* `parseTokens` — the program that a list of tokens spells, and what is wrong with it.
* `parseText` — the same for a text, after all of it was split into tokens; a text that cannot be
  split has no program.
* `parseStream` — the same for a text that is split as the parser goes along, with the problems of
  the lexer beside those of the parser.
-/

namespace ScriptFront

namespace Parser

/-- Read statements up to the end of input, at most `rounds` of them. -/
def slots (budget : Nat) : Nat → Parser → List (Option Stmt) × Parser
  | 0, parser => ([], parser)
  | rounds + 1, parser =>
    if parser.kind = .eof then ([], parser)
    else
      match pursue budget .stmt parser with
      | (.found statement, after) =>
        let (rest, last) := slots budget rounds after.advance
        (some statement :: rest, last)
      | (.absent, after) =>
        let (rest, last) := slots budget rounds (after.synchronize parser.checkpoint false)
        (none :: rest, last)
      | (.exhausted, after) => ([], after)

/-- Read statements up to the end of input. Each takes a token at least, so there are no more rounds
than tokens left. -/
def program (parser : Parser) : Program × Parser :=
  let (slots, last) := parser.slots parser.budget parser.remaining
  (⟨slots⟩, last)

end Parser

/-- The program that a list of tokens spells, and what is wrong with it. -/
def parseTokens (tokens : List Token) : Program × List Diagnostic :=
  let (program, parser) := (Parser.ofTokens tokens).program
  (program, parser.diagnostics)

/-- The program of a text and what is wrong with it, or the first problem of the lexer. -/
def parseText (text : String) : Except Diagnostic (Program × List Diagnostic) :=
  (tokenize text).map parseTokens

/-- What comes of parsing a text while it is split into tokens. -/
structure Streamed where
  /-- The program. -/
  program : Program
  /-- What the parser found wrong. -/
  diagnostics : List Diagnostic
  /-- What the lexer found wrong. -/
  lexerErrors : List Diagnostic

/-- Parse a text while it is split into tokens. -/
def parseStream (text : String) : Streamed :=
  let (program, parser) := (Parser.ofText text).program
  ⟨program, parser.diagnostics, parser.source.errors⟩

end ScriptFront
