import ScriptFront.Text.Blank
import ScriptFront.Text.Join
import ScriptFront.Text.Unprintable
import ScriptFront.Text.Quoted
import ScriptFront.Text.Lines
import ScriptFront.Numeral.Integer
import ScriptFront.Numeral.Decimal
import ScriptFront.Token.Kind
import ScriptFront.Token.Basic
import ScriptFront.Diagnostic.Basic
import ScriptFront.Diagnostic.Report
import ScriptFront.Lexeme.Escape
import ScriptFront.Lexeme.Pattern
import ScriptFront.Lexeme.Lexer
import ScriptFront.Tree.Declarative
import ScriptFront.Tree.Basic
import ScriptFront.Tree.Render
import ScriptFront.Tree.Outline
import ScriptFront.Grammar.Power
import ScriptFront.Grammar.Table
import ScriptFront.Grammar.Rule
import ScriptFront.Grammar.Operand
import ScriptFront.Grammar.Operator
import ScriptFront.Grammar.Control
import ScriptFront.Grammar.Declaration
import ScriptFront.Grammar.Statement
import ScriptFront.Grammar.Body
import ScriptFront.Parser.State
import ScriptFront.Parser.Run
import ScriptFront.Parser.Program
import ScriptFront.Command
import ScriptFront.Main
import ScriptFront.Proofs.Parser.Motion
import ScriptFront.Proofs.Parser.Budget
import ScriptFront.Proofs.Parser.Reports
import ScriptFront.Proofs.Parser.Contract
import ScriptFront.Proofs.Parser.StoppingTokens
import ScriptFront.Proofs.Parser.Completion
import ScriptFront.Proofs.Parser.Isolation
import ScriptFront.Proofs.Lexer.Lexemes
import ScriptFront.Proofs.Tree.Tokens
import ScriptFront.Proofs.Lexer.Printed
import ScriptFront.Proofs.Parser.Gives
import ScriptFront.Proofs.Printing.RoundTrip
import ScriptFront.Proofs.Parser.TakenTokens
import ScriptFront.Proofs.Parser.TakenTokensPlans
import ScriptFront.Proofs.Parser.TakenTokensKept
import ScriptFront.Proofs.Parser.Nesting
import ScriptFront.Proofs.Lexer.Partition
import ScriptFront.Proofs.Parser.Operands
import ScriptFront.Proofs.Parser.Streaming
import ScriptFront.Proofs.Lexer.Layout
import ScriptFront.Proofs.Parser.EndOfInput
import ScriptFront.Proofs.Parser.Lookahead
import ScriptFront.Proofs.Parser.Composition
import ScriptFront.Proofs.Tree.Lines
import ScriptFront.Proofs.Parser.Mirror
import ScriptFront.Proofs.Parser.LineNumbers
import ScriptFront.Proofs.Command.Verdict
import ScriptFront.Proofs.Tree.Law
import ScriptFront.Proofs.Parser.Soundness
import ScriptFront.Proofs.Parser.SoundnessPlans
import ScriptFront.Proofs.Parser.WellFormed
import ScriptFront.Proofs.Text.Segments
import ScriptFront.Proofs.Lexer.Positions
import ScriptFront.Proofs.Parser.Pointing
import ScriptFront.Proofs.Lexer.Spelling
import ScriptFront.Proofs.Text.Quoting
import ScriptFront.Proofs.Printing.Regroup
import ScriptFront.Proofs.Printing.Text
import ScriptFront.Proofs.Printing.Shown
import ScriptFront.Proofs.Printing.Follow
import ScriptFront.Proofs.Printing.Reading
import ScriptFront.Proofs.Printing.Lists
import ScriptFront.Proofs.Printing.Parameters
import ScriptFront.Proofs.Printing.Operands
import ScriptFront.Proofs.Printing.Groups
import ScriptFront.Proofs.Printing.Control
import ScriptFront.Proofs.Printing.Statements
import ScriptFront.Proofs.Printing.Identity
import ScriptFront.Proofs.Parser.Chains
import ScriptFront.Proofs.Parser.MoveInvariant
import ScriptFront.Proofs.Parser.MoveInvariantPlans
import ScriptFront.Proofs.Parser.Braces
import ScriptFront.Proofs.Parser.FailingTokens
import ScriptFront.Proofs.Parser.Repeats
import ScriptFront.Proofs.Lexer.Pieces
import ScriptFront.Proofs.Parser.Misses
import ScriptFront.Proofs.Parser.Integers
import ScriptFront.Proofs.Parser.Assignments
import ScriptFront.Proofs.Parser.Defaults
import ScriptFront.Proofs.Parser.Patterns
import ScriptFront.Proofs.Parser.Bodies
import ScriptFront.Proofs.Parser.Unclosed
import ScriptFront.Proofs.Parser.Switches
import ScriptFront.Proofs.Parser.Calls
import ScriptFront.Proofs.Parser.Support
import ScriptFront.Proofs.Parser.SupportPlans
import ScriptFront.Proofs.Parser.Steps
import ScriptFront.Proofs.Lexer.LongestMatch
import ScriptFront.Proofs.Parser.Continuations
