import ScriptFront.Text.Quoted
import ScriptFront.Token.Kind

/-!
# Diagnostics

* `Cause` — what can be wrong with a program's text.
* `Diagnostic` — a cause and the line it was found on.
* `Cause.name`, `Cause.message`, `Cause.tip?` — how a cause is reported: its name, one sentence
  about it, and advice when there is any.
-/

namespace ScriptFront

/-- What is wrong with a program's text. -/
inductive Cause where
  /-- A character that starts no lexeme. -/
  | unrecognisedToken (text : String)
  /-- A quote with no partner. -/
  | unterminatedString
  /-- A token that cannot start an expression. -/
  | unexpectedToken (kind : Kind)
  /-- A token that cannot continue an expression. -/
  | unexpectedContinuation (kind : Kind)
  /-- One kind was required and another came. -/
  | expectedToken (expected found : Kind)
  /-- A token out of place, with the reason in words. -/
  | misplacedToken (kind : Kind) (reason : String)
  /-- A number literal that stands for no value the program can hold. -/
  | unreadableNumber (text : String)
  /-- The left side of an assignment is nothing that can be assigned to. -/
  | invalidAssignmentTarget (operator found : String)
  /-- A parameter without a default after one that has a default. -/
  | defaultParameterOrder (parameter : String)
  /-- A switch with several default clauses. -/
  | duplicateDefault (count : Nat)
  /-- An array pattern with two rest elements. -/
  | duplicateRestPattern
  /-- An array pattern that goes on after its rest element. -/
  | restPatternNotLast
  /-- A rest element without a name. -/
  | expectedRestIdentifier (found : Kind)
  /-- A block that the input ends in. -/
  | unclosedBlock
  /-- Some other construct in braces that the input ends in. -/
  | unclosedConstruct (construct : String)
deriving DecidableEq, Repr

namespace Cause

/-- The name that a report gives the cause. -/
def name : Cause → String
  | unrecognisedToken _ => "UnrecognisedToken"
  | unterminatedString => "UnterminatedString"
  | unexpectedToken _ => "UnexpectedToken"
  | unexpectedContinuation _ => "UnexpectedContinuation"
  | expectedToken _ _ => "ExpectedToken"
  | misplacedToken _ _ => "UnexpectedTokenDetailed"
  | unreadableNumber _ => "NumberParseError"
  | invalidAssignmentTarget _ _ => "InvalidAssignmentTarget"
  | defaultParameterOrder _ => "DefaultParameterOrder"
  | duplicateDefault _ => "DuplicateDefault"
  | duplicateRestPattern => "DuplicateRestPattern"
  | restPatternNotLast => "RestPatternNotLast"
  | expectedRestIdentifier _ => "ExpectedRestIdentifier"
  | unclosedBlock => "UnclosedBlock"
  | unclosedConstruct _ => "UnclosedConstruct"

/-- One sentence on the cause. -/
def message : Cause → String
  | unrecognisedToken text => "unrecognised character " ++ Text.quote text
  | unterminatedString => "unterminated string literal"
  | unexpectedToken kind => "no prefix parse function for " ++ kind.name
  | unexpectedContinuation kind => "no infix parse function for " ++ kind.name
  | expectedToken expected found => "expected " ++ expected.name ++ ", got " ++ found.name
  | misplacedToken kind reason => reason ++ ", got " ++ kind.name
  | unreadableNumber text => "could not parse " ++ Text.quote text ++ " as a number"
  | invalidAssignmentTarget operator found =>
    "expected an identifier or indexable expression on the left of `" ++ operator ++ "`, found " ++
      Text.quote found
  | defaultParameterOrder parameter =>
    "non-default parameter " ++ Text.quote parameter ++ " cannot follow a default parameter"
  | duplicateDefault count =>
    "a switch can only have one default case, found " ++ toString count
  | duplicateRestPattern => "only one rest element is allowed in an array pattern"
  | restPatternNotLast => "the rest element must be last in an array pattern"
  | expectedRestIdentifier found => "expected an identifier after `...`, got " ++ found.name
  | unclosedBlock => "unclosed block, expected `\x7d` before end of input"
  | unclosedConstruct construct =>
    "unclosed " ++ construct ++ ", expected `\x7d` before end of input"

/-- Advice on how to mend the cause. -/
def tip? : Cause → Option String
  | unrecognisedToken _ => none
  | unterminatedString => some "Close the string with a matching quote"
  | unexpectedToken _ => some "An expression was expected here"
  | unexpectedContinuation _ =>
    some "This token cannot continue the expression before it, did you miss a semicolon?"
  | expectedToken expected _ => some ("Insert the missing " ++ expected.name)
  | misplacedToken _ _ => none
  | unreadableNumber _ => some "Is it above the 64-bit integer limit?"
  | invalidAssignmentTarget _ _ =>
    some "Only names, indexed values and properties can be assigned to"
  | defaultParameterOrder _ => some "Move parameters with default values to the end of the list"
  | duplicateDefault _ => some "Merge the default cases into one"
  | duplicateRestPattern | restPatternNotLast =>
    some "A single `...name` binding may appear as the last element"
  | expectedRestIdentifier _ => some "Write `...name` to bind the remaining elements"
  | unclosedBlock | unclosedConstruct _ => some "Add the missing `\x7d`"

end Cause

/-- A cause and the line it was found on. -/
structure Diagnostic where
  /-- What is wrong. -/
  cause : Cause
  /-- The line, counted from one. -/
  line : Nat
deriving DecidableEq, Repr

/-- The diagnostic in one line: where and what. -/
def Diagnostic.summary (diagnostic : Diagnostic) : String :=
  "Line " ++ toString diagnostic.line ++ ": " ++ diagnostic.cause.message

end ScriptFront
