import ScriptFront.Diagnostic.Report
import ScriptFront.Parser.Program
import ScriptFront.Tree.Render

/-!
# The command

The command reads a file, parses it and says what is wrong with it. `Command.answer` is all of it
but the reading and writing: from the options, the name and the text of the file to the exit code
and the two output streams. How long each phase took is not a matter of the text, so it comes in as
texts.
-/

namespace ScriptFront.Command

/-- What the command is asked to print beside diagnostics. -/
structure Options where
  /-- The parsed program. -/
  ast : Bool
  /-- The tokens. -/
  tokens : Bool
  /-- How long each phase took. -/
  timings : Bool
deriving DecidableEq, Repr

/-- How long the phases took, as they are to be printed. -/
structure Durations where
  /-- Splitting the text into tokens. -/
  tokenizing : String
  /-- Parsing the tokens. -/
  parsing : String
  /-- All of it. -/
  total : String

/-- What the command does: its exit code and what it writes. -/
structure Outcome where
  /-- Zero for success. -/
  code : UInt32
  /-- The text for standard output. -/
  stdout : String
  /-- The text for standard error. -/
  stderr : String
deriving DecidableEq, Repr

/-- A line, when it is wanted. -/
def lineIf (wanted : Bool) (line : String) : String :=
  if wanted then line ++ "\n" else ""

/-- The rows of the token dump. -/
def dumpTokens (tokens : List Token) : String :=
  String.join (tokens.map fun token => token.dump ++ "\n")

/-- The reports of the parser's diagnostics, and a line with their number. -/
def reportAll (text file : String) (diagnostics : List Diagnostic) : String :=
  String.join (diagnostics.map fun diagnostic => diagnostic.report text file ++ "\n\n") ++
    toString diagnostics.length ++ " syntax error(s) in " ++ file ++ "\n"

/-- The answer for a text that cannot be split into tokens. -/
def rejected (file text : String) (problem : Diagnostic) : Outcome :=
  ⟨1, "", problem.report text file ++ "\n"⟩

/-- The answer for a text that was split into tokens and parsed. -/
def concluded (options : Options) (durations : Durations) (file text : String)
    (tokens : List Token) (program : Program) (diagnostics : List Diagnostic) : Outcome :=
  let start :=
    lineIf options.timings ("Tokenized in " ++ durations.tokenizing) ++
      (if options.tokens then dumpTokens tokens else "") ++
      lineIf options.timings ("Parsed in " ++ durations.parsing)
  if diagnostics.isEmpty then
    ⟨0, start ++ lineIf options.ast program.render ++
      lineIf options.timings ("Total time: " ++ durations.total), ""⟩
  else ⟨1, start, reportAll text file diagnostics⟩

/-- The answer of the command for a file with the given name and text. -/
def answer (options : Options) (durations : Durations) (file text : String) : Outcome :=
  match tokenize text with
  | .error problem => rejected file text problem
  | .ok tokens =>
    let (program, diagnostics) := parseTokens tokens
    concluded options durations file text tokens program diagnostics

/-- The answer when the file cannot be read, with the system's reason. -/
def unreadable (file reason : String) : Outcome :=
  ⟨1, "", "Error: failed to read " ++ file ++ "\n\nCaused by:\n    " ++ reason ++ "\n"⟩

/-- The system's reason when there is no such file. -/
def noSuchFile : String :=
  "No such file or directory (os error 2)"

end ScriptFront.Command
