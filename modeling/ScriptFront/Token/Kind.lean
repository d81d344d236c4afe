/-!
# Kinds of tokens

* `Kind` — the closed list of token kinds: the end of input, texts that are no lexeme, names and
  literals, punctuation, and one kind per reserved word.
* `Kind.name` — the spelling of a kind in messages and dumps.
* `Kind.ofWord?` — the kind of a reserved word; `func` and `function` share one.
* `Kind.startsStatement` — the words on which a parser that lost its way can start afresh.
-/

namespace ScriptFront

/-- What a token is, apart from its text and place. -/
inductive Kind where
  -- literals and ends
  | eof | illegal | identifier | integer | float | string
  -- brackets
  | openBracket | closeBracket | openCurly | closeCurly | openParen | closeParen
  -- comparison and assignment
  | assignment | equals | not | notEquals | less | lessEquals
  | greater | greaterEquals
  -- logic
  | or | and | nullCoalesce
  -- punctuation
  | dot | dotDot | ellipsis | semicolon | colon | comma
  | arrow | atSign
  -- stepping and compound assignment
  | plusPlus | minusMinus | plusEquals | minusEquals | starEquals | slashEquals
  | percentEquals
  -- arithmetic
  | plus | dash | slash | star | starStar | percent
  | ampersand
  -- reserved words
  | funcWord | letWord | constWord | trueWord | falseWord | ifWord
  | elseWord | whileWord | returnWord | nullWord | breakWord | continueWord
  | inWord | forWord | switchWord | caseWord | defaultWord | matchWord
  | importWord | packageWord | includeWord | enumWord | asyncWord | awaitWord
  | goWord | chanWord | throwWord | errorWord | deferWord | repeatWord
  -- reporting words
  | todoWord | warnWord | infoWord | debugWord | noteWord | successWord
  | traceWord | fatalWord | criticalWord | logWord
deriving DecidableEq, Repr, Inhabited

namespace Kind

/-- Every kind, in the order of the declaration. -/
def all : List Kind :=
  [eof, illegal, identifier, integer, float, string, openBracket, closeBracket, openCurly,
   closeCurly, openParen, closeParen, assignment, equals, not, notEquals, less, lessEquals,
   greater, greaterEquals, or, and, nullCoalesce, dot, dotDot, ellipsis, semicolon, colon, comma,
   arrow, atSign, plusPlus, minusMinus, plusEquals, minusEquals, starEquals, slashEquals,
   percentEquals, plus, dash, slash, star, starStar, percent, ampersand, funcWord, letWord,
   constWord, trueWord, falseWord, ifWord, elseWord, whileWord, returnWord, nullWord, breakWord,
   continueWord, inWord, forWord, switchWord, caseWord, defaultWord, matchWord, importWord,
   packageWord, includeWord, enumWord, asyncWord, awaitWord, goWord, chanWord, throwWord,
   errorWord, deferWord, repeatWord, todoWord, warnWord, infoWord, debugWord, noteWord,
   successWord, traceWord, fatalWord, criticalWord, logWord]

/-- The spelling of a kind in messages and dumps. -/
def name : Kind → String
  | eof => "EOF"
  | illegal => "Illegal"
  | identifier => "Identifier"
  | integer => "Integer"
  | float => "Float"
  | string => "String"
  | openBracket => "OpenBracket"
  | closeBracket => "CloseBracket"
  | openCurly => "OpenCurly"
  | closeCurly => "CloseCurly"
  | openParen => "OpenParen"
  | closeParen => "CloseParen"
  | assignment => "Assignment"
  | equals => "Equals"
  | not => "Not"
  | notEquals => "NotEquals"
  | less => "Less"
  | lessEquals => "LessEquals"
  | greater => "Greater"
  | greaterEquals => "GreaterEquals"
  | or => "Or"
  | and => "And"
  | nullCoalesce => "NullCoalesce"
  | dot => "Dot"
  | dotDot => "DotDot"
  | ellipsis => "Ellipsis"
  | semicolon => "Semicolon"
  | colon => "Colon"
  | comma => "Comma"
  | arrow => "Arrow"
  | atSign => "At"
  | plusPlus => "PlusPlus"
  | minusMinus => "MinusMinus"
  | plusEquals => "PlusEquals"
  | minusEquals => "MinusEquals"
  | starEquals => "StarEquals"
  | slashEquals => "SlashEquals"
  | percentEquals => "PercentEquals"
  | plus => "Plus"
  | dash => "Dash"
  | slash => "Slash"
  | star => "Star"
  | starStar => "StarStar"
  | percent => "Percent"
  | ampersand => "Ampersand"
  | funcWord => "Func"
  | letWord => "Let"
  | constWord => "Const"
  | trueWord => "True"
  | falseWord => "False"
  | ifWord => "If"
  | elseWord => "Else"
  | whileWord => "While"
  | returnWord => "Return"
  | nullWord => "Null"
  | breakWord => "Break"
  | continueWord => "Continue"
  | inWord => "In"
  | forWord => "For"
  | switchWord => "Switch"
  | caseWord => "Case"
  | defaultWord => "Default"
  | matchWord => "Match"
  | importWord => "Import"
  | packageWord => "Package"
  | includeWord => "Include"
  | enumWord => "Enum"
  | asyncWord => "Async"
  | awaitWord => "Await"
  | goWord => "Go"
  | chanWord => "Chan"
  | throwWord => "Throw"
  | errorWord => "Error"
  | deferWord => "Defer"
  | repeatWord => "Repeat"
  | todoWord => "Todo"
  | warnWord => "Warn"
  | infoWord => "Info"
  | debugWord => "Debug"
  | noteWord => "Note"
  | successWord => "Success"
  | traceWord => "Trace"
  | fatalWord => "Fatal"
  | criticalWord => "Critical"
  | logWord => "Log"

/-- The reserved words and their kinds. -/
def words : List (String × Kind) :=
  [("func", funcWord), ("function", funcWord),
   ("let", letWord), ("const", constWord), ("true", trueWord), ("false", falseWord),
   ("if", ifWord), ("else", elseWord), ("while", whileWord), ("return", returnWord),
   ("null", nullWord), ("break", breakWord), ("continue", continueWord), ("in", inWord),
   ("for", forWord), ("switch", switchWord), ("case", caseWord), ("default", defaultWord),
   ("match", matchWord), ("import", importWord), ("package", packageWord),
   ("include", includeWord), ("enum", enumWord), ("async", asyncWord), ("await", awaitWord),
   ("go", goWord), ("chan", chanWord), ("throw", throwWord), ("error", errorWord),
   ("defer", deferWord), ("repeat", repeatWord), ("todo", todoWord), ("warn", warnWord),
   ("info", infoWord), ("debug", debugWord), ("note", noteWord), ("success", successWord),
   ("trace", traceWord), ("fatal", fatalWord), ("critical", criticalWord), ("log", logWord)]

/-- The kind of a reserved word, none for a word that is free to name things. -/
def ofWord? (word : String) : Option Kind :=
  words.lookup word

/-- The words that report a value at some level of severity. -/
def isDeclarative : Kind → Bool
  | todoWord | warnWord | infoWord | debugWord | noteWord | successWord | traceWord | fatalWord
  | criticalWord | logWord => true
  | _ => false

/-- The words that can only begin a statement; recovery stops on them. -/
def startsStatement : Kind → Bool
  | letWord | constWord | returnWord | breakWord | continueWord | includeWord | enumWord | goWord
  | funcWord | asyncWord | ifWord | whileWord | forWord | repeatWord | switchWord | matchWord
  | importWord | packageWord | throwWord | errorWord | deferWord => true
  | kind => kind.isDeclarative

end Kind

end ScriptFront
