import ScriptFront.Numeral.Decimal
import ScriptFront.Token.Basic
import ScriptFront.Tree.Declarative

/-!
# Syntax trees

* `Identifier` — a name and the token it was read from.
* `Expr`, `Stmt`, `Block`, `CaseClause`, `MatchCase` — the nodes. Every node keeps the token that
  it starts from: the operator of an operator node, the keyword or the opening bracket of the
  others.
* `Defaults` — the default values of a function's parameters, one per name, in the order of the
  names.
* `Program` — the statement slots of a program; a slot is empty when its statement could not be
  read.
-/

namespace ScriptFront

/-- A name in the program. -/
structure Identifier where
  /-- The token it was read from. -/
  token : Token
  /-- The name. -/
  name : String
deriving DecidableEq, Repr

/-- The name that a token holds. -/
def Identifier.ofToken (token : Token) : Identifier :=
  ⟨token, token.value⟩

mutual

/-- An expression. -/
inductive Expr where
  /-- A name. -/
  | identifier (id : Identifier)
  /-- An integer literal and its value. -/
  | integer (token : Token) (value : Int)
  /-- A literal with a fraction and its value. -/
  | float (token : Token) (value : Numeral.Double)
  /-- A string literal; the text has its escapes resolved. -/
  | string (token : Token) (text : String)
  /-- `true` or `false`. -/
  | boolean (token : Token) (value : Bool)
  /-- `null`. -/
  | null (token : Token)
  /-- The receiver `@`. -/
  | receiver (token : Token)
  /-- `[a, b]`. -/
  | array (token : Token) (elements : List Expr)
  /-- Keys and values in braces, in the order of the text. -/
  | dict (token : Token) (pairs : List (Expr × Expr))
  /-- `[a, b, ...rest]` as the pattern of a match case. -/
  | arrayPattern (token : Token) (elements : List Expr) (rest : Option Identifier)
  /-- `...name`. -/
  | spread (token : Token) (name : Identifier)
  /-- An operator before its operand. -/
  | unary (token : Token) (operator : String) (right : Expr)
  /-- An operator between its operands. -/
  | binary (token : Token) (left : Expr) (operator : String) (right : Expr)
  /-- `x++` and `x--`; the token is the last one of the operand. -/
  | step (token : Token) (operator : String)
  /-- `a..b`. -/
  | range (token : Token) (start stop : Expr)
  /-- `name = value`. -/
  | assign (token : Token) (name : Identifier) (value : Expr)
  /-- `name += value` and its like. -/
  | compoundAssign (token : Token) (name : Identifier) (operator : String) (value : Expr)
  /-- Assignment to an indexed value; the target is the whole `a[i]`. -/
  | indexAssign (token : Token) (target : Expr) (operator : String) (value : Expr)
  /-- Assignment to `object.property`, whose own token is the dot. -/
  | propertyAssign (token dot : Token) (object : Expr) (property : Identifier)
      (operator : String) (value : Expr)
  /-- `f(a, b)`. -/
  | call (token : Token) (function : Expr) (arguments : List Expr)
  /-- `a[i]`. -/
  | index (token : Token) (left index : Expr)
  /-- `a[i:j]`, each bound being optional. -/
  | slice (token : Token) (left : Expr) (start stop : Option Expr)
  /-- `object.property`. -/
  | property (token : Token) (object : Expr) (property : Identifier)
  /-- `object.method(a, b)`. -/
  | method (token : Token) (object : Expr) (method : Identifier) (arguments : List Expr)
  /-- `if` with an optional `else`. -/
  | conditional (token : Token) (condition : Expr) (consequence : Block)
      (alternative : Option Block)
  /-- `while`. -/
  | whileLoop (token : Token) (condition : Expr) (body : Block)
  /-- `for value in iterable`, with an optional name for the key. -/
  | forLoop (token : Token) (key : Option Identifier) (value : Identifier) (iterable : Expr)
      (body : Block)
  /-- `repeat count`; the body sees the round as `counter`. -/
  | repeatLoop (token : Token) (counter : String) (count : Expr) (body : Block)
  /-- `switch` with its clauses. -/
  | switch (token : Token) (subject : Expr) (cases : List CaseClause)
  /-- `match` with its cases. -/
  | matching (token : Token) (subject : Expr) (cases : List MatchCase)
  /-- A function, named or not; `async` when it was announced so. -/
  | function (async : Bool) (token : Token) (name : Option Identifier)
      (parameters : List Identifier) (defaults : List (String × Expr)) (body : Block)
  /-- `await value`. -/
  | await (token : Token) (value : Expr)
  /-- A channel, with an optional size. -/
  | channel (token : Token) (size : Option Expr)
  /-- `import a, b`; each name once. -/
  | importing (token : Token) (names : List Identifier)
  /-- `package name` and its body. -/
  | package (token : Token) (name : Identifier) (body : Block)

/-- A statement. -/
inductive Stmt where
  /-- `let name = value`, or `const` when it is constant. -/
  | declaration (token : Token) (name : Identifier) (constant : Bool) (value : Expr)
  /-- `return`, with an optional value. -/
  | returning (token : Token) (value : Option Expr)
  /-- `break`. -/
  | breaking (token : Token)
  /-- `continue`. -/
  | continuing (token : Token)
  /-- `include` with the path as a string literal. -/
  | including (token path : Token) (text : String)
  /-- A block that stands alone. -/
  | block (inner : Block)
  /-- `enum` with its members in the order of the text. -/
  | enumeration (token : Token) (name : Identifier) (members : List (Identifier × Expr))
  /-- The declaration of an error type. -/
  | errorDeclaration (token : Token) (name : Identifier) (parameters : List Identifier)
  /-- A word and one expression. -/
  | declarative (token : Token) (word : Declarative) (value : Expr)
  /-- `go` and an expression. -/
  | go (token : Token) (expression : Expr)
  /-- An expression that stands alone. -/
  | expression (token : Token) (expression : Expr)

/-- Statements in braces. -/
structure Block where
  /-- The opening brace, or the token of the lone expression that the block was made of. -/
  token : Token
  /-- The statements. -/
  body : List Stmt

/-- One clause of a `switch`. -/
structure CaseClause where
  /-- The word that the clause starts with. -/
  token : Token
  /-- The clause for every other value. -/
  isDefault : Bool
  /-- The values that select the clause. -/
  values : List Expr
  /-- What is done. -/
  body : Block

/-- One case of a `match`. -/
structure MatchCase where
  /-- The token that the pattern starts with. -/
  token : Token
  /-- The pattern. -/
  pattern : Expr
  /-- A further condition. -/
  guard : Option Expr
  /-- What is done. -/
  body : Block

end

/-! ## The token of a node -/

/-- The token that an expression starts from. -/
def Expr.token : Expr → Token
  | .identifier id => id.token
  | .integer token _ | .float token _ | .string token _ | .boolean token _ | .null token
  | .receiver token | .array token _ | .dict token _ | .arrayPattern token _ _ | .spread token _
  | .unary token _ _ | .binary token _ _ _ | .step token _ | .range token _ _
  | .assign token _ _ | .compoundAssign token _ _ _ | .indexAssign token _ _ _
  | .propertyAssign token _ _ _ _ _ | .call token _ _ | .index token _ _ | .slice token _ _ _
  | .property token _ _ | .method token _ _ _ | .conditional token _ _ _ | .whileLoop token _ _
  | .forLoop token _ _ _ _ | .repeatLoop token _ _ _ | .switch token _ _ | .matching token _ _
  | .function _ token _ _ _ _ | .await token _ | .channel token _ | .importing token _
  | .package token _ _ => token

/-- The token that a statement starts from. -/
def Stmt.token : Stmt → Token
  | .block inner => inner.token
  | .declaration token _ _ _ | .returning token _ | .breaking token | .continuing token
  | .including token _ _ | .enumeration token _ _ | .errorDeclaration token _ _
  | .declarative token _ _ | .go token _ | .expression token _ => token

/-- A block that holds one expression and nothing else. -/
def Block.ofExpr (expression : Expr) : Block :=
  ⟨expression.token, [.expression expression.token expression]⟩

/-! ## Looking things up -/

/-- The defaults of a function's parameters: one value per name, in the order of the names. -/
abbrev Defaults := List (String × Expr)

/-- The defaults with one more value; a value that the name had before is replaced. -/
def Defaults.insert (name : String) (value : Expr) : Defaults → Defaults
  | [] => [(name, value)]
  | (other, current) :: rest =>
    if name = other then (name, value) :: rest
    else if name < other then (name, value) :: (other, current) :: rest
    else (other, current) :: Defaults.insert name value rest

/-- The default of a parameter. -/
def Defaults.find? (defaults : Defaults) (name : String) : Option Expr :=
  defaults.lookup name

/-- A parameter as it is declared. -/
abbrev Parameter := Identifier × Option Expr

/-- The defaults that a parameter list declares; of two parameters of one name the later counts. -/
def Defaults.ofParameters (parameters : List Parameter) : Defaults :=
  parameters.foldl
    (fun defaults parameter =>
      match parameter.2 with
      | some value => Defaults.insert parameter.1.name value defaults
      | none => defaults)
    []

/-- The value of the first member of the name. -/
def memberValue? (members : List (Identifier × Expr)) (name : String) : Option Expr :=
  (members.find? fun member => member.1.name == name).map Prod.snd

/-- The first clause for every other value. -/
def defaultClause? (cases : List CaseClause) : Option CaseClause :=
  cases.find? CaseClause.isDefault

/-! ## Programs -/

/-- The statement slots of a program, in order. An empty slot is a statement that could not be
read. -/
structure Program where
  /-- The slots. -/
  slots : List (Option Stmt)

namespace Program

/-- The statements that were read. -/
def statements (program : Program) : List Stmt :=
  program.slots.filterMap id

/-- Some statement could not be read. -/
def hasAbsent (program : Program) : Bool :=
  program.slots.any Option.isNone

end Program

end ScriptFront
