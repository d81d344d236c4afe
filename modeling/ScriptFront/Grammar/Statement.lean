import ScriptFront.Grammar.Operand

/-!
# Statements

The rules for statements. On entry the first token of the statement is at hand; on success the last
one is, and that is the semicolon after the statement if there is one.
-/

namespace ScriptFront.Rule

/-- An expression and the semicolon after it, the expression starting on the next token. -/
def operand : Rule Expr := do
  let value ← nextExpr
  skipSemicolon
  return value

/-- An expression that stands alone. -/
def expressionStatement : Rule Stmt := do
  let token ← current
  let expression ← anyExpr
  skipSemicolon
  return .expression token expression

/-- `let name = value` and `const name = value`. -/
def declaration : Rule Stmt := do
  let w ← window
  if w.peek.kind = .identifier then
    let name ← expectIdentifier
    expect .assignment
    return .declaration w.current name (w.current.kind = .constWord) (← operand)
  else
    fail (.misplacedToken w.peek.kind "expected identifier during variable declaration")

/-- `return`, with a value unless the statement ends right away. -/
def returning : Rule Stmt := do
  let w ← window
  if w.peek.kind = .semicolon then
    advance
    return .returning w.current none
  else if w.peek.kind = .closeCurly ∨ w.peek.kind = .eof then return .returning w.current none
  else return .returning w.current (some (← operand))

/-- `break`. -/
def breaking : Rule Stmt := do
  let token ← current
  skipSemicolon
  return .breaking token

/-- `continue`. -/
def continuing : Rule Stmt := do
  let token ← current
  skipSemicolon
  return .continuing token

/-- `include` and a string literal. -/
def including : Rule Stmt := do
  let token ← current
  expect .string
  let path ← current
  skipSemicolon
  return .including token path path.value

/-- A block that stands alone. -/
def blockStatement : Rule Stmt :=
  return .block (← block)

/-- A member of an enumeration and its value, and the comma after them. -/
def enumMember : Rule (Identifier × Expr) := do
  let name ← expectIdentifier
  expect .assignment
  let value ← nextExpr
  memberComma
  return (name, value)

/-- The remaining members of an enumeration. -/
def members : Rule (List (Identifier × Expr)) :=
  untilBrace "enum" enumMember (need .members done)

/-- `enum Name { … }`. -/
def enumeration : Rule Stmt := do
  let token ← current
  let name ← expectIdentifier
  expect .openCurly
  need .members fun members => do
    advance
    return .enumeration token name members

/-- `go` and an expression. -/
def go : Rule Stmt := do
  let token ← current
  return .go token (← operand)

/-- A word that takes one expression. -/
def declarative : Rule Stmt := do
  let token ← current
  match Declarative.ofKind? token.kind with
  | some word => return .declarative token word (← operand)
  | none => fail (.unexpectedToken token.kind)

/-- The names that expressions consist of, when each is a bare name. -/
def bareNames? (expressions : List Expr) : Option (List Identifier) :=
  expressions.mapM fun expression =>
    match expression with
    | .identifier id => some id
    | _ => none

/-- What `error` and an expression mean: a call of a bare name on bare names declares an error type,
and anything else reports an error. -/
def errorNode (token : Token) (value : Expr) : Stmt :=
  match value with
  | .call _ (.identifier name) arguments =>
    match bareNames? arguments with
    | some parameters => .errorDeclaration token name parameters
    | none => .declarative token .error value
  | _ => .declarative token .error value

/-- `error` and an expression. -/
def errorStatement : Rule Stmt := do
  let token ← current
  return errorNode token (← operand)

/-- The remaining statements of a block, up to the closing brace, which is not taken. A statement
that fails does not end the search for faults, but the block has failed with it. -/
def statements : Rule (List Stmt) := do
  let w ← window
  if w.current.kind = .closeCurly then return []
  else if w.current.kind = .eof then fail .unclosedBlock
  else
    salvage .stmt
      (fun first => do
        advance
        need .statements fun rest => done (first :: rest))
      .statements

end ScriptFront.Rule
