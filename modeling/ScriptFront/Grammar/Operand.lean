import ScriptFront.Grammar.Rule

/-!
# Literals and bracketed expressions

The rules for expressions that are one token, and for those between brackets. On entry the first
token of the expression is at hand; on success the last one is.
-/

namespace ScriptFront.Rule

/-! ## One token -/

/-- A name. -/
def name : Rule Expr :=
  return .identifier (Identifier.ofToken (← current))

/-- An integer literal. -/
def integer : Rule Expr := do
  let token ← current
  match Numeral.integer? token.value with
  | some value => return .integer token value
  | none => fail (.unreadableNumber token.value)

/-- A literal with a fraction. -/
def float : Rule Expr := do
  let token ← current
  match Numeral.double? token.value with
  | some value => return .float token value
  | none => fail (.unreadableNumber token.value)

/-- A string literal. -/
def string : Rule Expr := do
  let token ← current
  return .string token token.value

/-- A truth value: `true`, and `false` for any other word. -/
def boolean : Rule Expr := do
  let token ← current
  return .boolean token (token.kind = .trueWord)

/-- `null`. -/
def null : Rule Expr :=
  return .null (← current)

/-- The receiver. -/
def receiver : Rule Expr :=
  return .receiver (← current)

/-- `...name`. -/
def spread : Rule Expr := do
  let token ← current
  return .spread token (← expectIdentifier)

/-! ## Brackets -/

/-- An expression in parentheses, which leave no trace in the tree. -/
def grouping : Rule Expr := do
  let inner ← nextExpr
  expect .closeParen
  return inner

/-- The expressions of a list after the first one; a comma may stand before the closing bracket. -/
def listTail (close : Kind) : Rule (List Expr) := do
  if ← peekIs .comma then
    advance
    if ← peekIs close then return []
    else
      let first ← nextExpr
      need (.listTail close) fun rest => done (first :: rest)
  else return []

/-- Expressions between the opening bracket at hand and the closing one. -/
def listBody (close : Kind) : Rule (List Expr) := do
  if ← peekIs close then
    advance
    return []
  else
    let first ← nextExpr
    need (.listTail close) fun rest => do
      expect close
      return first :: rest

/-- An array. -/
def array : Rule Expr := do
  let token ← current
  return .array token (← list .closeBracket)

/-- The remaining members of something in braces, up to the closing brace, which is not taken. Each
`member` but the last needs a comma after it, and the input must not end before the brace. -/
def untilBrace {α : Type} (construct : String) (member : Rule α) (more : Rule (List α)) :
    Rule (List α) := do
  let w ← window
  if w.peek.kind = .closeCurly then return []
  else if w.peek.kind = .eof then fail (.unclosedConstruct construct)
  else
    let first ← member
    let rest ← more
    return first :: rest

/-- A comma, unless the closing brace is next. -/
def memberComma : Rule Unit := do
  if ← peekIs .closeCurly then return () else expect .comma

/-- A key and its value, and the comma after them. -/
def pair : Rule (Expr × Expr) := do
  let key ← nextExpr
  expect .colon
  let value ← nextExpr
  memberComma
  return (key, value)

/-- The remaining pairs of a dict. -/
def pairs : Rule (List (Expr × Expr)) :=
  untilBrace "dict" pair (need .pairs done)

/-- A dict. -/
def dict : Rule Expr := do
  let token ← current
  need .pairs fun pairs => do
    advance
    return .dict token pairs

end ScriptFront.Rule
