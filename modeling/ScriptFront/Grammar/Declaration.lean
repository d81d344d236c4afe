import ScriptFront.Grammar.Operand

/-!
# Functions, channels, imports and packages

The rules for expressions that bring names or bodies of their own.
-/

namespace ScriptFront.Rule

/-! ## Functions -/

/-- The parameters after a comma, if there is one. -/
def parameterTail (defaultSeen : Bool) : Rule (List Parameter) := do
  if ← peekIs .comma then
    advance
    need (.parameters defaultSeen) done
  else return []

/-- The remaining parameters of a function, the name of the first being the next token. Once one has
a default, all that follow need one. -/
def parameters (defaultSeen : Bool) : Rule (List Parameter) := do
  let id ← expectIdentifier
  if ← peekIs .assignment then
    advance
    let value ← nextExpr
    return (id, some value) :: (← parameterTail true)
  else if defaultSeen then fail (.defaultParameterOrder id.name)
  else return (id, none) :: (← parameterTail false)

/-- A parameter list, from its opening parenthesis on. -/
def parameterList : Rule (List Parameter) := do
  if ← peekIs .closeParen then
    advance
    return []
  else
    need (.parameters false) fun parameters => do
      expect .closeParen
      return parameters

/-- A name, if one is next. -/
def optionalName : Rule (Option Identifier) := do
  if ← peekIs .identifier then
    advance
    return some (Identifier.ofToken (← current))
  else return none

/-- All of a function after the keyword at hand; the node keeps the given token. -/
def functionFrom (async : Bool) (token : Token) : Rule Expr := do
  let name ← optionalName
  expect .openParen
  let parameters ← parameterList
  let body ← body
  return .function async token name (parameters.map Prod.fst)
    (Defaults.ofParameters parameters) body

/-- A function. -/
def function : Rule Expr := do
  functionFrom false (← current)

/-- A function announced by `async`. -/
def asyncFunction : Rule Expr := do
  let token ← current
  expect .funcWord
  functionFrom true token

/-! ## Channels, imports, packages -/

/-- A channel, with a size in parentheses if one follows. -/
def channel : Rule Expr := do
  let token ← current
  if ← peekIs .openParen then
    advance
    return .channel token (some (← grouping))
  else return .channel token none

/-- The remaining names of an import. -/
def names : Rule (List Identifier) := do
  let id ← expectIdentifier
  if ← peekIs .comma then
    advance
    need .names fun rest => done (id :: rest)
  else return [id]

/-- The names that are not among those seen, each once. -/
def distinctNames (seen : List String) : List Identifier → List Identifier
  | [] => []
  | id :: rest =>
    if seen.contains id.name then distinctNames seen rest
    else id :: distinctNames (id.name :: seen) rest

/-- `import a, b`; a name that comes again is dropped. -/
def importing : Rule Expr := do
  let token ← current
  need .names fun names => done (.importing token (distinctNames [] names))

/-- `package name block`. -/
def package : Rule Expr := do
  let token ← current
  let name ← expectIdentifier
  return .package token name (← body)

end ScriptFront.Rule
