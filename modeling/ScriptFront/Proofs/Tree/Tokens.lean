import ScriptFront.Tree.Basic

/-!
# Trees up to their tokens

* `Expr.mapTokens`, `Stmt.mapTokens` — a tree with every token that it stores replaced.
* `Expr.erase` — a tree with all of its tokens taken away. Two trees with the same `erase` differ at
  most in the tokens they store.
-/

namespace ScriptFront

/-- A name with its token replaced. -/
def Identifier.mapTokens (f : Token → Token) (id : Identifier) : Identifier :=
  ⟨f id.token, id.name⟩

mutual

/-- An expression with every token in it replaced. -/
def Expr.mapTokens (f : Token → Token) : Expr → Expr
  | .identifier id => .identifier (id.mapTokens f)
  | .integer token value => .integer (f token) value
  | .float token value => .float (f token) value
  | .string token text => .string (f token) text
  | .boolean token value => .boolean (f token) value
  | .null token => .null (f token)
  | .receiver token => .receiver (f token)
  | .array token elements => .array (f token) (Expr.mapTokensEach f elements)
  | .dict token pairs => .dict (f token) (Expr.mapTokensPairs f pairs)
  | .arrayPattern token elements rest =>
    .arrayPattern (f token) (Expr.mapTokensEach f elements) (rest.map (Identifier.mapTokens f))
  | .spread token name => .spread (f token) (name.mapTokens f)
  | .unary token operator right => .unary (f token) operator (right.mapTokens f)
  | .binary token left operator right =>
    .binary (f token) (left.mapTokens f) operator (right.mapTokens f)
  | .step token operator => .step (f token) operator
  | .range token start stop => .range (f token) (start.mapTokens f) (stop.mapTokens f)
  | .assign token name value => .assign (f token) (name.mapTokens f) (value.mapTokens f)
  | .compoundAssign token name operator value =>
    .compoundAssign (f token) (name.mapTokens f) operator (value.mapTokens f)
  | .indexAssign token target operator value =>
    .indexAssign (f token) (target.mapTokens f) operator (value.mapTokens f)
  | .propertyAssign token dot object property operator value =>
    .propertyAssign (f token) (f dot) (object.mapTokens f) (property.mapTokens f) operator
      (value.mapTokens f)
  | .call token function arguments =>
    .call (f token) (function.mapTokens f) (Expr.mapTokensEach f arguments)
  | .index token left index => .index (f token) (left.mapTokens f) (index.mapTokens f)
  | .slice token left start stop =>
    .slice (f token) (left.mapTokens f) (Expr.mapTokens? f start) (Expr.mapTokens? f stop)
  | .property token object property =>
    .property (f token) (object.mapTokens f) (property.mapTokens f)
  | .method token object method arguments =>
    .method (f token) (object.mapTokens f) (method.mapTokens f) (Expr.mapTokensEach f arguments)
  | .conditional token condition consequence alternative =>
    .conditional (f token) (condition.mapTokens f) (consequence.mapTokens f)
      (Block.mapTokens? f alternative)
  | .whileLoop token condition body =>
    .whileLoop (f token) (condition.mapTokens f) (body.mapTokens f)
  | .forLoop token key value iterable body =>
    .forLoop (f token) (key.map (Identifier.mapTokens f)) (value.mapTokens f)
      (iterable.mapTokens f) (body.mapTokens f)
  | .repeatLoop token counter count body =>
    .repeatLoop (f token) counter (count.mapTokens f) (body.mapTokens f)
  | .switch token subject cases =>
    .switch (f token) (subject.mapTokens f) (CaseClause.mapTokensEach f cases)
  | .matching token subject cases =>
    .matching (f token) (subject.mapTokens f) (MatchCase.mapTokensEach f cases)
  | .function async token name parameters defaults body =>
    .function async (f token) (name.map (Identifier.mapTokens f))
      (parameters.map (Identifier.mapTokens f)) (Expr.mapTokensDefaults f defaults)
      (body.mapTokens f)
  | .await token value => .await (f token) (value.mapTokens f)
  | .channel token size => .channel (f token) (Expr.mapTokens? f size)
  | .importing token names => .importing (f token) (names.map (Identifier.mapTokens f))
  | .package token name body => .package (f token) (name.mapTokens f) (body.mapTokens f)
termination_by structural tree => tree

/-- Several expressions with every token in them replaced. -/
def Expr.mapTokensEach (f : Token → Token) : List Expr → List Expr
  | [] => []
  | expression :: rest => expression.mapTokens f :: Expr.mapTokensEach f rest
termination_by structural trees => trees

/-- Keys and values with every token in them replaced. -/
def Expr.mapTokensPairs (f : Token → Token) : List (Expr × Expr) → List (Expr × Expr)
  | [] => []
  | (key, value) :: rest => (key.mapTokens f, value.mapTokens f) :: Expr.mapTokensPairs f rest
termination_by structural trees => trees

/-- Default values with every token in them replaced. -/
def Expr.mapTokensDefaults (f : Token → Token) : List (String × Expr) → List (String × Expr)
  | [] => []
  | (name, value) :: rest => (name, value.mapTokens f) :: Expr.mapTokensDefaults f rest
termination_by structural trees => trees

/-- An expression that may be missing with every token in it replaced. -/
def Expr.mapTokens? (f : Token → Token) : Option Expr → Option Expr
  | none => none
  | some expression => some (expression.mapTokens f)
termination_by structural tree => tree

/-- A block with every token in it replaced. -/
def Block.mapTokens (f : Token → Token) : Block → Block
  | ⟨token, body⟩ => ⟨f token, Stmt.mapTokensEach f body⟩
termination_by structural tree => tree

/-- A block that may be missing with every token in it replaced. -/
def Block.mapTokens? (f : Token → Token) : Option Block → Option Block
  | none => none
  | some block => some (block.mapTokens f)
termination_by structural tree => tree

/-- A clause with every token in it replaced. -/
def CaseClause.mapTokens (f : Token → Token) : CaseClause → CaseClause
  | ⟨token, isDefault, values, body⟩ =>
    ⟨f token, isDefault, Expr.mapTokensEach f values, body.mapTokens f⟩
termination_by structural tree => tree

/-- Clauses with every token in them replaced. -/
def CaseClause.mapTokensEach (f : Token → Token) : List CaseClause → List CaseClause
  | [] => []
  | clause :: rest => clause.mapTokens f :: CaseClause.mapTokensEach f rest
termination_by structural trees => trees

/-- A case with every token in it replaced. -/
def MatchCase.mapTokens (f : Token → Token) : MatchCase → MatchCase
  | ⟨token, pattern, guard, body⟩ =>
    ⟨f token, pattern.mapTokens f, Expr.mapTokens? f guard, body.mapTokens f⟩
termination_by structural tree => tree

/-- Cases with every token in them replaced. -/
def MatchCase.mapTokensEach (f : Token → Token) : List MatchCase → List MatchCase
  | [] => []
  | each :: rest => each.mapTokens f :: MatchCase.mapTokensEach f rest
termination_by structural trees => trees

/-- A statement with every token in it replaced. -/
def Stmt.mapTokens (f : Token → Token) : Stmt → Stmt
  | .declaration token name constant value =>
    .declaration (f token) (name.mapTokens f) constant (value.mapTokens f)
  | .returning token value => .returning (f token) (Expr.mapTokens? f value)
  | .breaking token => .breaking (f token)
  | .continuing token => .continuing (f token)
  | .including token path text => .including (f token) (f path) text
  | .block inner => .block (inner.mapTokens f)
  | .enumeration token name members =>
    .enumeration (f token) (name.mapTokens f) (Stmt.mapTokensMembers f members)
  | .errorDeclaration token name parameters =>
    .errorDeclaration (f token) (name.mapTokens f) (parameters.map (Identifier.mapTokens f))
  | .declarative token word value => .declarative (f token) word (value.mapTokens f)
  | .go token expression => .go (f token) (expression.mapTokens f)
  | .expression token expression => .expression (f token) (expression.mapTokens f)
termination_by structural tree => tree

/-- Several statements with every token in them replaced. -/
def Stmt.mapTokensEach (f : Token → Token) : List Stmt → List Stmt
  | [] => []
  | statement :: rest => statement.mapTokens f :: Stmt.mapTokensEach f rest
termination_by structural trees => trees

/-- Members with every token in them replaced. -/
def Stmt.mapTokensMembers (f : Token → Token) : List (Identifier × Expr) → List (Identifier × Expr)
  | [] => []
  | (name, value) :: rest => (name.mapTokens f, value.mapTokens f) :: Stmt.mapTokensMembers f rest
termination_by structural trees => trees

end

/-- An expression without its tokens. -/
def Expr.erase (expression : Expr) : Expr :=
  expression.mapTokens fun _ => default

/-- Several expressions without their tokens. -/
def Expr.eraseEach (expressions : List Expr) : List Expr :=
  Expr.mapTokensEach (fun _ => default) expressions

/-- An expression that may be missing, without its tokens. -/
def Expr.erase? (expression : Option Expr) : Option Expr :=
  Expr.mapTokens? (fun _ => default) expression

namespace Expr

variable {e object position : Expr} {id : Identifier} {token : Token}

/-- Only a name is a name without its tokens. -/
theorem exists_of_erase_identifier (h : e.erase = (identifier id).erase) :
    ∃ id', e = identifier id' ∧ id'.name = id.name := by
  cases e with
  | identifier id' =>
    have hid : id'.mapTokens (fun _ => default) = id.mapTokens (fun _ => default) :=
      Expr.identifier.inj h
    exact ⟨id', rfl, (Identifier.mk.inj hid).2⟩
  | _ => cases h

/-- What is a property without its tokens is a property. -/
theorem exists_of_erase_property (h : e.erase = (property token object id).erase) :
    ∃ token' object' id', e = property token' object' id' ∧ object'.erase = object.erase ∧
      id'.name = id.name := by
  cases e with
  | property token' object' id' =>
    obtain ⟨-, hobject, hid⟩ := Expr.property.inj h
    exact ⟨token', object', id', rfl, hobject, (Identifier.mk.inj hid).2⟩
  | _ => cases h

/-- What is an index without its tokens is an index. -/
theorem exists_of_erase_index (h : e.erase = (index token object position).erase) :
    ∃ token' object' position', e = index token' object' position' := by
  cases e with
  | index token' object' position' => exact ⟨token', object', position', rfl⟩
  | _ => cases h

end Expr

end ScriptFront
