import ScriptFront.Tree.Render

/-!
# The outline of a tree

`outline` lists the nodes of a tree from the top down, each with its depth, its role in the node
above, its form, its token and what the form adds to them. Children follow in the order of the
text. An outline holds all that a tree holds, so programs are compared by their outlines.
-/

namespace ScriptFront

/-- What a node adds to its form, token and children. -/
inductive Note where
  /-- Nothing. -/
  | plain
  /-- Yes or no. -/
  | flag (value : Bool)
  /-- How many. -/
  | count (number : Nat)
  /-- A text. -/
  | text (value : String)
  /-- Which bounds of a slice are there. -/
  | bounds (start stop : Bool)
  /-- The members of an enumeration, each with the printed form of what its name stands for. -/
  | members (entries : List (String × String))
  /-- A token. -/
  | token (value : Token)
deriving DecidableEq, Repr

/-- One node of an outline. -/
structure Row where
  /-- How many nodes are above it. -/
  depth : Nat
  /-- What it is to the node above. -/
  role : String
  /-- What it is. -/
  form : String
  /-- The token it starts from. -/
  token : Token
  /-- What else it holds. -/
  note : Note
deriving DecidableEq, Repr

/-- The row of a name. -/
def Identifier.row (id : Identifier) (depth : Nat) (role : String) : Row :=
  ⟨depth, role, "Identifier", id.token, .text id.name⟩

/-- The row of an optional name. -/
def Identifier.row? (id : Option Identifier) (depth : Nat) (role : String) : List Row :=
  id.toList.map fun id => id.row depth role

/-- The rows of names that play the same role. -/
def Identifier.rows (ids : List Identifier) (depth : Nat) (role : String) : List Row :=
  ids.map fun id => id.row depth role

/-- The members of an enumeration, each name with the printed form of its value. -/
def memberNote (members : List (Identifier × Expr)) : Note :=
  .members (members.map fun member =>
    (member.1.name, ((memberValue? members member.1.name).map Expr.render).getD ""))

/-- The token of the clause for every other value, if there is one. -/
def switchNote (cases : List CaseClause) : Note :=
  match defaultClause? cases with
  | none => .plain
  | some clause => .token clause.token

mutual

/-- The outline of an expression. -/
def Expr.outline : Expr → Nat → String → List Row
  | .identifier id, depth, role => [id.row depth role]
  | .integer token value, depth, role => [⟨depth, role, "Integer", token, .text (toString value)⟩]
  | .float token value, depth, role => [⟨depth, role, "Float", token, .text value.hex⟩]
  | .string token text, depth, role => [⟨depth, role, "String", token, .text text⟩]
  | .boolean token value, depth, role => [⟨depth, role, "Boolean", token, .flag value⟩]
  | .null token, depth, role => [⟨depth, role, "Null", token, .plain⟩]
  | .receiver token, depth, role => [⟨depth, role, "At", token, .plain⟩]
  | .array token elements, depth, role =>
    ⟨depth, role, "Array", token, .count elements.length⟩ ::
      Expr.outlines elements (depth + 1) "element"
  | .dict token pairs, depth, role =>
    ⟨depth, role, "Dict", token, .count pairs.length⟩ :: Expr.outlinePairs pairs (depth + 1)
  | .arrayPattern token elements rest, depth, role =>
    ⟨depth, role, "ArrayPattern", token, .count elements.length⟩ ::
      (Expr.outlines elements (depth + 1) "element" ++ Identifier.row? rest (depth + 1) "rest")
  | .spread token name, depth, role =>
    [⟨depth, role, "Spread", token, .plain⟩, name.row (depth + 1) "name"]
  | .unary token operator right, depth, role =>
    ⟨depth, role, "Prefix", token, .text operator⟩ :: right.outline (depth + 1) "right"
  | .binary token left operator right, depth, role =>
    ⟨depth, role, "Infix", token, .text operator⟩ ::
      (left.outline (depth + 1) "left" ++ right.outline (depth + 1) "right")
  | .step token operator, depth, role => [⟨depth, role, "Postfix", token, .text operator⟩]
  | .range token start stop, depth, role =>
    ⟨depth, role, "Range", token, .plain⟩ ::
      (start.outline (depth + 1) "start" ++ stop.outline (depth + 1) "end")
  | .assign token name value, depth, role =>
    ⟨depth, role, "Assign", token, .plain⟩ :: name.row (depth + 1) "name" ::
      value.outline (depth + 1) "value"
  | .compoundAssign token name operator value, depth, role =>
    ⟨depth, role, "CompoundAssign", token, .text operator⟩ :: name.row (depth + 1) "name" ::
      value.outline (depth + 1) "value"
  | .indexAssign token target operator value, depth, role =>
    ⟨depth, role, "IndexAssign", token, .text operator⟩ ::
      (target.outline (depth + 1) "target" ++ value.outline (depth + 1) "value")
  | .propertyAssign token dot object property operator value, depth, role =>
    ⟨depth, role, "PropertyAssign", token, .text operator⟩ ::
      ⟨depth + 1, "target", "Property", dot, .plain⟩ ::
      (object.outline (depth + 2) "object" ++ property.row (depth + 2) "property" ::
        value.outline (depth + 1) "value")
  | .call token function arguments, depth, role =>
    ⟨depth, role, "Call", token, .count arguments.length⟩ ::
      (function.outline (depth + 1) "function" ++
        Expr.outlines arguments (depth + 1) "argument")
  | .index token left index, depth, role =>
    ⟨depth, role, "Index", token, .plain⟩ ::
      (left.outline (depth + 1) "left" ++ index.outline (depth + 1) "index")
  | .slice token left start stop, depth, role =>
    ⟨depth, role, "Slice", token, .bounds start.isSome stop.isSome⟩ ::
      (left.outline (depth + 1) "left" ++ Expr.outline? start (depth + 1) "start" ++
        Expr.outline? stop (depth + 1) "end")
  | .property token object property, depth, role =>
    ⟨depth, role, "Property", token, .plain⟩ ::
      (object.outline (depth + 1) "object" ++ [property.row (depth + 1) "property"])
  | .method token object method arguments, depth, role =>
    ⟨depth, role, "Method", token, .count arguments.length⟩ ::
      (object.outline (depth + 1) "object" ++ method.row (depth + 1) "method" ::
        Expr.outlines arguments (depth + 1) "argument")
  | .conditional token condition consequence alternative, depth, role =>
    ⟨depth, role, "If", token, .flag alternative.isSome⟩ ::
      (condition.outline (depth + 1) "condition" ++
        consequence.outline (depth + 1) "consequence" ++
        Block.outline? alternative (depth + 1) "alternative")
  | .whileLoop token condition body, depth, role =>
    ⟨depth, role, "While", token, .plain⟩ ::
      (condition.outline (depth + 1) "condition" ++ body.outline (depth + 1) "body")
  | .forLoop token key value iterable body, depth, role =>
    ⟨depth, role, "For", token, .flag key.isSome⟩ ::
      (Identifier.row? key (depth + 1) "key" ++ value.row (depth + 1) "value" ::
        (iterable.outline (depth + 1) "iterable" ++ body.outline (depth + 1) "body"))
  | .repeatLoop token counter count body, depth, role =>
    ⟨depth, role, "Repeat", token, .text counter⟩ ::
      (count.outline (depth + 1) "count" ++ body.outline (depth + 1) "body")
  | .switch token subject cases, depth, role =>
    ⟨depth, role, "Switch", token, switchNote cases⟩ ::
      (subject.outline (depth + 1) "subject" ++ CaseClause.outlines cases (depth + 1))
  | .matching token subject cases, depth, role =>
    ⟨depth, role, "Match", token, .count cases.length⟩ ::
      (subject.outline (depth + 1) "subject" ++ MatchCase.outlines cases (depth + 1))
  | .function async token name parameters defaults body, depth, role =>
    ⟨depth, role, if async then "AsyncFunction" else "Function", token,
        .count parameters.length⟩ ::
      (Identifier.row? name (depth + 1) "name" ++
        Identifier.rows parameters (depth + 1) "parameter" ++
        Expr.outlineDefaults defaults (depth + 1) ++ body.outline (depth + 1) "body")
  | .await token value, depth, role =>
    ⟨depth, role, "Await", token, .plain⟩ :: value.outline (depth + 1) "value"
  | .channel token size, depth, role =>
    ⟨depth, role, "Channel", token, .flag size.isSome⟩ :: Expr.outline? size (depth + 1) "size"
  | .importing token names, depth, role =>
    ⟨depth, role, "Import", token, .count names.length⟩ ::
      Identifier.rows names (depth + 1) "name"
  | .package token name body, depth, role =>
    ⟨depth, role, "Package", token, .plain⟩ :: name.row (depth + 1) "name" ::
      body.outline (depth + 1) "body"
termination_by structural tree => tree

/-- The outlines of expressions that play the same role. -/
def Expr.outlines : List Expr → Nat → String → List Row
  | [], _, _ => []
  | expression :: rest, depth, role =>
    expression.outline depth role ++ Expr.outlines rest depth role
termination_by structural trees => trees

/-- The outlines of keys and values. -/
def Expr.outlinePairs : List (Expr × Expr) → Nat → List Row
  | [], _ => []
  | (key, value) :: rest, depth =>
    key.outline depth "key" ++ value.outline depth "value" ++ Expr.outlinePairs rest depth
termination_by structural trees => trees

/-- The outlines of default values, each in a role that names its parameter. -/
def Expr.outlineDefaults : List (String × Expr) → Nat → List Row
  | [], _ => []
  | (name, value) :: rest, depth =>
    value.outline depth ("default:" ++ name) ++ Expr.outlineDefaults rest depth
termination_by structural trees => trees

/-- The outline of an optional expression. -/
def Expr.outline? : Option Expr → Nat → String → List Row
  | none, _, _ => []
  | some expression, depth, role => expression.outline depth role
termination_by structural tree => tree

/-- The outline of an optional block. -/
def Block.outline? : Option Block → Nat → String → List Row
  | none, _, _ => []
  | some block, depth, role => block.outline depth role
termination_by structural tree => tree

/-- The outline of a block. -/
def Block.outline : Block → Nat → String → List Row
  | ⟨token, body⟩, depth, role =>
    ⟨depth, role, "Block", token, .count body.length⟩ :: Stmt.outlines body (depth + 1)
termination_by structural tree => tree

/-- The outlines of clauses. -/
def CaseClause.outlines : List CaseClause → Nat → List Row
  | [], _ => []
  | clause :: rest, depth => clause.outline depth ++ CaseClause.outlines rest depth
termination_by structural trees => trees

/-- The outline of a clause. -/
def CaseClause.outline : CaseClause → Nat → List Row
  | ⟨token, isDefault, values, body⟩, depth =>
    ⟨depth, "case", "CaseClause", token, .flag isDefault⟩ ::
      (Expr.outlines values (depth + 1) "value" ++ body.outline (depth + 1) "body")
termination_by structural tree => tree

/-- The outlines of cases. -/
def MatchCase.outlines : List MatchCase → Nat → List Row
  | [], _ => []
  | each :: rest, depth => each.outline depth ++ MatchCase.outlines rest depth
termination_by structural trees => trees

/-- The outline of a case. -/
def MatchCase.outline : MatchCase → Nat → List Row
  | ⟨token, pattern, guard, body⟩, depth =>
    ⟨depth, "case", "MatchCase", token, .flag guard.isSome⟩ ::
      (pattern.outline (depth + 1) "pattern" ++ Expr.outline? guard (depth + 1) "guard" ++
        body.outline (depth + 1) "body")
termination_by structural tree => tree

/-- The outline of a statement. -/
def Stmt.outline : Stmt → Nat → String → List Row
  | .declaration token name constant value, depth, role =>
    ⟨depth, role, "VarDecl", token, .flag constant⟩ :: name.row (depth + 1) "name" ::
      value.outline (depth + 1) "value"
  | .returning token value, depth, role =>
    ⟨depth, role, "Return", token, .flag value.isSome⟩ :: Expr.outline? value (depth + 1) "value"
  | .breaking token, depth, role => [⟨depth, role, "Break", token, .plain⟩]
  | .continuing token, depth, role => [⟨depth, role, "Continue", token, .plain⟩]
  | .including token path text, depth, role =>
    [⟨depth, role, "Include", token, .plain⟩, ⟨depth + 1, "path", "String", path, .text text⟩]
  | .block inner, depth, role => inner.outline depth role
  | .enumeration token name members, depth, role =>
    ⟨depth, role, "Enum", token, memberNote members⟩ :: name.row (depth + 1) "name" ::
      Stmt.outlineMembers members (depth + 1)
  | .errorDeclaration token name parameters, depth, role =>
    ⟨depth, role, "ErrorDecl", token, .count parameters.length⟩ :: name.row (depth + 1) "name" ::
      Identifier.rows parameters (depth + 1) "parameter"
  | .declarative token word value, depth, role =>
    ⟨depth, role, "Declarative", token, .text word.keyword⟩ :: value.outline (depth + 1) "value"
  | .go token expression, depth, role =>
    ⟨depth, role, "Go", token, .plain⟩ :: expression.outline (depth + 1) "expression"
  | .expression token expression, depth, role =>
    ⟨depth, role, "Expression", token, .plain⟩ :: expression.outline (depth + 1) "expression"
termination_by structural tree => tree

/-- The outlines of the statements of a block. -/
def Stmt.outlines : List Stmt → Nat → List Row
  | [], _ => []
  | statement :: rest, depth => statement.outline depth "stmt" ++ Stmt.outlines rest depth
termination_by structural trees => trees

/-- The outlines of members. -/
def Stmt.outlineMembers : List (Identifier × Expr) → Nat → List Row
  | [], _ => []
  | (name, value) :: rest, depth =>
    name.row depth "member" :: (value.outline depth "value" ++ Stmt.outlineMembers rest depth)
termination_by structural trees => trees

end

/-- The outline of a slot; none for a statement that could not be read. -/
def outlineSlot (slot : Option Stmt) : Option (List Row) :=
  slot.map fun statement => statement.outline 0 "stmt"

/-- The outlines of the slots of a program. -/
def Program.outline (program : Program) : List (Option (List Row)) :=
  program.slots.map outlineSlot

/-- Two programs have the same slots, down to the tokens and their lines. -/
def Program.same (first second : Program) : Bool :=
  first.outline == second.outline

end ScriptFront
