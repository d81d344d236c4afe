import ScriptFront.Text.Join
import ScriptFront.Text.Quoted
import ScriptFront.Tree.Basic

/-!
# The printed form of a tree

`render` writes a tree in one canonical form: operators in parentheses with single spaces around
them, blocks on one line, string literals quoted, numbers as they were written. A program puts each
statement on a line of its own, and `<error>` where one could not be read.
-/

namespace ScriptFront

/-- Names with a comma and a space between them. -/
def renderNames (names : List Identifier) : String :=
  Text.joinWith ", " (names.map Identifier.name)

/-- A name with a separator in front, or nothing. -/
def renderName? (separator : String) : Option Identifier → String
  | none => ""
  | some id => separator ++ id.name

mutual

/-- The printed form of an expression. -/
def Expr.render : Expr → String
  | .identifier id => id.name
  | .integer token _ => token.value
  | .float token _ => token.value
  | .string _ text => Text.quote text
  | .boolean _ value => if value then "true" else "false"
  | .null _ => "null"
  | .receiver _ => "@"
  | .array _ elements => "[" ++ Text.joinWith ", " (Expr.renderEach elements) ++ "]"
  | .dict _ pairs => "\x7b" ++ Text.joinWith ", " (Expr.renderPairs pairs) ++ "\x7d"
  | .arrayPattern _ elements rest =>
    let rest := match rest with
      | none => []
      | some id => ["..." ++ id.name]
    "[" ++ Text.joinWith ", " (Expr.renderEach elements ++ rest) ++ "]"
  | .spread _ name => "..." ++ name.name
  | .unary _ operator right => "(" ++ operator ++ right.render ++ ")"
  | .binary _ left operator right =>
    "(" ++ left.render ++ " " ++ operator ++ " " ++ right.render ++ ")"
  | .step token operator => "(" ++ token.value ++ operator ++ ")"
  | .range _ start stop => "(" ++ start.render ++ ".." ++ stop.render ++ ")"
  | .assign _ name value => "(" ++ name.name ++ " = " ++ value.render ++ ")"
  | .compoundAssign _ name operator value =>
    "(" ++ name.name ++ " " ++ operator ++ " " ++ value.render ++ ")"
  | .indexAssign _ target operator value =>
    "(" ++ target.render ++ " " ++ operator ++ " " ++ value.render ++ ")"
  | .propertyAssign _ _ object property operator value =>
    "(" ++ object.render ++ "." ++ property.name ++ " " ++ operator ++ " " ++ value.render ++ ")"
  | .call _ function arguments =>
    function.render ++ "(" ++ Text.joinWith ", " (Expr.renderEach arguments) ++ ")"
  | .index _ left index => "(" ++ left.render ++ "[" ++ index.render ++ "])"
  | .slice _ left start stop =>
    "(" ++ left.render ++ "[" ++ Expr.render? "" start ++ ":" ++ Expr.render? "" stop ++ "])"
  | .property _ object property => object.render ++ "." ++ property.name
  | .method _ object method arguments =>
    object.render ++ "." ++ method.name ++
      "(" ++ Text.joinWith ", " (Expr.renderEach arguments) ++ ")"
  | .conditional _ condition consequence alternative =>
    "if (" ++ condition.render ++ ") " ++ consequence.render ++ Block.render? " else " alternative
  | .whileLoop _ condition body => "while (" ++ condition.render ++ ") " ++ body.render
  | .forLoop _ key value iterable body =>
    let key := match key with
      | none => ""
      | some id => id.name ++ ", "
    "for " ++ key ++ value.name ++ " in " ++ iterable.render ++ " " ++ body.render
  | .repeatLoop _ counter count body =>
    "repeat (" ++ counter ++ ") " ++ count.render ++ " " ++ body.render
  | .switch _ subject cases =>
    "switch (" ++ subject.render ++ ") \x7b " ++ CaseClause.renderAll cases ++ "\x7d"
  | .matching _ subject cases =>
    "match " ++ subject.render ++
      " \x7b " ++ Text.joinWith ", " (MatchCase.renderEach cases) ++ " \x7d"
  | .function async _ name parameters defaults body =>
    let shown := Expr.renderDefaults defaults
    let parameters := parameters.map fun id =>
      id.name ++ (match shown.lookup id.name with
        | none => ""
        | some value => " = " ++ value)
    (if async then "async func" else "func") ++ renderName? " " name ++
      "(" ++ Text.joinWith ", " parameters ++ ") " ++ body.render
  | .await _ value => "(await " ++ value.render ++ ")"
  | .channel _ none => "chan"
  | .channel _ (some size) => "chan(" ++ size.render ++ ")"
  | .importing _ names => "import " ++ renderNames names
  | .package _ name body => "package " ++ name.name ++ " " ++ body.render
termination_by structural tree => tree

/-- The printed forms of several expressions. -/
def Expr.renderEach : List Expr → List String
  | [] => []
  | expression :: rest => expression.render :: Expr.renderEach rest
termination_by structural trees => trees

/-- The printed forms of keys and values. -/
def Expr.renderPairs : List (Expr × Expr) → List String
  | [] => []
  | (key, value) :: rest => (key.render ++ ": " ++ value.render) :: Expr.renderPairs rest
termination_by structural trees => trees

/-- The printed forms of default values, by name. -/
def Expr.renderDefaults : List (String × Expr) → List (String × String)
  | [] => []
  | (name, value) :: rest => (name, value.render) :: Expr.renderDefaults rest
termination_by structural trees => trees

/-- The printed form of an expression with a separator in front, or nothing. -/
def Expr.render? (separator : String) : Option Expr → String
  | none => ""
  | some expression => separator ++ expression.render
termination_by structural tree => tree

/-- The printed form of a block with a separator in front, or nothing. -/
def Block.render? (separator : String) : Option Block → String
  | none => ""
  | some block => separator ++ block.render
termination_by structural tree => tree

/-- The printed form of a block. -/
def Block.render : Block → String
  | ⟨_, []⟩ => "\x7b \x7d"
  | ⟨_, body⟩ => "\x7b " ++ Text.joinWith "; " (Stmt.renderEach body) ++ " \x7d"
termination_by structural tree => tree

/-- The printed form of a clause. -/
def CaseClause.render : CaseClause → String
  | ⟨_, true, _, body⟩ => "default " ++ body.render
  | ⟨_, false, values, body⟩ =>
    "case " ++ Text.joinWith ", " (Expr.renderEach values) ++ " " ++ body.render
termination_by structural tree => tree

/-- The printed forms of clauses, each with a space after it. -/
def CaseClause.renderAll : List CaseClause → String
  | [] => ""
  | clause :: rest => clause.render ++ " " ++ CaseClause.renderAll rest
termination_by structural trees => trees

/-- The printed form of a case. -/
def MatchCase.render : MatchCase → String
  | ⟨_, pattern, guard, body⟩ =>
    pattern.render ++ Expr.render? " if " guard ++ " => " ++ body.render
termination_by structural tree => tree

/-- The printed forms of cases. -/
def MatchCase.renderEach : List MatchCase → List String
  | [] => []
  | each :: rest => each.render :: MatchCase.renderEach rest
termination_by structural trees => trees

/-- The printed form of a statement. -/
def Stmt.render : Stmt → String
  | .declaration _ name constant value =>
    (if constant then "const " else "let ") ++ name.name ++ " = " ++ value.render
  | .returning _ value => "return" ++ Expr.render? " " value
  | .breaking _ => "break"
  | .continuing _ => "continue"
  | .including _ _ text => "include " ++ Text.quote text
  | .block inner => inner.render
  | .enumeration _ name members =>
    "enum " ++ name.name ++ " \x7b " ++ Text.joinWith ", " (Stmt.renderMembers members) ++ " \x7d"
  | .errorDeclaration _ name parameters =>
    "error " ++ name.name ++ "(" ++ renderNames parameters ++ ")"
  | .declarative _ word value => word.keyword ++ " " ++ value.render
  | .go _ expression => "go " ++ expression.render
  | .expression _ expression => expression.render
termination_by structural tree => tree

/-- The printed forms of several statements. -/
def Stmt.renderEach : List Stmt → List String
  | [] => []
  | statement :: rest => statement.render :: Stmt.renderEach rest
termination_by structural trees => trees

/-- The printed forms of members. -/
def Stmt.renderMembers : List (Identifier × Expr) → List String
  | [] => []
  | (name, value) :: rest => (name.name ++ " = " ++ value.render) :: Stmt.renderMembers rest
termination_by structural trees => trees

end

/-- The printed form of a slot. -/
def renderSlot : Option Stmt → String
  | none => "<error>"
  | some statement => statement.render

/-- The printed form of a program: one slot per line. -/
def Program.render (program : Program) : String :=
  Text.joinWith "\n" (program.slots.map renderSlot)

end ScriptFront
