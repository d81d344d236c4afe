import Mathlib.Data.Nat.Digits.Defs
import ScriptFront.Grammar.Table
import ScriptFront.Lexeme.Pattern
import ScriptFront.Text.Quoted
import ScriptFront.Tree.Basic

/-!
# The operator fragment

* `operatorKind` — the kind of the token that an operator's text spells.
* `Expr.Operational` — the expressions built from names, integers, strings, truth values, `null` and
  the receiver with operators, assignments, brackets and member accesses.
* `Expr.spell` — the tokens of the printed form of such an expression, all on the first line.
-/

namespace ScriptFront

/-! ## Texts of leaves and operators -/

/-- The text is a name: a word that is not reserved. -/
def Lexeme.IsName (text : String) : Prop :=
  Pattern.word.lexeme? text.toList = some text.toList ∧ Kind.ofWord? text = none

/-- The shapes of integer literals. -/
def Lexeme.integerPatterns : List Lexeme.Pattern :=
  [.marked .hexadecimal, .marked .octal, .marked .binary, .digits]

/-- The value of a list of digits of a base, the most significant one first. -/
def Lexeme.digitsValue (radix : Numeral.Radix) (digits : List Char) : Nat :=
  Nat.ofDigits radix.base (digits.reverse.map fun c => (Numeral.Radix.figure? c).getD 0)

/-- The value of an integer literal of the shape: behind a zero and a base mark in that base, and in
base ten without them. -/
def Lexeme.Pattern.value (pattern : Lexeme.Pattern) (text : List Char) : Nat :=
  match pattern with
  | .marked radix => digitsValue radix (text.drop 2)
  | _ => digitsValue .decimal text

/-- The text is an integer literal of the value, which is below two to the power of 63. -/
def Lexeme.IsInteger (text : String) (value : Int) : Prop :=
  ∃ pattern ∈ integerPatterns, pattern.lexeme? text.toList = some text.toList ∧
    value = pattern.value text.toList ∧ value < 2 ^ 63

/-- Quoted, no character of the text is shown by its code. -/
def Text.IsShown (text : String) : Prop :=
  ∀ c ∈ text.toList, Text.quoteChar c ≠ Text.codeEscape c

/-- The texts of operators and the kinds of their tokens. -/
def operatorKinds : List (String × Kind) :=
  [("!", .not), ("-", .dash), ("+", .plus), ("&", .ampersand), ("*", .star),
   ("&&", .and), ("||", .or), ("in", .inWord), ("??", .nullCoalesce), ("==", .equals),
   ("!=", .notEquals), ("<", .less), ("<=", .lessEquals), (">", .greater), (">=", .greaterEquals),
   ("/", .slash), ("**", .starStar), ("%", .percent),
   ("=", .assignment), ("+=", .plusEquals), ("-=", .minusEquals), ("*=", .starEquals),
   ("/=", .slashEquals), ("%=", .percentEquals)]

/-- The kind of the token that an operator's text spells. -/
def operatorKind (text : String) : Kind :=
  (operatorKinds.lookup text).getD .illegal

/-- The operator stands before its operand. -/
def IsPrefix (operator : String) : Prop :=
  Grammar.standard.leading (operatorKind operator) = some .unary

/-- The operator stands between its operands. -/
def IsInfix (operator : String) : Prop :=
  Grammar.standard.linking (operatorKind operator) = some .binary

/-- The operator assigns. -/
def IsAssignment (operator : String) : Prop :=
  Grammar.standard.linking (operatorKind operator) = some .assignment

/-- An operator of the fragment is in the table of operators. -/
theorem mem_operatorKinds {operator : String} (h : operatorKind operator ≠ .illegal) :
    (operator, operatorKind operator) ∈ operatorKinds := by
  unfold operatorKind at h ⊢
  cases hlookup : operatorKinds.lookup operator with
  | none => simp [hlookup] at h
  | some kind =>
    obtain ⟨before, after, hsplit, -⟩ := List.lookup_eq_some_iff.1 hlookup
    simp [hsplit]

/-- An operator between operands has a kind. -/
theorem IsInfix.ne_illegal {operator : String} (h : IsInfix operator) :
    operatorKind operator ≠ .illegal := by
  intro hkind
  rw [IsInfix, hkind] at h
  exact absurd h (by decide)

/-- An operator of assignment has a kind. -/
theorem IsAssignment.ne_illegal {operator : String} (h : IsAssignment operator) :
    operatorKind operator ≠ .illegal := by
  intro hkind
  rw [IsAssignment, hkind] at h
  exact absurd h (by decide)

/-- A token on the first line. -/
def Token.first (kind : Kind) (text : String) : Token :=
  ⟨kind, text, 1⟩

namespace Expr

/-- The expression reads a property. -/
def IsProperty : Expr → Prop
  | .property _ _ _ => True
  | _ => False

/-- The expression reads an indexed value. -/
def IsIndex : Expr → Prop
  | .index _ _ _ => True
  | _ => False

/-! ## The fragment -/

/-- An expression of the operator fragment. -/
inductive Operational : Expr → Prop
  | identifier {id : Identifier} (hname : Lexeme.IsName id.name) : Operational (.identifier id)
  | integer {token : Token} {value : Int} (htext : Lexeme.IsInteger token.value value) :
      Operational (.integer token value)
  | string {token : Token} {text : String} (htext : Text.IsShown text) :
      Operational (.string token text)
  | boolean (token : Token) (value : Bool) : Operational (.boolean token value)
  | null (token : Token) : Operational (.null token)
  | receiver (token : Token) : Operational (.receiver token)
  | array {token : Token} {elements : List Expr} (helements : ∀ e ∈ elements, Operational e) :
      Operational (.array token elements)
  | unary {token : Token} {operator : String} {right : Expr} (hoperator : IsPrefix operator)
      (hright : Operational right) : Operational (.unary token operator right)
  | binary {token : Token} {left right : Expr} {operator : String} (hoperator : IsInfix operator)
      (hleft : Operational left) (hright : Operational right) :
      Operational (.binary token left operator right)
  | range {token : Token} {start stop : Expr} (hstart : Operational start)
      (hstop : Operational stop) : Operational (.range token start stop)
  | assign {token : Token} {name : Identifier} {value : Expr} (hname : Lexeme.IsName name.name)
      (hvalue : Operational value) : Operational (.assign token name value)
  | compoundAssign {token : Token} {name : Identifier} {operator : String} {value : Expr}
      (hname : Lexeme.IsName name.name) (hoperator : IsAssignment operator)
      (hcompound : operator ≠ "=") (hvalue : Operational value) :
      Operational (.compoundAssign token name operator value)
  | indexAssign {token : Token} {target value : Expr} {operator : String}
      (hindex : target.IsIndex) (htarget : Operational target) (hoperator : IsAssignment operator)
      (hvalue : Operational value) : Operational (.indexAssign token target operator value)
  | propertyAssign {token dot : Token} {object value : Expr} {property : Identifier}
      {operator : String} (hobject : Operational object) (hproperty : Lexeme.IsName property.name)
      (hoperator : IsAssignment operator) (hvalue : Operational value) :
      Operational (.propertyAssign token dot object property operator value)
  | call {token : Token} {function : Expr} {arguments : List Expr}
      (hmember : ¬ function.IsProperty) (hfunction : Operational function)
      (harguments : ∀ e ∈ arguments, Operational e) : Operational (.call token function arguments)
  | index {token : Token} {left index : Expr} (hleft : Operational left)
      (hindex : Operational index) : Operational (.index token left index)
  | slice {token : Token} {left : Expr} {start stop : Option Expr} (hleft : Operational left)
      (hstart : ∀ e ∈ start, Operational e) (hstop : ∀ e ∈ stop, Operational e) :
      Operational (.slice token left start stop)
  | property {token : Token} {object : Expr} {property : Identifier} (hobject : Operational object)
      (hproperty : Lexeme.IsName property.name) : Operational (.property token object property)
  | method {token : Token} {object : Expr} {method : Identifier} {arguments : List Expr}
      (hobject : Operational object) (hmethod : Lexeme.IsName method.name)
      (harguments : ∀ e ∈ arguments, Operational e) :
      Operational (.method token object method arguments)
  | await {token : Token} {value : Expr} (hvalue : Operational value) :
      Operational (.await token value)

end Expr

/-! ## The tokens of the printed form -/

/-- Tokens between parentheses. -/
def inParens (tokens : List Token) : List Token :=
  .first .openParen "(" :: (tokens ++ [.first .closeParen ")"])

/-- Tokens between brackets. -/
def inBrackets (tokens : List Token) : List Token :=
  .first .openBracket "[" :: (tokens ++ [.first .closeBracket "]"])

mutual

/-- The tokens of the printed form of an expression of the fragment. -/
def Expr.spell : Expr → List Token
  | .identifier id => [.first .identifier id.name]
  | .integer token _ => [.first .integer token.value]
  | .string _ text => [.first .string text]
  | .boolean _ value =>
    [if value then .first .trueWord "true" else .first .falseWord "false"]
  | .null _ => [.first .nullWord "null"]
  | .receiver _ => [.first .atSign "@"]
  | .array _ elements => inBrackets (Expr.spellEach elements)
  | .unary _ operator right => inParens (.first (operatorKind operator) operator :: right.spell)
  | .binary _ left operator right =>
    inParens (left.spell ++ .first (operatorKind operator) operator :: right.spell)
  | .range _ start stop => inParens (start.spell ++ .first .dotDot ".." :: stop.spell)
  | .assign _ name value =>
    inParens (.first .identifier name.name :: .first .assignment "=" :: value.spell)
  | .compoundAssign _ name operator value =>
    inParens (.first .identifier name.name :: .first (operatorKind operator) operator ::
      value.spell)
  | .indexAssign _ target operator value =>
    inParens (target.spell ++ .first (operatorKind operator) operator :: value.spell)
  | .propertyAssign _ _ object name operator value =>
    inParens (object.spell ++ .first .dot "." :: .first .identifier name.name ::
      .first (operatorKind operator) operator :: value.spell)
  | .call _ callee arguments => callee.spell ++ inParens (Expr.spellEach arguments)
  | .index _ left position => inParens (left.spell ++ inBrackets position.spell)
  | .slice _ left start stop =>
    inParens (left.spell ++ inBrackets (Expr.spell? start ++ .first .colon ":" :: Expr.spell? stop))
  | .property _ object name => object.spell ++ [.first .dot ".", .first .identifier name.name]
  | .method _ object name arguments =>
    object.spell ++ .first .dot "." :: .first .identifier name.name ::
      inParens (Expr.spellEach arguments)
  | .await _ value => inParens (.first .awaitWord "await" :: value.spell)
  | _ => []
termination_by structural tree => tree

/-- The tokens of several expressions with commas between them. -/
def Expr.spellEach : List Expr → List Token
  | [] => []
  | expression :: rest => expression.spell ++ Expr.spellTail rest
termination_by structural trees => trees

/-- The tokens of several expressions with a comma in front of each. -/
def Expr.spellTail : List Expr → List Token
  | [] => []
  | expression :: rest => .first .comma "," :: (expression.spell ++ Expr.spellTail rest)
termination_by structural trees => trees

/-- The tokens of an expression that may be missing. -/
def Expr.spell? : Option Expr → List Token
  | none => []
  | some expression => expression.spell
termination_by structural tree => tree

end

end ScriptFront
