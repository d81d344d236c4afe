import ScriptFront.Token.Kind

/-!
# Tokens

A token is a kind, a text and the line it starts on. The text of a string token is its contents with
the escapes resolved; the text of the end of input is empty.
-/

namespace ScriptFront

/-- One unit of a program's text. -/
structure Token where
  /-- What the token is. -/
  kind : Kind
  /-- The text it stands for. -/
  value : String
  /-- The line it starts on, counted from one. -/
  line : Nat
deriving DecidableEq, Repr, Inhabited

namespace Token

/-- The end of input, on the given line. -/
def eof (line : Nat) : Token :=
  ⟨.eof, "", line⟩

/-- The end of input weighs nothing, and every other token one. -/
def weight (token : Token) : Nat :=
  if token.kind = .eof then 0 else 1

/-- An end of input weighs nothing. -/
@[simp] theorem weight_eof (line : Nat) : (eof line).weight = 0 := rfl

/-- No token weighs more than one. -/
theorem weight_le_one (token : Token) : token.weight ≤ 1 := by
  unfold weight
  split <;> omega

/-- A token that is an end of input weighs nothing. -/
theorem weight_of_eq {token : Token} (h : token.kind = .eof) : token.weight = 0 :=
  if_pos h

/-- Every other token weighs one. -/
theorem weight_of_ne {token : Token} (h : token.kind ≠ .eof) : token.weight = 1 :=
  if_neg h

/-- The token's kind is one of those given. -/
def isOneOf (token : Token) (kinds : List Kind) : Bool :=
  kinds.contains token.kind

/-- The kinds whose text varies, so that a dump shows it. -/
def shownKinds : List Kind :=
  [.string, .identifier, .integer, .float, .illegal]

/-- A number in at least four columns, filled up with spaces on the left. -/
def lineColumn (line : Nat) : String :=
  let digits := Nat.toDigits 10 line
  String.ofList (List.replicate (4 - digits.length) ' ' ++ digits)

/-- The token's row in a dump of the token stream. -/
def dump (token : Token) : String :=
  let row := lineColumn token.line ++ " " ++ token.kind.name
  if token.isOneOf shownKinds then row ++ " (" ++ token.value ++ ")" else row

/-- The token in a running text: its kind, its text between backquotes and its line. -/
def describe (token : Token) : String :=
  token.kind.name ++ " `" ++ token.value ++ "` (line " ++ toString token.line ++ ")"

end Token

end ScriptFront
