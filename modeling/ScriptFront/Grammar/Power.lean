/-!
# Binding powers

`Power` lists how strongly an operator holds its operands, weakest first. `Power.rank` numbers the
powers in that order, and the order on powers is the order of their ranks.
-/

namespace ScriptFront

/-- How strongly an operator holds its operands, weakest first. -/
inductive Power where
  | default
  | assignment
  | logical
  | equality
  | relational
  | range
  | additive
  | multiplicative
  | exponent
  | modulus
  | unary
  | call
  | index
  | member
deriving DecidableEq, Repr, Inhabited

namespace Power

/-- Every power, weakest first. -/
def all : List Power :=
  [default, assignment, logical, equality, relational, range, additive, multiplicative, exponent,
   modulus, unary, call, index, member]

/-- The place of a power in the list, weakest first. -/
def rank : Power → Nat
  | default => 0
  | assignment => 1
  | logical => 2
  | equality => 3
  | relational => 4
  | range => 5
  | additive => 6
  | multiplicative => 7
  | exponent => 8
  | modulus => 9
  | unary => 10
  | call => 11
  | index => 12
  | member => 13

/-- The order of powers is that of their ranks. -/
instance : LT Power := ⟨fun a b => a.rank < b.rank⟩

/-- The order of powers is that of their ranks. -/
instance : LE Power := ⟨fun a b => a.rank ≤ b.rank⟩

instance (a b : Power) : Decidable (a < b) := inferInstanceAs (Decidable (a.rank < b.rank))

instance (a b : Power) : Decidable (a ≤ b) := inferInstanceAs (Decidable (a.rank ≤ b.rank))

end Power

end ScriptFront
