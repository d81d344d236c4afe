/-!
# Integer literals

* `Radix` — the four bases a literal can be written in, with the letter after the leading `0` that
  announces each base but ten.
* `integer? text` — the value of a literal: an optional base mark, an optional sign after it, at
  least one digit of the base, and a value that fits a signed 64-bit word.
-/

namespace ScriptFront.Numeral

/-- The base of a literal. -/
inductive Radix where
  | binary
  | octal
  | decimal
  | hexadecimal
deriving DecidableEq, Repr

namespace Radix

/-- How many digits the base has. -/
def base : Radix → Nat
  | binary => 2
  | octal => 8
  | decimal => 10
  | hexadecimal => 16

/-- The value of a letter or figure as a digit, whatever the base. -/
def figure? (c : Char) : Option Nat :=
  if '0' ≤ c ∧ c ≤ '9' then some (c.toNat - '0'.toNat)
  else if 'a' ≤ c ∧ c ≤ 'z' then some (c.toNat - 'a'.toNat + 10)
  else if 'A' ≤ c ∧ c ≤ 'Z' then some (c.toNat - 'A'.toNat + 10)
  else none

/-- The value of a digit of the base, the letters in either case. -/
def digit? (r : Radix) (c : Char) : Option Nat :=
  (figure? c).filter (· < r.base)

/-- The character is a digit of the base. -/
def isDigit (r : Radix) (c : Char) : Bool :=
  (r.digit? c).isSome

/-- The character after the leading `0` announces the base. -/
def isMark (r : Radix) (c : Char) : Bool :=
  match r with
  | binary => c == 'b' || c == 'B'
  | octal => c == 'o' || c == 'O'
  | decimal => false
  | hexadecimal => c == 'x' || c == 'X'

end Radix

/-- The base that a literal announces and what follows the mark; base ten when there is no mark. -/
def splitRadix : List Char → Radix × List Char
  | '0' :: mark :: digits =>
    if Radix.hexadecimal.isMark mark then (.hexadecimal, digits)
    else if Radix.octal.isMark mark then (.octal, digits)
    else if Radix.binary.isMark mark then (.binary, digits)
    else (.decimal, '0' :: mark :: digits)
  | digits => (.decimal, digits)

/-- The positional value of a list of digits; none when the list is empty or holds anything else. -/
def magnitude? (r : Radix) (digits : List Char) : Option Nat :=
  if digits.isEmpty then none
  else (digits.mapM r.digit?).map (List.foldl (fun value digit => value * r.base + digit) 0)

/-- An optional sign and then digits of the base. -/
def signed? (r : Radix) : List Char → Option Int
  | '-' :: digits => (magnitude? r digits).map fun value => -(value : Int)
  | '+' :: digits => (magnitude? r digits).map Int.ofNat
  | digits => (magnitude? r digits).map Int.ofNat

/-- The value lies in the range of a signed 64-bit word. -/
def fitsWord (value : Int) : Bool :=
  -0x8000000000000000 ≤ value && value < 0x8000000000000000

/-- The value of an integer literal, none when the text is no literal or the value does not fit. -/
def integer? (text : String) : Option Int :=
  let (radix, digits) := splitRadix text.toList
  (signed? radix digits).filter fitsWord

end ScriptFront.Numeral
