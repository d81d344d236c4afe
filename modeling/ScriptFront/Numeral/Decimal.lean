import ScriptFront.Numeral.Integer

/-!
# Decimal fractions as 64-bit floating-point words

* `Double` — a binary64 value, kept as its word.
* `nearestBits num den` — the word of the double nearest to the fraction `num / den`, ties to the
  even mantissa, and infinity when the fraction is too large. All arithmetic is exact, on `Nat`.
* `double? text` — the value of a decimal text: an optional sign, digits with at most one point
  among or beside them, an optional exponent; or one of the words `inf`, `infinity` and `nan` in
  any case.
-/

namespace ScriptFront.Numeral

/-- A binary64 value, given by its word. -/
structure Double where
  /-- Sign, exponent and mantissa, from the highest bit down. -/
  bits : UInt64
deriving DecidableEq, Repr

/-- The word of positive infinity. -/
def infinityBits : Nat := 0x7FF0000000000000

/-- The word of the quiet not-a-number with no payload. -/
def nanBits : Nat := 0x7FF8000000000000

/-- The word of a sign alone. -/
def signBit : Nat := 0x8000000000000000

/-- The exponent `k` with `2 ^ k ≤ num / den < 2 ^ (k + 1)`, for positive `num` and `den`. -/
def binaryExponent (num den : Nat) : Int :=
  let guess : Int := (num.log2 : Int) - (den.log2 : Int)
  let reached :=
    if 0 ≤ guess then den * Nat.pow 2 guess.toNat ≤ num
    else den ≤ num * Nat.pow 2 (-guess).toNat
  if reached then guess else guess - 1

/-- The quotient rounded to the nearest natural number, a half to the even one. -/
def divNearestEven (num den : Nat) : Nat :=
  let quotient := num / den
  let twice := 2 * (num % den)
  if den < twice || (twice == den && quotient % 2 == 1) then quotient + 1 else quotient

/-- The word of the non-negative double nearest to `num / den`. The unit in the last place is
`2 ^ unit`, with 53 bits above it or, near zero, the least unit there is. -/
def nearestBits (num den : Nat) : Nat :=
  if num = 0 then 0
  else
    let full := binaryExponent num den - 52
    let unit := if full < -1074 then -1074 else full
    let mantissa :=
      divNearestEven (num * Nat.pow 2 (-unit).toNat) (den * Nat.pow 2 unit.toNat)
    min ((unit + 1074).toNat * 0x10000000000000 + mantissa) infinityBits

/-- The word nearest to `digits · 10 ^ exponent`. A power far outside the range of the format is
settled by the number of digits alone. -/
def scaledBits (digits : Nat) (exponent : Int) : Nat :=
  let magnitude : Int := ((Nat.toDigits 10 digits).length : Int) + exponent
  if digits = 0 then 0
  else if 310 < magnitude then infinityBits
  else if magnitude < -330 then 0
  else if 0 ≤ exponent then nearestBits (digits * Nat.pow 10 exponent.toNat) 1
  else nearestBits digits (Nat.pow 10 (-exponent).toNat)

/-- The value of a list of decimal digits, an empty list being zero. -/
def decimalValue (digits : List Char) : Nat :=
  digits.foldl (fun value c => value * 10 + (c.toNat - '0'.toNat)) 0

/-- The exponent part of a decimal: nothing at all, or `e`, an optional sign and digits. -/
def exponent? : List Char → Option Int
  | [] => some 0
  | mark :: rest =>
    if mark = 'e' ∨ mark = 'E' then
      (match rest with
        | '-' :: digits => (magnitude? .decimal digits).map fun value => -(value : Int)
        | '+' :: digits => (magnitude? .decimal digits).map Int.ofNat
        | digits => (magnitude? .decimal digits).map Int.ofNat)
    else none

/-- Digits before and after a point, at least one in all, and an exponent. -/
def decimal? (text : List Char) : Option Nat :=
  let whole := text.takeWhile Char.isDigit
  let afterWhole := text.dropWhile Char.isDigit
  let fractionText : List Char :=
    match afterWhole with
    | '.' :: rest => rest
    | _ => []
  let fraction := fractionText.takeWhile Char.isDigit
  let tail :=
    match afterWhole with
    | '.' :: _ => fractionText.dropWhile Char.isDigit
    | rest => rest
  if whole.isEmpty && fraction.isEmpty then none
  else (exponent? tail).map fun exponent =>
    scaledBits (decimalValue (whole ++ fraction)) (exponent - (fraction.length : Int))

/-- The named values, in any case. -/
def namedBits? (text : List Char) : Option Nat :=
  match String.ofList (text.map Char.toLower) with
  | "inf" => some infinityBits
  | "infinity" => some infinityBits
  | "nan" => some nanBits
  | _ => none

/-- The word of a decimal text without its sign. -/
def unsignedBits? (text : List Char) : Option Nat :=
  (decimal? text).orElse fun _ => namedBits? text

/-- The value of a decimal text, correctly rounded. -/
def double? (text : String) : Option Double :=
  let bits? :=
    match text.toList with
    | '-' :: rest => (unsignedBits? rest).map (signBit + ·)
    | '+' :: rest => unsignedBits? rest
    | rest => unsignedBits? rest
  bits?.map fun bits => ⟨bits.toUInt64⟩

/-- The word in sixteen lower-case hexadecimal digits. -/
def Double.hex (value : Double) : String :=
  let digits := Nat.toDigits 16 value.bits.toNat
  String.ofList (List.replicate (16 - digits.length) '0' ++ digits)

end ScriptFront.Numeral
