import ScriptFront.Numeral.Integer

/-!
# Escapes in string literals

`unescape` resolves the escapes between the quotes of a literal. A backslash and one of
`n t r 0`, a quote or a backslash is one character; `\x` takes two hexadecimal digits and `\u` four.
An escape that is not complete, names no character or is not known stands for its own characters.
-/

namespace ScriptFront.Lexeme

open Numeral (Radix)

/-- The character that a backslash and this letter stand for. -/
def shortEscape? (letter : Char) : Option Char :=
  if letter = 'n' then some '\n'
  else if letter = 't' then some '\t'
  else if letter = 'r' then some '\r'
  else if letter = '0' then some '\x00'
  else if letter = '\\' ∨ letter = '\x22' ∨ letter = '\x27' then some letter
  else none

/-- How many digits the code after a backslash and this letter takes. -/
def codeLength? (letter : Char) : Option Nat :=
  if letter = 'x' then some 2
  else if letter = 'u' then some 4
  else none

/-- The longest run of hexadecimal digits at the start of the text, but at most `limit` of them. -/
def hexRun (limit : Nat) (text : List Char) : List Char :=
  (text.take limit).takeWhile Radix.hexadecimal.isDigit

/-- The character of a code, none for a surrogate. -/
def charOfCode? (code : Nat) : Option Char :=
  if h : code.isValidChar then some (Char.ofNatAux code h) else none

/-- What a backslash, the letter and the digits stand for. -/
def decodeCode (letter : Char) (length : Nat) (digits : List Char) : List Char :=
  let code? :=
    if digits.length = length then (Numeral.magnitude? .hexadecimal digits).bind charOfCode?
    else none
  match code? with
  | some c => [c]
  | none => '\\' :: letter :: digits

/-- A text with its escapes resolved, `skip` characters of it having been used already. -/
def unescapeAfter : Nat → List Char → List Char
  | _, [] => []
  | skip + 1, _ :: rest => unescapeAfter skip rest
  | 0, c :: rest =>
    if c ≠ '\\' then c :: unescapeAfter 0 rest
    else
      match rest with
      | [] => ['\\']
      | letter :: tail =>
        match shortEscape? letter, codeLength? letter with
        | some d, _ => d :: unescapeAfter 1 rest
        | none, some length =>
          let digits := hexRun length tail
          decodeCode letter length digits ++ unescapeAfter (1 + digits.length) rest
        | none, none => '\\' :: unescapeAfter 0 rest

/-- The contents of a string literal with their escapes resolved. -/
def unescape (contents : List Char) : List Char :=
  unescapeAfter 0 contents

end ScriptFront.Lexeme
