import ScriptFront.Text.Unprintable

/-!
# Quoted texts

`quote text` is the form in which messages and printed programs show a text: between double quotes,
with a backslash in front of a double quote and of a backslash, with the short names `\0`, `\t`,
`\r` and `\n`, and with the code in braces for every other character that has no visible form.
-/

namespace ScriptFront.Text

/-- The code of a character in lower-case hexadecimal digits, in braces after a backslash and a
`u`. -/
def codeEscape (c : Char) : List Char :=
  "\\u\x7b".toList ++ Nat.toDigits 16 c.toNat ++ ['\x7d']

/-- One character as a quoted text shows it. -/
def quoteChar (c : Char) : List Char :=
  if c = '\x00' then ['\\', '0']
  else if c = '\t' then ['\\', 't']
  else if c = '\r' then ['\\', 'r']
  else if c = '\n' then ['\\', 'n']
  else if c = '\\' then ['\\', '\\']
  else if c = '\x22' then ['\\', '\x22']
  else if isUnprintable c then codeEscape c
  else [c]

/-- The characters of a quoted text, its quotes included. -/
def quoteChars (text : List Char) : List Char :=
  '\x22' :: (text.flatMap quoteChar ++ ['\x22'])

/-- The text between double quotes, each character as `quoteChar` shows it. -/
def quote (text : String) : String :=
  String.ofList (quoteChars text.toList)

end ScriptFront.Text
