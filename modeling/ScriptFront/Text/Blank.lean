/-!
# Blank characters

* `isBlank c` — `c` has the property White_Space: the tab-to-return controls, the space, and the
  wider spaces and separators outside the first block.
* `trimStart`, `trim` — a text without the blanks at its start, and without those at both ends.
-/

namespace ScriptFront.Text

/-- A character that only separates: one of the 25 with the property White_Space. -/
def isBlank (c : Char) : Bool :=
  let n := c.toNat
  (9 ≤ n && n ≤ 13) || n == 0x20 || n == 0x85 || n == 0xA0 || n == 0x1680 ||
    (0x2000 ≤ n && n ≤ 0x200A) || n == 0x2028 || n == 0x2029 || n == 0x202F || n == 0x205F ||
    n == 0x3000

/-- The text from its first character that is not blank. -/
def trimStart (text : List Char) : List Char :=
  text.dropWhile isBlank

/-- The text between its first and its last character that is not blank. -/
def trim (text : List Char) : List Char :=
  (trimStart (trimStart text).reverse).reverse

end ScriptFront.Text
