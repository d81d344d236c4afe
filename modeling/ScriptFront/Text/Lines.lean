/-!
# The lines of a text

A line ends at a newline, which is not part of it; a carriage return right before that newline is
not part of it either. What follows the last newline is a line of its own when it is not empty.
-/

namespace ScriptFront.Text

/-- A reversed line without the carriage return that ended it. -/
def dropReturn : List Char → List Char
  | [] => []
  | c :: rest => if c = '\r' then rest else c :: rest

/-- The lines of a text whose first line already began with `begun`, kept in reverse. -/
def linesAfter (begun : List Char) : List Char → List (List Char)
  | [] => if begun.isEmpty then [] else [begun.reverse]
  | c :: rest =>
    if c = '\n' then (dropReturn begun).reverse :: linesAfter [] rest
    else linesAfter (c :: begun) rest

/-- The lines of a text, in order. -/
def lines (text : List Char) : List (List Char) :=
  linesAfter [] text

/-- The line with the given number, counted from one. -/
def line? (text : String) (number : Nat) : Option String :=
  match number with
  | 0 => none
  | n + 1 => ((lines text.toList)[n]?).map String.ofList

/-- How many newlines a text holds. -/
def newlines (text : List Char) : Nat :=
  text.count '\n'

end ScriptFront.Text
