import ScriptFront.Diagnostic.Basic
import ScriptFront.Text.Blank
import ScriptFront.Text.Lines

/-!
# Diagnostics shown with the line they point at

A report names the cause and the file, shows the offending line without the blanks around it and
with a row of carets under it, and ends with the summary. When the text has no such line the middle
part is left out.
-/

namespace ScriptFront

/-- The bar that leads the rows above and below the shown line, right under the bar of that line. -/
def gutter (number : String) : String :=
  String.ofList (List.replicate (number.length + 1) ' ') ++ "|"

/-- The shown line between its two gutter rows. The carets count the bytes of the line's UTF-8 form,
and there is at least one of them. -/
def excerpt (number : String) (line : String) : String :=
  let shown := String.ofList (Text.trim line.toList)
  gutter number ++ "\n" ++
  number ++ " | " ++ shown ++ "\n" ++
  gutter number ++ " " ++ String.ofList (List.replicate (max shown.utf8ByteSize 1) '^') ++ "\n"

/-- The first row of a report: the cause, and the advice in brackets if there is any. -/
def Cause.headline (cause : Cause) : String :=
  match cause.tip? with
  | none => "Error: " ++ cause.name
  | some tip => "Error: " ++ cause.name ++ " (" ++ tip ++ ")"

/-- The diagnostic as a report on a file with the given text. -/
def Diagnostic.report (text file : String) (diagnostic : Diagnostic) : String :=
  let shown :=
    match Text.line? text diagnostic.line with
    | none => ""
    | some line => excerpt (toString diagnostic.line) line
  diagnostic.cause.headline ++ "\n" ++ "-> " ++ file ++ "\n" ++ shown ++ diagnostic.summary

end ScriptFront
