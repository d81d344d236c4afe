/-!
# Joining texts

`joinWith separator texts` writes the texts one after the other with the separator between
neighbours.
-/

namespace ScriptFront.Text

/-- The texts in order, with the separator between neighbours. -/
def joinWith (separator : String) : List String → String
  | [] => ""
  | [text] => text
  | text :: rest => text ++ separator ++ joinWith separator rest

/-- No texts are joined to the empty one. -/
@[simp] theorem joinWith_nil (separator : String) : joinWith separator [] = "" := rfl

/-- A single text is joined to itself. -/
@[simp] theorem joinWith_singleton (separator text : String) :
    joinWith separator [text] = text := rfl

/-- Between two texts stands the separator. -/
@[simp] theorem joinWith_cons_cons (separator first second : String) (rest : List String) :
    joinWith separator (first :: second :: rest) =
      first ++ separator ++ joinWith separator (second :: rest) := rfl

end ScriptFront.Text
