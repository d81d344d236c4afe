import ScriptFront.Proofs.Lexer.Layout
import ScriptFront.Proofs.Lexer.Positions

/-!
# How tokens are spelled

* `Token.Spelled` — what the text of a token can be, by its kind. All tokens that a scan finds are
  spelled so (`Token.Scanned.spelled`).
* `Token.Spelled.named`, `Token.Spelled.integer`, `Token.Spelled.float` — names are words that are
  not reserved, or `import`; numbers begin with a digit.
* `Token.Spelled.operatorKind_eq` — an operator has the one spelling of its kind.
-/

namespace ScriptFront

open Lexeme

/-- The text is a word that can name something: it is not reserved, or it is `import`. -/
structure Lexeme.Nameable (name : String) : Prop where
  word : ∃ c run, name.toList = c :: run ∧ isWordStart c = true ∧ ∀ d ∈ run, isWordPart d = true
  free : Kind.ofWord? name = none ∨ name = "import"

/-- What a token can be. -/
inductive Token.Spelled (token : Token) : Prop
  | name (hkind : token.kind = .identifier) (h : Nameable token.value)
  | reserved (h : (token.value, token.kind) ∈ Kind.words)
  | integer (hkind : token.kind = .integer)
      (h : ∃ c run, token.value.toList = c :: run ∧ c.isDigit = true ∧
        ∀ d ∈ run, isWordPart d = true)
  | float (hkind : token.kind = .float)
      (h : ∃ whole part, token.value.toList = whole ++ '.' :: part ∧ whole ≠ [] ∧ part ≠ [] ∧
        (∀ c ∈ whole, c.isDigit = true) ∧ ∀ c ∈ part, c.isDigit = true)
  | mark (h : .fixed token.value token.kind ∈ patterns)
  | other (hkind : token.kind = .string ∨ token.kind = .illegal)

/-- A digit can be part of a name. -/
theorem isWordPart_of_digit {c : Char} (h : c.isDigit = true) : isWordPart c = true :=
  isWordPart_iff.2 (.inr h)

/-- A word is a name or reserved. -/
theorem spelled_of_word {token : Token} {text lexeme after : List Char}
    (hlexeme : Pattern.word.lexeme? text = some lexeme)
    (hkind : token.kind = Lexer.wordKind (String.ofList lexeme) after)
    (hvalue : token.value = String.ofList lexeme) : token.Spelled := by
  have hword : ∃ c run, token.value.toList = c :: run ∧ isWordStart c = true ∧
      ∀ d ∈ run, isWordPart d = true := by
    rw [hvalue, String.toList_ofList]
    exact exists_of_word hlexeme
  rw [← hvalue, Lexer.wordKind] at hkind
  split at hkind
  · next himport => exact .name hkind ⟨hword, .inr himport.1⟩
  · cases hreserved : Kind.ofWord? token.value with
    | none =>
      rw [hreserved] at hkind
      exact .name hkind ⟨hword, .inl hreserved⟩
    | some kind =>
      rw [hreserved, Option.getD_some] at hkind
      obtain ⟨before, behind, hsplit, -⟩ := List.lookup_eq_some_iff.1 hreserved
      refine .reserved ?_
      rw [hkind, hsplit]
      simp

/-- Every token that a scan finds is spelled by its kind. -/
theorem Token.Scanned.spelled {token : Token} (h : token.Scanned) : token.Spelled := by
  rcases h.exists_match with ⟨pattern, lexeme, after, hmatch, hmakes⟩ | ⟨_, _, _, hillegal, _⟩
  · obtain ⟨hmem, hlexeme⟩ := firstMatch?_eq_some hmatch
    cases pattern with
    | blanks | lineComment | closedComment | openComment => cases hmakes
    | word => exact spelled_of_word hlexeme hmakes.1 hmakes.2
    | marked radix =>
      obtain ⟨mark, run, hrun, hmark, -, hdigits⟩ := exists_of_marked hlexeme
      refine .integer hmakes.1 ⟨'0', mark :: run, ?_, by decide, ?_⟩
      · rw [hmakes.2, String.toList_ofList, hrun]
      · rw [List.forall_mem_cons]
        exact ⟨(isWordPart_of_isMark hmark).1, fun d hd => isWordPart_of_isDigit (hdigits d hd)⟩
    | digits =>
      obtain ⟨hne, hdigits⟩ := forall_of_digits hlexeme
      obtain ⟨c, run, rfl⟩ := List.exists_cons_of_ne_nil hne
      rw [List.forall_mem_cons] at hdigits
      refine .integer hmakes.1 ⟨c, run, ?_, hdigits.1, fun d hd =>
        isWordPart_of_digit (hdigits.2 d hd)⟩
      rw [hmakes.2, String.toList_ofList]
    | fraction =>
      refine .float hmakes.1 ?_
      rw [hmakes.2, String.toList_ofList]
      exact exists_of_fraction hlexeme
    | quoted _ => exact .other (.inl hmakes)
    | strayQuote => exact .other (.inr hmakes.1)
    | fixed spelling kind =>
      simp only [Pattern.lexeme?, Option.ite_none_right_eq_some] at hlexeme
      obtain ⟨hspelling, -⟩ := nonempty?_eq_some hlexeme.2
      refine .mark ?_
      rw [hmakes.1, hmakes.2, ← hspelling, String.ofList_toList]
      exact hmem
  · exact .other (.inr hillegal)

namespace Token.Spelled

variable {token : Token}

/-- The kind is none that a mark or a reserved word has. -/
theorem kind_ne_of_reserved (h : (token.value, token.kind) ∈ Kind.words) :
    token.kind ∉ [.identifier, .integer, .float] := by
  have hall : ∀ entry ∈ Kind.words, entry.2 ∉ [.identifier, .integer, .float] := by decide
  exact hall _ h

/-- Punctuation marks are neither names nor numbers. -/
theorem kind_ne_of_mark (h : .fixed token.value token.kind ∈ patterns) :
    token.kind ∉ [.identifier, .integer, .float] := by
  have hall : ∀ kind ∈ patterns.filterMap Pattern.fixedKind?,
      kind ∉ [.identifier, .integer, .float] := by decide
  exact hall _ (List.mem_filterMap.2 ⟨_, h, rfl⟩)

/-- A name is a word that can name something. -/
theorem named (h : token.Spelled) (hkind : token.kind = .identifier) : Nameable token.value := by
  cases h with
  | name _ h => exact h
  | reserved h => exact absurd (by simp [hkind]) (kind_ne_of_reserved h)
  | mark h => exact absurd (by simp [hkind]) (kind_ne_of_mark h)
  | integer h | float h | other h => simp [hkind] at h

/-- An integer is a digit and what can be part of a name. -/
theorem integer_text (h : token.Spelled) (hkind : token.kind = .integer) :
    ∃ c run, token.value.toList = c :: run ∧ c.isDigit = true ∧ ∀ d ∈ run, isWordPart d = true := by
  cases h with
  | integer _ h => exact h
  | reserved h => exact absurd (by simp [hkind]) (kind_ne_of_reserved h)
  | mark h => exact absurd (by simp [hkind]) (kind_ne_of_mark h)
  | name h | float h | other h => simp [hkind] at h

/-- A number with a fraction is digits, a point and digits. -/
theorem float_text (h : token.Spelled) (hkind : token.kind = .float) :
    ∃ whole part, token.value.toList = whole ++ '.' :: part ∧ whole ≠ [] ∧ part ≠ [] ∧
      (∀ c ∈ whole, c.isDigit = true) ∧ ∀ c ∈ part, c.isDigit = true := by
  cases h with
  | float _ h => exact h
  | reserved h => exact absurd (by simp [hkind]) (kind_ne_of_reserved h)
  | mark h => exact absurd (by simp [hkind]) (kind_ne_of_mark h)
  | name h | integer h | other h => simp [hkind] at h

/-- The spellings of the marks and the reserved words, with their kinds. -/
def spellings : List (String × Kind) :=
  Kind.words ++ patterns.filterMap fun pattern =>
    match pattern with
    | .fixed spelling kind => some (spelling, kind)
    | _ => none

/-- A token that is neither literal nor name has one of the spellings of its kind. -/
theorem mem_spellings (h : token.Spelled)
    (hkind : token.kind ∉ [.identifier, .integer, .float, .string, .illegal]) :
    (token.value, token.kind) ∈ spellings := by
  rw [spellings, List.mem_append, List.mem_filterMap]
  cases h with
  | reserved h => exact .inl h
  | mark h => exact .inr ⟨_, h, rfl⟩
  | name h | integer h | float h => simp [h] at hkind
  | other h => rcases h with h | h <;> simp [h] at hkind

/-- An operator has the one spelling of its kind. -/
theorem operatorKind_eq (h : token.Spelled)
    (hkind : Grammar.standard.leading token.kind = some .unary ∨
      Grammar.standard.linking token.kind = some .binary ∨
      Grammar.standard.linking token.kind = some .assignment) :
    operatorKind token.value = token.kind := by
  have hall : ∀ entry ∈ spellings, Grammar.standard.leading entry.2 = some .unary ∨
      Grammar.standard.linking entry.2 = some .binary ∨
      Grammar.standard.linking entry.2 = some .assignment → operatorKind entry.1 = entry.2 := by
    decide +kernel
  refine hall _ (h.mem_spellings fun hmem => ?_) hkind
  have hnone : ∀ kind ∈ [Kind.identifier, .integer, .float, .string, .illegal],
      ¬ (Grammar.standard.leading kind = some .unary ∨
        Grammar.standard.linking kind = some .binary ∨
        Grammar.standard.linking kind = some .assignment) := by decide
  exact hnone _ hmem hkind

/-- The operators that apply to the token before them are two. -/
theorem value_of_trailing (h : token.Spelled)
    (hkind : Grammar.standard.trailing token.kind = true) :
    token.value = "++" ∨ token.value = "--" := by
  have hall : ∀ entry ∈ spellings, Grammar.standard.trailing entry.2 = true →
      entry.1 = "++" ∨ entry.1 = "--" := by decide +kernel
  refine hall _ (h.mem_spellings fun hmem => ?_) hkind
  have hnone : ∀ kind ∈ [Kind.identifier, .integer, .float, .string, .illegal],
      Grammar.standard.trailing kind = false := by decide
  simp [hnone _ hmem] at hkind

/-- A closing bracket has one spelling. -/
theorem value_of_closeBracket (h : token.Spelled) (hkind : token.kind = .closeBracket) :
    token.value = "]" := by
  have hall : ∀ entry ∈ spellings, entry.2 = .closeBracket → entry.1 = "]" := by decide +kernel
  exact hall _ (h.mem_spellings (by simp [hkind])) hkind

end Token.Spelled

end ScriptFront
