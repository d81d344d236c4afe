import ScriptFront.Proofs.Lexer.Printed
import ScriptFront.Proofs.Parser.Misses

/-!
# Integer literals

* `figures`, `announcements` — the digits with their values, and how a literal announces its base.
* `exists_pattern` — a literal has one of the shapes of integers, and its value there is the
  positional value of its digits.
* `parseTokens_integer` — what the parser makes of a lone literal.
* `integer_literal_means` — a literal stands for its positional value, or is rejected.
-/

namespace ScriptFront

open ScriptFront.Parser Lexeme
open Numeral (Radix)

/-! ## The text of a literal -/

/-- The digits and their values, the letters in either case. -/
def figures : List (Char × Nat) :=
  [('0', 0), ('1', 1), ('2', 2), ('3', 3), ('4', 4), ('5', 5), ('6', 6), ('7', 7), ('8', 8),
   ('9', 9), ('a', 10), ('b', 11), ('c', 12), ('d', 13), ('e', 14), ('f', 15),
   ('A', 10), ('B', 11), ('C', 12), ('D', 13), ('E', 14), ('F', 15)]

/-- How a literal announces its base; one in base ten does not. -/
def announcements : List (Radix × String) :=
  [(.decimal, ""), (.hexadecimal, "0x"), (.hexadecimal, "0X"), (.octal, "0o"), (.octal, "0O"),
   (.binary, "0b"), (.binary, "0B")]

variable {radix : Radix} {digits : List (Char × Nat)}

/-- The table of figures says what each of them stands for. -/
theorem figure?_of_figures : ∀ figure ∈ figures, Radix.figure? figure.1 = some figure.2 := by
  decide

/-- A figure below the base is a digit of the base. -/
theorem isDigit_of_figures {figure : Char × Nat} (hmem : figure ∈ figures)
    (hlt : figure.2 < radix.base) : radix.isDigit figure.1 = true := by
  simp [Radix.isDigit, Radix.digit?, figure?_of_figures figure hmem, hlt]

/-- The value of figures of the base is their positional value. -/
theorem digitsValue_of_figures (h : ∀ figure ∈ digits, figure ∈ figures ∧ figure.2 < radix.base) :
    digitsValue radix (digits.map Prod.fst) =
      Nat.ofDigits radix.base (digits.map Prod.snd).reverse := by
  have hvalues : (digits.map Prod.fst).map (fun c => (Radix.figure? c).getD 0) =
      digits.map Prod.snd := by
    rw [List.map_map]
    refine List.map_congr_left fun figure hfigure => ?_
    rw [Function.comp_apply, figure?_of_figures figure (h figure hfigure).1, Option.getD_some]
  rw [digitsValue, List.map_reverse, hvalues]

/-- A literal has no mark, or a zero and a letter that announces its base. -/
theorem announcement_cases {mark : String} (h : (radix, mark) ∈ announcements) :
    (radix = .decimal ∧ mark = "") ∨ ∃ c, mark.toList = ['0', c] ∧ radix.isMark c = true ∧
      .marked radix ∈ integerPatterns := by
  simp only [announcements, List.mem_cons, List.not_mem_nil, or_false, Prod.mk.injEq] at h
  rcases h with h | ⟨rfl, rfl⟩ | ⟨rfl, rfl⟩ | ⟨rfl, rfl⟩ | ⟨rfl, rfl⟩ | ⟨rfl, rfl⟩ | ⟨rfl, rfl⟩
  · exact .inl h
  all_goals exact .inr ⟨_, rfl, rfl, by decide⟩

/-- A literal has one of the shapes of integers, and its value there is the positional value of its
digits. -/
theorem exists_pattern {mark : String} (hmark : (radix, mark) ∈ announcements)
    (hne : digits ≠ []) (h : ∀ figure ∈ digits, figure ∈ figures ∧ figure.2 < radix.base) :
    ∃ pattern ∈ integerPatterns,
      pattern.lexeme? (mark.toList ++ digits.map Prod.fst) =
        some (mark.toList ++ digits.map Prod.fst) ∧
      pattern.value (mark.toList ++ digits.map Prod.fst) =
        Nat.ofDigits radix.base (digits.map Prod.snd).reverse := by
  have hdigits : ∀ c ∈ digits.map Prod.fst, radix.isDigit c = true := by
    intro c hc
    obtain ⟨figure, hfigure, rfl⟩ := List.mem_map.1 hc
    exact isDigit_of_figures (h figure hfigure).1 (h figure hfigure).2
  have hruns : ∀ {p : Char → Bool}, (∀ c ∈ digits.map Prod.fst, p c = true) →
      nonempty? ((digits.map Prod.fst).takeWhile p) = some (digits.map Prod.fst) := by
    intro p hp
    rw [List.takeWhile_eq_self_iff.2 hp, nonempty?, if_neg (by simpa using hne)]
  rcases announcement_cases hmark with ⟨rfl, rfl⟩ | ⟨c, htext, hc, hmem⟩
  · have hdecimal : ∀ c ∈ digits.map Prod.fst, c.isDigit = true := by
      intro c hc
      obtain ⟨figure, hfigure, rfl⟩ := List.mem_map.1 hc
      have hall : ∀ figure ∈ figures, figure.2 < 10 → figure.1.isDigit = true := by decide
      exact hall figure (h figure hfigure).1 (h figure hfigure).2
    exact ⟨.digits, by decide, hruns hdecimal, digitsValue_of_figures h⟩
  · refine ⟨.marked radix, hmem, ?_, ?_⟩
    · rw [htext]
      simp [Pattern.lexeme?, hc, hruns hdigits]
    · rw [htext]
      exact digitsValue_of_figures h

/-! ## A lone literal -/

/-- What the parser makes of a lone literal. -/
theorem parseTokens_integer {token t : Token} (htoken : token.kind = .integer) (ht : t.kind = .eof)
    (rest : List Token) :
    parseTokens (token :: t :: rest) =
      match Numeral.integer? token.value with
      | some value => (⟨[some (.expression token (.integer token value))]⟩, [])
      | none => (⟨[none]⟩, [⟨.unreadableNumber token.value, token.line⟩]) := by
  have hp : (ofTokens (token :: t :: rest)).Faces (token :: t :: rest) := faces_ofTokens (by simp)
  have hstart : token.kind ≠ .eof := by
    rw [htoken]
    decide
  have hstatement : Grammar.standard.statement token.kind = none := by rw [htoken]; rfl
  split
  · next value hvalue =>
    have hreads := reads_integer hp htoken (by rw [ht]; decide) hvalue
    exact parseTokens_eq_of_reads_expr hp hstart hstatement hreads ht
  · next hvalue =>
    have hfail : ExpressionRule.integer.plan.Misses (ofTokens (token :: t :: rest))
        (.unreadableNumber token.value) (ofTokens (token :: t :: rest)) := by
      refine Rule.Misses.look ?_
      dsimp only [Rule.bind]
      rw [hp.current_eq, hvalue]
      exact .fail
    have hmissed : Missed (.expr .default) (ofTokens (token :: t :: rest))
        (.unreadableNumber token.value) (ofTokens (token :: t :: rest)) :=
      missed_expr hp (by rw [htoken]; rfl) (by rw [htoken]; rfl) hfail.bind_first
    have hpassed : token.NoBoundary token.line := ⟨rfl, by rw [htoken]; decide, by rw [htoken]; rfl⟩
    -- the failure is on the first token, and only the end of input follows
    have hskips : (ofTokens (token :: t :: rest)).SkipsTo token.line (t :: rest) :=
      ⟨show Kind.eof ≠ .semicolon by decide, [token], hp, .head _, by simpa using hpassed⟩
    exact parseTokens_eq_of_missed_expr hp hstart hstatement hmissed hskips ht

/-- **Integer literals mean their positional value or are rejected.** A literal is the mark of its
base and any number of digits of the base, at least one. It is one token. If its positional value is
below two to the power of 63, the program is one expression statement that holds the value;
otherwise the program is an empty slot and there is one diagnostic, which cites the literal. -/
theorem integer_literal_means {radix : Radix} {mark : String}
    (hmark : (radix, mark) ∈ announcements) {digits : List (Char × Nat)} (hne : digits ≠ [])
    (hdigits : ∀ figure ∈ digits, figure ∈ figures ∧ figure.2 < radix.base) :
    let text := mark ++ String.ofList (digits.map Prod.fst)
    let value := Nat.ofDigits radix.base (digits.map Prod.snd).reverse
    let token : Token := ⟨.integer, text, 1⟩
    tokenize text = .ok [token, Token.eof 1] ∧
      (value < 2 ^ 63 →
        parseText text = .ok (⟨[some (.expression token (.integer token value))]⟩, [])) ∧
      (2 ^ 63 ≤ value → parseText text = .ok (⟨[none]⟩, [⟨.unreadableNumber text, 1⟩])) := by
  intro text value token
  have htext : text.toList = mark.toList ++ digits.map Prod.fst := by
    rw [String.toList_append, String.toList_ofList]
  obtain ⟨pattern, hmem, hpattern, hvalue⟩ := exists_pattern hmark hne hdigits
  rw [← htext] at hpattern hvalue
  have hhash : text.toList.head? ≠ some '#' := by
    obtain ⟨c, tail, hcons, hc, -⟩ := exists_of_integer hmem hpattern
    rw [hcons]
    rintro ⟨⟩
    exact absurd hc (by decide)
  have htokens : tokenize text = .ok [token, Token.eof 1] :=
    (lexed_of_pattern hmem hpattern).tokenize_eq hhash
  have hread := integer?_of_pattern hmem hpattern
  rw [hvalue] at hread
  have hparse : parseText text = .ok (parseTokens [token, Token.eof 1]) := by
    rw [parseText, htokens]
    rfl
  rw [parseTokens_integer rfl rfl] at hparse
  refine ⟨htokens, fun hlt => ?_, fun hle => ?_⟩
  · rw [hparse, hread, if_pos hlt]
  · rw [hparse, hread, if_neg (Nat.not_lt.2 hle)]

/-- The digits `07fFFffffffffffFF`, with a leading zero and letters in either case. -/
def greatestDigits : List (Char × Nat) :=
  [('0', 0), ('7', 7), ('f', 15), ('F', 15), ('F', 15), ('f', 15), ('f', 15), ('f', 15), ('f', 15),
   ('f', 15), ('f', 15), ('f', 15), ('f', 15), ('f', 15), ('f', 15), ('F', 15), ('F', 15)]

/-- The digits of two to the power of 63. -/
def firstBeyond : List (Char × Nat) :=
  [('9', 9), ('2', 2), ('2', 2), ('3', 3), ('3', 3), ('7', 7), ('2', 2), ('0', 0), ('3', 3),
    ('6', 6),
   ('8', 8), ('5', 5), ('4', 4), ('7', 7), ('7', 7), ('5', 5), ('8', 8), ('0', 0), ('8', 8)]

/-- The law at the greatest value, in base sixteen, and at the next one, in base ten. -/
theorem integer_literal_means_limits :
    parseText "0X07fFFffffffffffFF" =
      .ok (⟨[some (.expression ⟨.integer, "0X07fFFffffffffffFF", 1⟩
        (.integer ⟨.integer, "0X07fFFffffffffffFF", 1⟩ 9223372036854775807))]⟩, []) ∧
    parseText "9223372036854775808" =
      .ok (⟨[none]⟩, [⟨.unreadableNumber "9223372036854775808", 1⟩]) := by
  have hgreatest := @integer_literal_means .hexadecimal "0X" (by decide) greatestDigits (by decide)
    (by decide)
  have hbeyond := @integer_literal_means .decimal "" (by decide) firstBeyond (by decide) (by decide)
  exact ⟨hgreatest.2.1 (by decide), hbeyond.2.2 (by decide)⟩

end ScriptFront
