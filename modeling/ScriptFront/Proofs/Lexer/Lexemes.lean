import Mathlib.Data.List.TakeWhile
import ScriptFront.Lexeme.Lexer
import ScriptFront.Proofs.Tree.Operational

/-!
# The lexeme at the front of a text

* `Follows rest` — what follows cannot be taken for more of a name or a number.
* `firstMatch?_word`, `firstMatch?_integer`, `firstMatch?_quoted` — a name, an integer literal and a
  quoted text are taken whole from the front of a text, and nothing of what follows.
* `integer?_of_isInteger` — an integer literal is read as the value that its digits spell.
* `unescape_flatMap_quoteChar` — resolving escapes undoes quoting.
-/

namespace ScriptFront

/-! ## Characters -/

namespace Text

/-- No character from `!` to `~` is blank. -/
theorem isBlank_eq_false_of_range {c : Char} (hlow : 33 ≤ c.toNat) (hhigh : c.toNat ≤ 126) :
    isBlank c = false := by
  unfold isBlank
  simp only [Bool.or_eq_false_iff, Bool.and_eq_false_iff, decide_eq_false_iff_not,
    beq_eq_false_iff_ne]
  omega

end Text

namespace Lexeme

open Numeral (Radix)

/-- A name starts on a letter or an underscore. -/
theorem isWordStart_iff {c : Char} :
    isWordStart c = true ↔
      (65 ≤ c.toNat ∧ c.toNat ≤ 90) ∨ (97 ≤ c.toNat ∧ c.toNat ≤ 122) ∨ c.toNat = 95 := by
  have hupper : c.isUpper = true ↔ 65 ≤ c.toNat ∧ c.toNat ≤ 90 := decide_eq_true_iff
  have hlower : c.isLower = true ↔ 97 ≤ c.toNat ∧ c.toNat ≤ 122 :=
    Bool.and_eq_true_iff.trans (and_congr decide_eq_true_iff decide_eq_true_iff)
  have halpha : c.isAlpha = true ↔ c.isUpper = true ∨ c.isLower = true := Bool.or_eq_true_iff
  rw [isWordStart, Bool.or_eq_true, halpha, hupper, hlower, or_assoc, beq_iff_eq,
    ← Char.toNat_inj]
  rfl

/-- The digits are the ten from `0` to `9`. -/
theorem isDigit_iff {c : Char} : c.isDigit = true ↔ 48 ≤ c.toNat ∧ c.toNat ≤ 57 :=
  Char.isDigit_iff_toNat

/-- A name goes on with what it can start on, and with digits. -/
theorem isWordPart_iff {c : Char} :
    isWordPart c = true ↔ isWordStart c = true ∨ c.isDigit = true := by
  simp only [isWordPart, isWordStart, Char.isAlphanum, Bool.or_eq_true, beq_iff_eq]
  exact or_right_comm

/-- What can be part of a name lies between `0` and `z`. -/
theorem isWordPart_range {c : Char} (h : isWordPart c = true) : 48 ≤ c.toNat ∧ c.toNat ≤ 122 := by
  rw [isWordPart_iff, isWordStart_iff, isDigit_iff] at h
  omega

/-- The digits of every base are figures and letters. -/
theorem isWordPart_of_isDigit {radix : Radix} {c : Char} (h : radix.isDigit c = true) :
    isWordPart c = true := by
  rw [isWordPart_iff, isWordStart_iff, isDigit_iff]
  unfold Radix.isDigit Radix.digit? Radix.figure? at h
  simp only [Char.le_def, UInt32.le_iff_toNat_le] at h
  split at h
  · next hrange => exact .inr hrange
  · split at h
    · next hrange => exact .inl (.inr (.inl hrange))
    · split at h
      · next hrange => exact .inl (.inl hrange)
      · cases h

/-- An expression of the operator fragment starts on the character. -/
def IsOpening (c : Char) : Prop :=
  isWordStart c = true ∨ c.isDigit = true ∨ c ∈ ['\x22', '[', '(', '@']

/-- What an expression starts on is neither blank nor one of nine marks. -/
theorem IsOpening.range {c : Char} (h : IsOpening c) :
    33 ≤ c.toNat ∧ c.toNat ≤ 126 ∧ c.toNat ∉ [35, 38, 42, 43, 45, 46, 47, 61, 62] := by
  rcases h with h | h | h
  · rw [isWordStart_iff] at h
    simp
    omega
  · rw [isDigit_iff] at h
    simp
    omega
  · simp at h
    rcases h with rfl | rfl | rfl | rfl <;> decide

/-- No expression starts on a blank. -/
theorem IsOpening.isBlank_eq {c : Char} (h : IsOpening c) : Text.isBlank c = false :=
  Text.isBlank_eq_false_of_range h.range.1 h.range.2.1

/-- No expression starts on one of the nine marks. -/
theorem IsOpening.ne {c d : Char} (h : IsOpening c)
    (hd : d ∈ ['#', '&', '*', '+', '-', '.', '/', '=', '>']) :
    c ≠ d := by
  rintro rfl
  have hrange := h.range.2.2
  simp at hd
  rcases hd with rfl | rfl | rfl | rfl | rfl | rfl | rfl | rfl | rfl <;>
    exact absurd hrange (by decide)

/-! ## The first shape that fits -/

/-- In front of a character that is neither blank nor a slash, no gap fits. -/
theorem firstMatch?_cons {c : Char} (hblank : Text.isBlank c = false) (hslash : c ≠ '/')
    (rest : List Char) :
    firstMatch? (c :: rest) = (patterns.drop 4).findSome? fun pattern =>
      (pattern.lexeme? (c :: rest)).map fun lexeme => (pattern, lexeme) := by
  have h₁ : Pattern.blanks.lexeme? (c :: rest) = none := by
    simp [Pattern.lexeme?, hblank, nonempty?]
  have h₂ : Pattern.lineComment.lexeme? (c :: rest) = none := by
    unfold Pattern.lexeme?
    split <;> simp_all
  have h₃ : Pattern.closedComment.lexeme? (c :: rest) = none := by
    unfold Pattern.lexeme?
    split <;> simp_all
  have h₄ : Pattern.openComment.lexeme? (c :: rest) = none := by
    unfold Pattern.lexeme?
    split <;> simp_all
  simp only [firstMatch?, patterns, List.drop, List.findSome?_cons, h₁, h₂, h₃, h₄, Option.map_none]

/-- What follows cannot be taken for more of a name or a number. -/
structure Follows (rest : List Char) : Prop where
  word : ∀ c ∈ rest.head?, isWordPart c = false
  point : ∀ c tail, rest = '.' :: c :: tail → c.isDigit = false

/-- A run ends where what follows does not go on with it. -/
theorem takeWhile_append_of_head {α : Type} {p : α → Bool} {run rest : List α}
    (hrun : ∀ a ∈ run, p a = true) (hrest : ∀ a ∈ rest.head?, p a = false) :
    (run ++ rest).takeWhile p = run := by
  rw [List.takeWhile_append_of_pos hrun]
  cases rest with
  | nil => simp
  | cons a rest => simp [hrest a rfl]

/-- A word is a letter and what can be part of a name. -/
theorem exists_of_word {text lexeme : List Char} (h : Pattern.word.lexeme? text = some lexeme) :
    ∃ c run, lexeme = c :: run ∧ isWordStart c = true ∧ ∀ d ∈ run, isWordPart d = true := by
  cases text with
  | nil => cases h
  | cons c rest =>
    simp only [Pattern.lexeme?, Option.ite_none_right_eq_some, Option.some.injEq] at h
    exact ⟨c, _, h.2.symm, h.1, fun d hd => List.mem_takeWhile_imp hd⟩

/-- A word is taken whole, unless what follows goes on with it. -/
theorem firstMatch?_word {word rest : List Char} (h : Pattern.word.lexeme? word = some word)
    (hrest : Follows rest) : firstMatch? (word ++ rest) = some (.word, word) := by
  obtain ⟨c, run, rfl, hstart, hrun⟩ := exists_of_word h
  have hrange := isWordPart_range (isWordPart_iff.2 (.inl hstart))
  have hblank := Text.isBlank_eq_false_of_range (c := c) (by omega) (by omega)
  have hslash : c ≠ '/' := by
    rintro rfl
    exact absurd hstart (by decide)
  have hword : Pattern.word.lexeme? (c :: (run ++ rest)) = some (c :: run) := by
    simp [Pattern.lexeme?, hstart, takeWhile_append_of_head hrun hrest.word]
  rw [List.cons_append, firstMatch?_cons hblank hslash]
  simp only [patterns, List.drop, List.findSome?_cons, hword, Option.map_some]

/-- In front of a digit, numbers are tried first. -/
theorem firstMatch?_digit {c : Char} (h : c.isDigit = true) (rest : List Char) :
    firstMatch? (c :: rest) = (patterns.drop 5).findSome? fun pattern =>
      (pattern.lexeme? (c :: rest)).map fun lexeme => (pattern, lexeme) := by
  have hrange := isDigit_iff.1 h
  have hblank := Text.isBlank_eq_false_of_range (c := c) (by omega) (by omega)
  have hslash : c ≠ '/' := by
    rintro rfl
    exact absurd h (by decide)
  have hstart : isWordStart c = false := by
    rw [Bool.eq_false_iff, ne_eq, isWordStart_iff]
    omega
  have hword : Pattern.word.lexeme? (c :: rest) = none := by
    simp [Pattern.lexeme?, hstart]
  rw [firstMatch?_cons hblank hslash]
  simp only [patterns, List.drop, List.findSome?_cons, hword, Option.map_none]

/-- Without its base mark behind a zero, there is no number of that base. -/
theorem lexeme?_marked_of_not_mark {radix : Radix} {text : List Char}
    (h : ∀ mark tail, text = '0' :: mark :: tail → radix.isMark mark = false) :
    (Pattern.marked radix).lexeme? text = none := by
  unfold Pattern.lexeme?
  split <;> simp_all

/-- No character announces two bases. -/
theorem isMark_unique {radix radix' : Radix} {c : Char} (h : radix.isMark c = true)
    (h' : radix'.isMark c = true) : radix = radix' := by
  cases radix <;> cases radix' <;> simp_all [Radix.isMark] <;> rcases h with rfl | rfl <;>
    simp at h'

/-- A base mark can be part of a name and is no digit. -/
theorem isWordPart_of_isMark {radix : Radix} {c : Char} (h : radix.isMark c = true) :
    isWordPart c = true ∧ c.isDigit = false := by
  cases radix <;> simp [Radix.isMark] at h <;> rcases h with rfl | rfl <;> decide

/-- An integer with a base mark is a zero, the mark and digits of the base. -/
theorem exists_of_marked {radix : Radix} {text lexeme : List Char}
    (h : (Pattern.marked radix).lexeme? text = some lexeme) :
    ∃ mark run, lexeme = '0' :: mark :: run ∧ radix.isMark mark = true ∧ run ≠ [] ∧
      ∀ d ∈ run, radix.isDigit d = true := by
  obtain ⟨mark, rest, rfl, hmark⟩ : ∃ mark rest, text = '0' :: mark :: rest ∧
      radix.isMark mark = true := by
    by_contra hnone
    rw [lexeme?_marked_of_not_mark fun mark tail heq => ?_] at h
    · cases h
    · rw [Bool.eq_false_iff]
      exact fun hmark => hnone ⟨mark, tail, heq, hmark⟩
  simp only [Pattern.lexeme?, hmark, if_true, Option.map_eq_some_iff] at h
  obtain ⟨run, hrun, hlexeme⟩ := h
  obtain ⟨rfl, hne⟩ := nonempty?_eq_some hrun
  exact ⟨mark, _, hlexeme.symm, hmark, hne, fun d hd => List.mem_takeWhile_imp hd⟩

/-- A number with a base mark is taken whole, unless what follows goes on with it. -/
theorem firstMatch?_marked {radix : Radix} {text rest : List Char}
    (h : (Pattern.marked radix).lexeme? text = some text) (hrest : Follows rest) :
    firstMatch? (text ++ rest) = some (.marked radix, text) := by
  obtain ⟨mark, run, rfl, hmark, hne, hrun⟩ := exists_of_marked h
  have hmore : ((run ++ rest).takeWhile radix.isDigit) = run := by
    refine takeWhile_append_of_head hrun fun c hc => ?_
    rw [Bool.eq_false_iff]
    intro hdigit
    exact Bool.eq_false_iff.1 (hrest.word c hc) (isWordPart_of_isDigit hdigit)
  have hthis : (Pattern.marked radix).lexeme? ('0' :: mark :: (run ++ rest)) =
      some ('0' :: mark :: run) := by
    simp [Pattern.lexeme?, hmark, hmore, nonempty?, hne]
  have hother : ∀ radix', radix' ≠ radix →
      (Pattern.marked radix').lexeme? ('0' :: mark :: (run ++ rest)) = none := by
    intro radix' hne'
    refine lexeme?_marked_of_not_mark fun mark' tail heq' => ?_
    cases heq'
    rw [Bool.eq_false_iff]
    exact fun hmark' => hne' (isMark_unique hmark' hmark)
  rw [List.cons_append, List.cons_append, firstMatch?_digit (by decide)]
  cases radix <;> simp [patterns, List.findSome?_cons, hthis, hother] at hmark ⊢
  cases hmark

/-- A number without a base mark consists of digits, and there is one. -/
theorem forall_of_digits {text lexeme : List Char} (h : Pattern.digits.lexeme? text = some lexeme) :
    lexeme ≠ [] ∧ ∀ d ∈ lexeme, d.isDigit = true := by
  obtain ⟨rfl, hne⟩ := nonempty?_eq_some h
  exact ⟨hne, fun d hd => List.mem_takeWhile_imp hd⟩

/-- Digits are taken whole, unless what follows goes on with them. -/
theorem firstMatch?_digits {text rest : List Char}
    (h : Pattern.digits.lexeme? text = some text) (hrest : Follows rest) :
    firstMatch? (text ++ rest) = some (.digits, text) := by
  obtain ⟨hne, hdigits⟩ := forall_of_digits h
  have hmore : (text ++ rest).takeWhile Char.isDigit = text := by
    refine takeWhile_append_of_head hdigits fun c hc => ?_
    rw [Bool.eq_false_iff]
    intro hdigit
    exact Bool.eq_false_iff.1 (hrest.word c hc) (isWordPart_iff.2 (.inr hdigit))
  have hbehind : (text ++ rest).dropWhile Char.isDigit = rest := by
    have hsplit := List.takeWhile_append_dropWhile (p := Char.isDigit) (l := text ++ rest)
    rwa [hmore, List.append_cancel_left_eq] at hsplit
  -- behind the zero of a base mark there would be more of a word
  have hmarked : ∀ radix, (Pattern.marked radix).lexeme? (text ++ rest) = none := by
    intro radix
    refine lexeme?_marked_of_not_mark fun mark tail heq => ?_
    rw [Bool.eq_false_iff]
    intro hmark
    have hpart := isWordPart_of_isMark hmark
    match text, hne with
    | [c], _ =>
      simp only [List.singleton_append, List.cons.injEq] at heq
      have := hrest.word mark (by simp [heq.2])
      simp_all
    | c :: d :: digits, _ =>
      simp only [List.cons_append, List.cons.injEq] at heq
      have := hdigits d (by simp)
      simp_all
  have hfraction : Pattern.fraction.lexeme? (text ++ rest) = none := by
    simp only [Pattern.lexeme?, hmore, hbehind, nonempty?, List.isEmpty_iff, hne, if_false,
      Option.bind_some]
    split
    · next tail =>
      cases tail with
      | nil => rfl
      | cons c tail => simp [hrest.point c tail rfl]
    · rfl
  have hthis : Pattern.digits.lexeme? (text ++ rest) = some text := by
    simp [Pattern.lexeme?, hmore, nonempty?, hne]
  obtain ⟨c, digits, rfl⟩ := List.exists_cons_of_ne_nil hne
  rw [List.cons_append] at hmarked hfraction hthis ⊢
  rw [firstMatch?_digit (hdigits c (by simp))]
  simp only [patterns, List.drop, List.findSome?_cons, hmarked, hfraction, hthis, Option.map_none,
    Option.map_some]

/-- An integer literal has a base mark or consists of digits. -/
theorem marked_or_digits {pattern : Pattern} (h : pattern ∈ integerPatterns) :
    (∃ radix, pattern = .marked radix) ∨ pattern = .digits := by
  simp only [integerPatterns, List.mem_cons, List.not_mem_nil, or_false] at h
  rcases h with rfl | rfl | rfl | rfl
  · exact .inl ⟨_, rfl⟩
  · exact .inl ⟨_, rfl⟩
  · exact .inl ⟨_, rfl⟩
  · exact .inr rfl

/-- An integer literal is taken whole. -/
theorem firstMatch?_integer {pattern : Pattern} (hmem : pattern ∈ integerPatterns)
    {text rest : List Char} (h : pattern.lexeme? text = some text) (hrest : Follows rest) :
    firstMatch? (text ++ rest) = some (pattern, text) := by
  rcases marked_or_digits hmem with ⟨radix, rfl⟩ | rfl
  · exact firstMatch?_marked h hrest
  · exact firstMatch?_digits h hrest

/-- An integer literal starts on a digit, and all of it could be part of a name. -/
theorem exists_of_integer {pattern : Pattern} (hmem : pattern ∈ integerPatterns)
    {text : List Char} (h : pattern.lexeme? text = some text) :
    ∃ c tail, text = c :: tail ∧ c.isDigit = true ∧ ∀ d ∈ text, isWordPart d = true := by
  rcases marked_or_digits hmem with ⟨radix, rfl⟩ | rfl
  · obtain ⟨mark, run, rfl, hmark, -, hrun⟩ := exists_of_marked h
    refine ⟨'0', mark :: run, rfl, rfl, fun d hd => ?_⟩
    simp only [List.mem_cons] at hd
    rcases hd with rfl | rfl | hd
    · rfl
    · exact (isWordPart_of_isMark hmark).1
    · exact isWordPart_of_isDigit (hrun d hd)
  · obtain ⟨hne, hdigits⟩ := forall_of_digits h
    obtain ⟨c, tail, rfl⟩ := List.exists_cons_of_ne_nil hne
    exact ⟨c, tail, rfl, hdigits c List.mem_cons_self, fun d hd =>
      isWordPart_iff.2 (.inr (hdigits d hd))⟩

/-! ## The value of an integer literal -/

/-- A digit of the base has the value that the table of figures says. -/
theorem digit?_of_isDigit {radix : Radix} {c : Char} (h : radix.isDigit c = true) :
    radix.digit? c = some ((Radix.figure? c).getD 0) := by
  unfold Radix.isDigit at h
  obtain ⟨value, hvalue⟩ := Option.isSome_iff_exists.1 h
  have hfigure := hvalue
  rw [Radix.digit?, Option.filter_eq_some_iff] at hfigure
  rw [hvalue, hfigure.1]
  rfl

/-- Digits of the base have their values, one by one. -/
theorem mapM_digit? {radix : Radix} {digits : List Char}
    (h : ∀ c ∈ digits, radix.isDigit c = true) :
    digits.mapM radix.digit? = some (digits.map fun c => (Radix.figure? c).getD 0) := by
  induction digits with
  | nil => rfl
  | cons c digits ih =>
    have hrest := ih fun d hd => h d (List.mem_cons_of_mem c hd)
    rw [List.mapM_cons, digit?_of_isDigit (h c List.mem_cons_self), hrest]
    rfl

/-- The value of digits is their positional value. -/
theorem magnitude?_of_digits {radix : Radix} {digits : List Char} (hne : digits ≠ [])
    (h : ∀ c ∈ digits, radix.isDigit c = true) :
    Numeral.magnitude? radix digits = some (digitsValue radix digits) := by
  have hfold : (digits.map fun c => (Radix.figure? c).getD 0).foldl
      (fun value digit => value * radix.base + digit) 0 = digitsValue radix digits := by
    rw [digitsValue, Nat.ofDigits_eq_foldr, List.map_reverse, List.foldr_reverse]
    simp only [Nat.cast_id, Nat.add_comm, Nat.mul_comm]
  rw [Numeral.magnitude?, if_neg (by simpa using hne), mapM_digit? h, Option.map_some, hfold]

/-- Digits stand behind no sign. -/
theorem signed?_of_digits {radix : Radix} {digits : List Char} (hne : digits ≠ [])
    (h : ∀ c ∈ digits, radix.isDigit c = true) :
    Numeral.signed? radix digits = some (digitsValue radix digits : Int) := by
  have hsign : ∀ c ∈ digits, c ≠ '-' ∧ c ≠ '+' := by
    intro c hc
    have hpart := isWordPart_of_isDigit (h c hc)
    constructor <;> rintro rfl <;> exact absurd hpart (by decide)
  unfold Numeral.signed?
  split
  · exact absurd rfl (hsign _ List.mem_cons_self).1
  · exact absurd rfl (hsign _ List.mem_cons_self).2
  · rw [magnitude?_of_digits hne h]
    rfl

/-- Behind a zero, a base mark tells the base and leaves the digits. -/
theorem splitRadix_of_mark {radix : Radix} {mark : Char} (h : radix.isMark mark = true)
    (digits : List Char) : Numeral.splitRadix ('0' :: mark :: digits) = (radix, digits) := by
  have hother : ∀ radix', radix' ≠ radix → radix'.isMark mark = false := by
    intro radix' hne
    rw [Bool.eq_false_iff]
    exact fun hmark => hne (isMark_unique hmark h)
  cases radix with
  | hexadecimal => simp [Numeral.splitRadix, h]
  | octal => simp [Numeral.splitRadix, h, hother .hexadecimal]
  | binary => simp [Numeral.splitRadix, h, hother .hexadecimal, hother .octal]
  | decimal => cases h

/-- Digits alone are decimal. -/
theorem splitRadix_of_digits {text : List Char} (h : ∀ c ∈ text, c.isDigit = true) :
    Numeral.splitRadix text = (.decimal, text) := by
  unfold Numeral.splitRadix
  split
  · next mark digits =>
    have hmark : ∀ radix : Radix, radix.isMark mark = false := by
      intro radix
      rw [Bool.eq_false_iff]
      intro hmark
      have hdigit := h mark (by simp)
      rw [(isWordPart_of_isMark hmark).2] at hdigit
      cases hdigit
    simp [hmark]
  · rfl

/-- The ten digits are those of base ten. -/
theorem isDigit_decimal {c : Char} (h : c.isDigit = true) : Radix.decimal.isDigit c = true := by
  have hrange := isDigit_iff.1 h
  have hfigure : Radix.figure? c = some (c.toNat - 48) := by
    rw [Radix.figure?, if_pos]
    · rfl
    · simp only [Char.le_def, UInt32.le_iff_toNat_le]
      exact hrange
  have hless : c.toNat - 48 < Radix.decimal.base := by
    change c.toNat - 48 < 10
    omega
  simp [Radix.isDigit, Radix.digit?, hfigure, hless]

/-- An integer literal is read as its value if that is below two to the power of 63, and not at all
otherwise. -/
theorem integer?_of_pattern {pattern : Pattern} (hmem : pattern ∈ integerPatterns) {text : String}
    (h : pattern.lexeme? text.toList = some text.toList) :
    Numeral.integer? text =
      if pattern.value text.toList < 2 ^ 63 then some (pattern.value text.toList : Int)
        else none := by
  have hsigned : ∃ radix run, Numeral.splitRadix text.toList = (radix, run) ∧
      Numeral.signed? radix run = some (pattern.value text.toList : Int) := by
    rcases marked_or_digits hmem with ⟨radix, rfl⟩ | rfl
    · obtain ⟨mark, run, htext, hmark, hne, hrun⟩ := exists_of_marked h
      rw [htext]
      exact ⟨radix, run, splitRadix_of_mark hmark run,
        signed?_of_digits hne hrun⟩
    · obtain ⟨hne, hdigits⟩ := forall_of_digits h
      exact ⟨.decimal, text.toList, splitRadix_of_digits hdigits,
        signed?_of_digits hne fun c hc => isDigit_decimal (hdigits c hc)⟩
  have hfits : Numeral.fitsWord (pattern.value text.toList : Int) = true ↔
      pattern.value text.toList < 2 ^ 63 := by
    simp only [Numeral.fitsWord, Bool.and_eq_true, decide_eq_true_eq]
    omega
  obtain ⟨radix, run, hsplit, hvalue⟩ := hsigned
  rw [Numeral.integer?, hsplit]
  simp only [hvalue, Option.filter_some, hfits]

/-- An integer literal is read as its value. -/
theorem integer?_of_isInteger {text : String} {value : Int} (h : IsInteger text value) :
    Numeral.integer? text = some value := by
  obtain ⟨pattern, hmem, hpattern, rfl, hfits⟩ := h
  rw [integer?_of_pattern hmem hpattern, if_pos (by omega)]

/-! ## Quoted texts -/

/-- A character that is not shown by its code is shown as itself, or behind a backslash by a letter
that stands for it. -/
theorem quoteChar_cases {c : Char} (h : Text.quoteChar c ≠ Text.codeEscape c) :
    (∃ letter, Text.quoteChar c = ['\\', letter] ∧ shortEscape? letter = some c ∧ letter ≠ '\n') ∨
      (Text.quoteChar c = [c] ∧ c ≠ '\\' ∧ c ≠ '\x22' ∧ c ≠ '\n') := by
  by_cases hmem : c ∈ ['\x00', '\t', '\r', '\n', '\\', '\x22']
  · left
    simp only [List.mem_cons, List.not_mem_nil, or_false] at hmem
    rcases hmem with rfl | rfl | rfl | rfl | rfl | rfl
    · exact ⟨'0', by decide⟩
    · exact ⟨'t', by decide⟩
    · exact ⟨'r', by decide⟩
    · exact ⟨'n', by decide⟩
    · exact ⟨'\\', by decide⟩
    · exact ⟨'\x22', by decide⟩
  · right
    simp only [List.mem_cons, List.not_mem_nil, or_false, not_or] at hmem
    obtain ⟨h₁, h₂, h₃, h₄, h₅, h₆⟩ := hmem
    have hquote : Text.quoteChar c = if Text.isUnprintable c then Text.codeEscape c else [c] := by
      simp only [Text.quoteChar, if_neg h₁, if_neg h₂, if_neg h₃, if_neg h₄, if_neg h₅, if_neg h₆]
    rw [hquote] at h ⊢
    split at h
    · exact absurd rfl h
    · next hshown => exact ⟨by rw [if_neg hshown], h₅, h₆, h₄⟩

variable {text : List Char}

/-- The closing quote is the first one that no backslash stands before. -/
theorem throughQuote?_flatMap_quoteChar (h : ∀ c ∈ text, Text.quoteChar c ≠ Text.codeEscape c)
    (rest : List Char) :
    throughQuote? '\x22' (text.flatMap Text.quoteChar ++ '\x22' :: rest) =
      some (text.flatMap Text.quoteChar ++ ['\x22']) := by
  induction text with
  | nil =>
    rw [List.flatMap_nil, List.nil_append, throughQuote?.eq_def]
    rfl
  | cons c text ih =>
    have hrest := ih fun d hd => h d (List.mem_cons_of_mem c hd)
    rw [List.flatMap_cons, List.append_assoc]
    rcases quoteChar_cases (h c List.mem_cons_self) with ⟨letter, hc, -⟩ | ⟨hc, hslash, hquote, -⟩
    · rw [hc, List.cons_append, List.singleton_append, throughQuote?, if_neg (by decide),
        if_pos rfl]
      simp only [hrest, Option.map_some, List.cons_append, List.nil_append]
    · rw [hc, List.singleton_append, throughQuote?.eq_def]
      simp only [if_neg hquote, if_neg hslash, hrest, Option.map_some, List.cons_append,
        List.nil_append]

/-- Resolving escapes undoes quoting. -/
theorem unescape_flatMap_quoteChar (h : ∀ c ∈ text, Text.quoteChar c ≠ Text.codeEscape c) :
    unescape (text.flatMap Text.quoteChar) = text := by
  unfold unescape
  induction text with
  | nil => rfl
  | cons c text ih =>
    have hrest := ih fun d hd => h d (List.mem_cons_of_mem c hd)
    rw [List.flatMap_cons]
    rcases quoteChar_cases (h c List.mem_cons_self) with ⟨letter, hc, hletter, -⟩ | ⟨hc, hslash, -⟩
    · rw [hc]
      simp [unescapeAfter, hletter, hrest]
    · rw [hc]
      simp [unescapeAfter, hslash, hrest]

/-- Quoted text holds no newline. -/
theorem newline_not_mem_flatMap_quoteChar (h : ∀ c ∈ text, Text.quoteChar c ≠ Text.codeEscape c) :
    '\n' ∉ text.flatMap Text.quoteChar := by
  intro hmem
  obtain ⟨c, hc, hmem⟩ := List.mem_flatMap.1 hmem
  rcases quoteChar_cases (h c hc) with ⟨letter, hquote, -, hletter⟩ | ⟨hquote, -, -, hne⟩
  · simp [hquote, hletter.symm] at hmem
  · simp [hquote, hne.symm] at hmem

/-- Text in double quotes is taken whole, whatever follows. -/
theorem firstMatch?_quoted (h : ∀ c ∈ text, Text.quoteChar c ≠ Text.codeEscape c)
    (rest : List Char) :
    firstMatch? (Text.quoteChars text ++ rest) =
      some (.quoted '\x22', Text.quoteChars text) := by
  have hthrough := throughQuote?_flatMap_quoteChar h rest
  have hthis : (Pattern.quoted '\x22').lexeme? (Text.quoteChars text ++ rest) =
      some (Text.quoteChars text) := by
    simp [Text.quoteChars, Pattern.lexeme?, hthrough]
  have hfront : firstMatch? (Text.quoteChars text ++ rest) =
      (patterns.drop 10).findSome? fun pattern =>
        (pattern.lexeme? (Text.quoteChars text ++ rest)).map fun lexeme => (pattern, lexeme) := rfl
  rw [hfront]
  simp only [patterns, List.drop, List.findSome?_cons, hthis, Option.map_some]

end Lexeme

end ScriptFront
