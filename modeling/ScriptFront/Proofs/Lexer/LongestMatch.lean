import ScriptFront.Proofs.Lexer.Layout

/-!
# The longest match wins

The shapes are tried in a fixed order, and the first that fits is taken. Nothing looks for a longer
match further down the list; that there is none is a matter of the order alone.

* `Glyph`, `Pattern.openings` — on which characters a shape can begin. Shapes that begin on
  different characters never fit one text.
* `Pattern.Outdoes` — of a text that both shapes fit, the first takes all that the second takes.
  Texts that begin with a bracketed comment are left out: of these the open comment would take all.
* `Pattern.mayPrecede` — a reason, told from two shapes alone, why the first outdoes the second.
  That there is one for every two shapes in their order is settled by computation
  (`patterns_pairwise_mayPrecede`).
* `first_match_longest` — what is taken from a text is the longest match of all shapes.
-/

namespace ScriptFront

namespace Lexeme

open Numeral (Radix)

variable {pattern p q : Pattern} {text rest lexeme other : List Char} {c : Char}

/-! ## On which character a shape begins -/

/-- What shapes tell characters apart by when they begin on them. -/
inductive Glyph where
  /-- A blank. -/
  | blank
  /-- A letter, or the underscore. -/
  | letter
  /-- A decimal digit. -/
  | digit
  /-- Any other character. -/
  | mark (c : Char)
deriving DecidableEq, Repr

/-- The glyph of a character. -/
def Glyph.of (c : Char) : Glyph :=
  if Text.isBlank c then .blank
  else if isWordStart c then .letter
  else if c.isDigit then .digit
  else .mark c

/-- The glyph of a blank. -/
theorem Glyph.of_isBlank (h : Text.isBlank c = true) : Glyph.of c = .blank := by
  simp [of, h]

/-- The glyph of what a name starts on. -/
theorem Glyph.of_isWordStart (h : isWordStart c = true) : Glyph.of c = .letter := by
  have hblank : Text.isBlank c = false := by
    by_contra hblank
    have hpart := isWordPart_eq_false_of_isBlank (Bool.eq_true_of_not_eq_false hblank)
    rw [isWordPart_iff.2 (.inl h)] at hpart
    cases hpart
  simp [of, hblank, h]

/-- The glyph of a digit. -/
theorem Glyph.of_isDigit (h : c.isDigit = true) : Glyph.of c = .digit := by
  have hrange := isDigit_iff.1 h
  have hblank : Text.isBlank c = false := Text.isBlank_eq_false_of_range (by omega) (by omega)
  have hstart : isWordStart c = false := by
    rw [Bool.eq_false_iff, ne_eq, isWordStart_iff]
    omega
  simp [of, hblank, hstart, h]

/-- The glyphs that a shape can begin on. -/
def Pattern.openings : Pattern → List Glyph
  | blanks => [.blank]
  | lineComment | closedComment | openComment => [.mark '/']
  | word => [.letter]
  | marked _ | fraction | digits => [.digit]
  | quoted quote => [.of quote]
  | strayQuote => [.mark '\x22', .mark '\x27']
  | fixed spelling _ => (spelling.toList.take 1).map .of

/-- A run that is not empty begins on a character of its class. -/
theorem head_of_nonempty? {f : Char → Bool}
    (h : nonempty? ((c :: rest).takeWhile f) = some lexeme) : f c = true := by
  obtain ⟨rfl, hne⟩ := nonempty?_eq_some h
  by_contra hc
  exact hne (List.takeWhile_cons_of_neg hc)

/-- A shape fits only where the text begins on one of its glyphs. -/
theorem glyph_mem_openings (h : pattern.lexeme? (c :: rest) = some lexeme) :
    Glyph.of c ∈ pattern.openings := by
  have hfront := lexeme?_isPrefix h
  cases pattern with
  | blanks =>
    rw [Glyph.of_isBlank (head_of_nonempty? h)]
    exact List.mem_singleton_self _
  | lineComment | closedComment | openComment =>
    obtain rfl : c = '/' := by
      by_contra hc
      unfold Pattern.lexeme? at h
      split at h <;> simp_all
    exact List.mem_singleton_self _
  | word =>
    obtain ⟨d, run, rfl, hstart, -⟩ := exists_of_word h
    rw [← (List.cons_prefix_cons.1 hfront).1, Glyph.of_isWordStart hstart]
    exact List.mem_singleton_self _
  | marked radix =>
    obtain ⟨mark, run, rfl, -⟩ := exists_of_marked h
    rw [← (List.cons_prefix_cons.1 hfront).1]
    exact List.mem_singleton_self _
  | fraction =>
    obtain ⟨whole, hwhole, -⟩ := Option.bind_eq_some_iff.1 h
    rw [Glyph.of_isDigit (head_of_nonempty? hwhole)]
    exact List.mem_singleton_self _
  | digits =>
    rw [Glyph.of_isDigit (head_of_nonempty? h)]
    exact List.mem_singleton_self _
  | quoted quote =>
    obtain ⟨contents, rfl⟩ := exists_contents_of_quoted h
    rw [← (List.cons_prefix_cons.1 hfront).1]
    exact List.mem_singleton_self _
  | strayQuote =>
    simp only [Pattern.lexeme?, Option.ite_none_right_eq_some] at h
    rcases h.1 with rfl | rfl
    · exact List.mem_cons_self
    · exact List.mem_cons_of_mem _ List.mem_cons_self
  | fixed spelling kind =>
    simp only [Pattern.lexeme?, Option.ite_none_right_eq_some] at h
    obtain ⟨hspelling, hne⟩ := nonempty?_eq_some h.2
    obtain ⟨d, tail, hcons⟩ := List.exists_cons_of_ne_nil hne
    rw [hcons] at hspelling hfront
    rw [← (List.cons_prefix_cons.1 hfront).1, Pattern.openings, hspelling]
    exact List.mem_singleton_self _

/-! ## Which of two shapes takes more -/

/-- Of a text that both shapes fit, the first takes all that the second takes, unless a bracketed
comment begins there. -/
def Pattern.Outdoes (p q : Pattern) : Prop :=
  ∀ text lexeme other, ¬ ['/', '*'] <+: text → p.lexeme? text = some lexeme →
    q.lexeme? text = some other → other <+: lexeme

/-- What is no longer is a part, since both stand at the front of the text. -/
theorem isPrefix_of_length_le (hp : p.lexeme? text = some lexeme) (hq : q.lexeme? text = some other)
    (h : other.length ≤ lexeme.length) : other <+: lexeme :=
  List.prefix_of_prefix_length_le (lexeme?_isPrefix hq) (lexeme?_isPrefix hp) h

/-- Shapes that begin on different glyphs never fit the same text. -/
theorem outdoes_of_openings (h : ∀ glyph ∈ p.openings, glyph ∉ q.openings) : p.Outdoes q := by
  intro text lexeme other _ hp hq
  cases text with
  | nil =>
    have hnil := List.prefix_nil.1 (lexeme?_isPrefix hq)
    exact absurd hnil (Pattern.lexeme?_ne_nil hq)
  | cons c rest => exact absurd (glyph_mem_openings hq) (h _ (glyph_mem_openings hp))

/-- Where no bracketed comment begins, neither shape of one fits. -/
theorem lexeme?_bracketed_eq_none (h : ¬ ['/', '*'] <+: text) :
    Pattern.closedComment.lexeme? text = none ∧ Pattern.openComment.lexeme? text = none :=
  lexeme?_closedComment_eq_none (by rwa [Bool.eq_false_iff, ne_eq, List.isPrefixOf_iff_prefix])

/-- A line comment is at least its two slashes. -/
theorem two_le_length_of_lineComment (h : Pattern.lineComment.lexeme? text = some lexeme) :
    2 ≤ lexeme.length := by
  unfold Pattern.lexeme? at h
  split at h <;> simp_all
  subst h
  simp

/-- A punctuation mark takes its spelling, which stands at the front. -/
theorem fixed_eq_some {spelling : String} {kind : Kind}
    (h : (Pattern.fixed spelling kind).lexeme? text = some lexeme) :
    lexeme = spelling.toList ∧ spelling.toList <+: text := by
  have hfront := lexeme?_isPrefix h
  simp only [Pattern.lexeme?, Option.ite_none_right_eq_some] at h
  obtain ⟨rfl, -⟩ := nonempty?_eq_some h.2
  exact ⟨rfl, hfront⟩

/-- In front of a base mark there is no number but the one with that mark, and the zero. -/
theorem numbers_of_marked {radix : Radix}
    (h : (Pattern.marked radix).lexeme? text = some lexeme) :
    (∀ radix', radix' ≠ radix → (Pattern.marked radix').lexeme? text = none) ∧
      Pattern.fraction.lexeme? text = none ∧ Pattern.digits.lexeme? text = some ['0'] := by
  obtain ⟨mark, run, rfl, hmark, -, -⟩ := exists_of_marked h
  obtain ⟨tail, rfl⟩ := lexeme?_isPrefix h
  obtain ⟨hpart, hdigit⟩ := isWordPart_of_isMark hmark
  have hpoint : mark ≠ '.' := by
    rintro rfl
    cases hpart
  refine ⟨fun radix' hne => ?_, ?_, ?_⟩
  · refine lexeme?_marked_of_not_mark fun mark' tail' heq => ?_
    cases heq
    rw [Bool.eq_false_iff]
    exact fun hmark' => hne (isMark_unique hmark' hmark)
  · simp [Pattern.lexeme?, hdigit, hpoint, nonempty?]
  · simp [Pattern.lexeme?, hdigit, nonempty?]

/-- The part before the point is no longer than the whole. -/
theorem digits_of_fraction (h : Pattern.fraction.lexeme? text = some lexeme)
    (hdigits : Pattern.digits.lexeme? text = some other) : other.length ≤ lexeme.length := by
  obtain ⟨whole, hwhole, h⟩ := Option.bind_eq_some_iff.1 h
  obtain rfl : whole = other := Option.some.inj (hwhole.symm.trans hdigits)
  split at h
  · obtain ⟨part, -, rfl⟩ := Option.map_eq_some_iff.1 h
    simp
  · cases h

/-- A quote that is not closed is taken alone. -/
theorem length_of_strayQuote (h : Pattern.strayQuote.lexeme? text = some lexeme) :
    lexeme.length = 1 := by
  unfold Pattern.lexeme? at h
  split at h <;> simp_all
  rw [← h.2, List.length_singleton]

/-! ## The order of the shapes -/

/-- Shapes that may begin on one character, and of which the first takes no less. Bracketed comments
are left out of account. A line comment takes its two slashes at least; a base mark is in front of
no fraction; a closed literal is more than its first quote; and of two punctuation marks in one
place the first is the longer, unless it begins the other. -/
def Pattern.covers : Pattern → Pattern → Bool
  | closedComment, _ | openComment, _ | _, closedComment | _, openComment => true
  | lineComment, fixed spelling _ => spelling.toList.length ≤ 2
  | marked _, marked _ | marked _, fraction | marked _, digits | fraction, digits => true
  | quoted _, strayQuote => true
  | fixed spelling _, fixed spelling' _ => !spelling.toList.isPrefixOf spelling'.toList
  | _, _ => false

/-- There is a reason to try the first shape before the second: they begin on different characters,
or the first takes no less. -/
def Pattern.mayPrecede (p q : Pattern) : Bool :=
  (p.openings.all fun glyph => glyph ∉ q.openings) || p.covers q

/-- Where the table says that the first takes no less, it takes no less. -/
theorem outdoes_of_covers (h : p.covers q = true) : p.Outdoes q := by
  intro text lexeme other hcomment hp hq
  obtain ⟨hclosed, hopen⟩ := lexeme?_bracketed_eq_none hcomment
  refine isPrefix_of_length_le hp hq ?_
  unfold Pattern.covers at h
  split at h
  -- bracketed comments fit no such text
  · rw [hclosed] at hp
    cases hp
  · rw [hopen] at hp
    cases hp
  · rw [hclosed] at hq
    cases hq
  · rw [hopen] at hq
    cases hq
  -- a line comment, and a mark of two characters at most
  · obtain ⟨rfl, -⟩ := fixed_eq_some hq
    exact (of_decide_eq_true h).trans (two_le_length_of_lineComment hp)
  -- a number with a base mark, and any number
  · next radix radix' =>
    by_cases hradix : radix' = radix
    · subst hradix
      rw [Option.some.inj (hp.symm.trans hq)]
    · rw [(numbers_of_marked hp).1 radix' hradix] at hq
      cases hq
  · rw [(numbers_of_marked hp).2.1] at hq
    cases hq
  · rw [(numbers_of_marked hp).2.2] at hq
    cases hq
    exact List.length_pos_iff.2 (Pattern.lexeme?_ne_nil hp)
  · exact digits_of_fraction hp hq
  -- a string literal, and a quote
  · rw [length_of_strayQuote hq]
    exact List.length_pos_iff.2 (Pattern.lexeme?_ne_nil hp)
  -- two marks, of which the first does not begin the second
  · obtain ⟨rfl, hfront⟩ := fixed_eq_some hp
    obtain ⟨rfl, hfront'⟩ := fixed_eq_some hq
    rw [Bool.not_eq_true', Bool.eq_false_iff, ne_eq, List.isPrefixOf_iff_prefix] at h
    exact ((List.prefix_or_prefix_of_prefix hfront hfront').resolve_left h).length_le
  · cases h

/-- Where there is a reason to try the first before the second, it takes no less. -/
theorem outdoes_of_mayPrecede (h : p.mayPrecede q = true) : p.Outdoes q := by
  rw [Pattern.mayPrecede, Bool.or_eq_true] at h
  rcases h with h | h
  · exact outdoes_of_openings (by simpa using h)
  · exact outdoes_of_covers h

/-- No shape is tried before one that could take more. -/
theorem patterns_pairwise_mayPrecede : patterns.Pairwise fun p q => p.mayPrecede q = true := by
  decide +kernel

/-- The shape is the first of all that fits the text, and the lexeme is what it takes. -/
structure FitsFirst (text : List Char) (first : Pattern) (lexeme : List Char) : Prop where
  split : ∃ before after, patterns = before ++ first :: after ∧
    ∀ earlier ∈ before, earlier.lexeme? text = none
  fits : first.lexeme? text = some lexeme

/-- A shape is the first match exactly when it fits and none before it does. -/
theorem firstMatch?_eq_some_iff {first : Pattern} :
    firstMatch? text = some (first, lexeme) ↔ FitsFirst text first lexeme := by
  rw [firstMatch?, List.findSome?_eq_some_iff]
  constructor
  · rintro ⟨before, candidate, after, hsplit, hcandidate, hbefore⟩
    obtain ⟨found, hfound, heq⟩ := Option.map_eq_some_iff.1 hcandidate
    cases heq
    exact ⟨⟨before, after, hsplit, fun earlier hmem => Option.map_eq_none_iff.1 (hbefore _ hmem)⟩,
      hfound⟩
  · rintro ⟨⟨before, after, hsplit, hbefore⟩, hfits⟩
    exact ⟨before, first, after, hsplit, by rw [hfits, Option.map_some], fun earlier hmem => by
      rw [hbefore earlier hmem, Option.map_none]⟩

/-- Where some shape fits, there is a first one. -/
theorem exists_fitsFirst (hmem : pattern ∈ patterns) (h : (pattern.lexeme? text).isSome) :
    ∃ first lexeme, FitsFirst text first lexeme := by
  obtain ⟨lexeme, hlexeme⟩ := Option.isSome_iff_exists.1 h
  have hsome : (firstMatch? text).isSome := by
    rw [firstMatch?, List.findSome?_isSome_iff]
    exact ⟨pattern, hmem, by rw [hlexeme]; rfl⟩
  obtain ⟨⟨first, taken⟩, hfirst⟩ := Option.isSome_iff_exists.1 hsome
  exact ⟨first, taken, firstMatch?_eq_some_iff.1 hfirst⟩

/-- What the first shape that fits takes, no other shape goes beyond. -/
theorem FitsFirst.isPrefix {first : Pattern} (h : FitsFirst text first lexeme)
    (hcomment : ¬ ['/', '*'] <+: text) (hmem : pattern ∈ patterns)
    (hother : pattern.lexeme? text = some other) : other <+: lexeme := by
  obtain ⟨⟨before, after, hsplit, hbefore⟩, hfits⟩ := h
  have hpairwise := patterns_pairwise_mayPrecede
  rw [hsplit] at hmem hpairwise
  rcases List.mem_append.1 hmem with hmem | hmem
  · rw [hbefore pattern hmem] at hother
    cases hother
  · rcases List.mem_cons.1 hmem with rfl | hmem
    · rw [Option.some.inj (hother.symm.trans hfits)]
    · have hlater := (List.pairwise_cons.1 (List.pairwise_append.1 hpairwise).2.1).1 pattern hmem
      exact outdoes_of_mayPrecede hlater text lexeme other hcomment hfits hother

end Lexeme

open Lexeme

/-- **The order of the shapes makes the longest match win.** Take a cursor on any text that does not
begin with a bracketed comment, and suppose that some shape fits there. Then a scan takes what the
first shape in the order takes that fits, and of every shape that fits the match is a part of that
one, and so no longer. -/
theorem first_match_longest (lexer : Lexer) (hcomment : ¬ ['/', '*'] <+: lexer.rest)
    (hfits : ∃ pattern ∈ patterns, (pattern.lexeme? lexer.rest).isSome) :
    ∃ first lexeme, FitsFirst lexer.rest first lexeme ∧ lexer.scan = lexer.accept first lexeme ∧
      ∀ pattern ∈ patterns, ∀ other, pattern.lexeme? lexer.rest = some other →
        other <+: lexeme ∧ other.length ≤ lexeme.length := by
  obtain ⟨pattern, hmem, hsome⟩ := hfits
  obtain ⟨first, lexeme, hfirst⟩ := exists_fitsFirst hmem hsome
  refine ⟨first, lexeme, hfirst, ?_, fun pattern hmem other hother => ?_⟩
  · rw [Lexer.scan, firstMatch?_eq_some_iff.2 hfirst]
  · have hpart := hfirst.isPrefix hcomment hmem hother
    exact ⟨hpart, hpart.length_le⟩

/-- A cursor in front of a decimal number and a range. -/
def beforeDecimal : Lexer :=
  .ofText "1.5..2"

/-- The law at that cursor, where the digits alone fit too. -/
theorem first_match_longest_decimal :
    ¬ ['/', '*'] <+: beforeDecimal.rest ∧
      Pattern.digits ∈ patterns ∧ Pattern.digits.lexeme? beforeDecimal.rest = some ['1'] ∧
      ∃ first lexeme, FitsFirst beforeDecimal.rest first lexeme ∧
        beforeDecimal.scan = beforeDecimal.accept first lexeme ∧
        ∀ pattern ∈ patterns, ∀ other, pattern.lexeme? beforeDecimal.rest = some other →
          other <+: lexeme ∧ other.length ≤ lexeme.length :=
  ⟨by decide, by decide, rfl,
    first_match_longest beforeDecimal (by decide) ⟨.digits, by decide, rfl⟩⟩

/-- In front of a bracketed comment the order prefers less: a comment that is closed is not read on
to the end of the text. -/
example : firstMatch? "/**/a".toList = some (.closedComment, "/**/".toList) ∧
    Pattern.openComment.lexeme? "/**/a".toList = some "/**/a".toList := by
  decide

end ScriptFront
