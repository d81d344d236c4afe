import ScriptFront.Proofs.Lexer.Layout

/-!
# String literals are decoded piece by piece

The contents of a string literal are pieces: characters that stand for themselves, escapes that
stand for one character, and escapes that are malformed or unknown and stand for their own
characters.

* `Piece` — a piece between two of the quotes, in front of a text, and what it stands for. Whether
  an escape with too few digits ends here is for the text behind it to say.
* `Pieces` — pieces one behind the other, each in front of those that follow.
* `Piece.throughQuote?_append`, `Piece.unescapeAfter_append` — the search for the closing quote and
  the decoding both take a piece whole and go on behind it.
* `literal_decodes` — the token of a literal, and where the cursor stands then.
-/

namespace ScriptFront

namespace Lexeme

open Numeral (Radix)

/-! ## Pieces -/

/-- The letters that name a character behind a backslash, and what they name. -/
def namedEscapes : List (Char × Char) :=
  [('n', '\n'), ('t', '\t'), ('r', '\r'), ('\\', '\\'), ('\x22', '\x22'), ('\x27', '\x27'),
   ('0', '\x00')]

/-- The letters that announce the code of a character behind a backslash, and how many hexadecimal
digits it has. -/
def codeEscapes : List (Char × Nat) :=
  [('x', 2), ('u', 4)]

/-- The code is one of a surrogate, which is no character. -/
def IsSurrogate (code : Nat) : Prop :=
  0xD800 ≤ code ∧ code ≤ 0xDFFF

instance (code : Nat) : Decidable (IsSurrogate code) :=
  inferInstanceAs (Decidable (_ ∧ _))

/-- All of them are hexadecimal digits, in either case. -/
def AreHex (digits : List Char) : Prop :=
  ∀ d ∈ digits, Radix.hexadecimal.isDigit d = true

instance (digits : List Char) : Decidable (AreHex digits) :=
  List.decidableBAll _ digits

/-- The text is a piece of a literal between two of the quotes, in front of the text `after`, and
stands for the decoded one. -/
inductive Piece (quote : Char) (after : List Char) : List Char → List Char → Prop
  | plain {c : Char} (hslash : c ≠ '\\') (hquote : c ≠ quote) : Piece quote after [c] [c]
  | named {letter c : Char} (h : (letter, c) ∈ namedEscapes) : Piece quote after ['\\', letter] [c]
  | byte {digits : List Char} (hlength : digits.length = 2) (hdigits : AreHex digits) :
      Piece quote after ('\\' :: 'x' :: digits) [Char.ofNat (digitsValue .hexadecimal digits)]
  | code {digits : List Char} (hlength : digits.length = 4) (hdigits : AreHex digits)
      (hcode : ¬ IsSurrogate (digitsValue .hexadecimal digits)) :
      Piece quote after ('\\' :: 'u' :: digits) [Char.ofNat (digitsValue .hexadecimal digits)]
  | surrogate {digits : List Char} (hlength : digits.length = 4) (hdigits : AreHex digits)
      (hcode : IsSurrogate (digitsValue .hexadecimal digits)) :
      Piece quote after ('\\' :: 'u' :: digits) ('\\' :: 'u' :: digits)
  /-- Too few digits, and what follows is no further one. -/
  | short {letter : Char} {length : Nat} {digits : List Char} (h : (letter, length) ∈ codeEscapes)
      (hlength : digits.length < length) (hdigits : AreHex digits)
      (hafter : ∀ c ∈ after.head?, Radix.hexadecimal.isDigit c = false) :
      Piece quote after ('\\' :: letter :: digits) ('\\' :: letter :: digits)
  | unknown {c : Char} (hnamed : c ∉ namedEscapes.map Prod.fst)
      (hcode : c ∉ codeEscapes.map Prod.fst) : Piece quote after ['\\', c] ['\\', c]

/-- The text consists of pieces in front of the text `after`, and stands for the decoded one. -/
inductive Pieces (quote : Char) (after : List Char) : List Char → List Char → Prop
  | nil : Pieces quote after [] []
  | cons {piece decoded text decodedText : List Char}
      (h : Piece quote (text ++ after) piece decoded)
      (htext : Pieces quote after text decodedText) :
      Pieces quote after (piece ++ text) (decoded ++ decodedText)

variable {quote : Char} {after piece decoded text decodedText digits rest : List Char}

/-! ## The closing quote -/

/-- A hexadecimal digit differs from all that can be no part of a name. -/
theorem AreHex.ne_of_mem (h : AreHex digits) {d c : Char} (hd : d ∈ digits)
    (hc : isWordPart c = false) : d ≠ c := by
  rintro rfl
  rw [isWordPart_of_isDigit (h d hd)] at hc
  cases hc

/-- A run without quotes and backslashes is passed. -/
theorem throughQuote?_run {run : List Char} (h : ∀ c ∈ run, c ≠ quote ∧ c ≠ '\\') :
    throughQuote? quote (run ++ rest) = (throughQuote? quote rest).map (run ++ ·) := by
  induction run with
  | nil => simp
  | cons c run ih =>
    obtain ⟨hquote, hslash⟩ := h c List.mem_cons_self
    have hrun := ih fun d hd => h d (List.mem_cons_of_mem c hd)
    rw [List.cons_append, throughQuote?.eq_def]
    simp only [if_neg hquote, if_neg hslash, hrun, Option.map_map]
    rfl

/-- A backslash and what stands behind it are passed together. -/
theorem throughQuote?_escape (hquote : quote ≠ '\\') (c : Char) :
    throughQuote? quote ('\\' :: c :: rest) =
      (throughQuote? quote rest).map ('\\' :: c :: ·) := by
  rw [throughQuote?, if_neg hquote.symm, if_pos rfl]

/-- The search for the closing quote goes on behind a piece. -/
theorem Piece.throughQuote?_append (h : Piece quote after piece decoded)
    (hquote : quote = '\x22' ∨ quote = '\x27') :
    throughQuote? quote (piece ++ rest) = (throughQuote? quote rest).map (piece ++ ·) := by
  have hslash : quote ≠ '\\' := by
    rcases hquote with rfl | rfl <;> decide
  have hword : isWordPart quote = false := by
    rcases hquote with rfl | rfl <;> decide
  have hcoded : ∀ (letter : Char) {digits : List Char}, AreHex digits →
      throughQuote? quote ('\\' :: letter :: digits ++ rest) =
        (throughQuote? quote rest).map ('\\' :: letter :: digits ++ ·) := by
    intro letter digits hdigits
    have hrun : throughQuote? quote (digits ++ rest) =
        (throughQuote? quote rest).map (digits ++ ·) :=
      throughQuote?_run fun d hd =>
        ⟨hdigits.ne_of_mem hd hword, hdigits.ne_of_mem hd (by decide)⟩
    rw [List.cons_append, List.cons_append, throughQuote?_escape hslash, hrun, Option.map_map]
    rfl
  cases h with
  | plain hplain hne => exact throughQuote?_run (by simp [hplain, hne])
  | named => exact throughQuote?_escape hslash _
  | byte _ hdigits => exact hcoded 'x' hdigits
  | code _ hdigits => exact hcoded 'u' hdigits
  | surrogate _ hdigits => exact hcoded 'u' hdigits
  | short _ _ hdigits => exact hcoded _ hdigits
  | unknown => exact throughQuote?_escape hslash _

/-- Pieces are passed up to the quote behind them, and no further. -/
theorem Pieces.throughQuote?_append (h : Pieces quote after text decoded)
    (hquote : quote = '\x22' ∨ quote = '\x27') (rest : List Char) :
    throughQuote? quote (text ++ quote :: rest) = some (text ++ [quote]) := by
  induction h with
  | nil =>
    rw [List.nil_append, throughQuote?.eq_def]
    simp
  | cons hpiece _ ih =>
    rw [List.append_assoc, hpiece.throughQuote?_append hquote, ih, Option.map_some,
      List.append_assoc]

/-! ## The decoded text -/

/-- What was used already is passed over. -/
theorem unescapeAfter_length (run rest : List Char) :
    unescapeAfter run.length (run ++ rest) = unescapeAfter 0 rest := by
  induction run with
  | nil => rfl
  | cons c run ih => exact ih

/-- The digits of a code, when there are as many as it takes or no more of them follow. -/
theorem hexRun_append {limit : Nat} (hdigits : AreHex digits) (hle : digits.length ≤ limit)
    (hrest : digits.length = limit ∨ ∀ c ∈ rest.head?, Radix.hexadecimal.isDigit c = false) :
    hexRun limit (digits ++ rest) = digits := by
  unfold hexRun
  rw [List.take_append, List.take_of_length_le hle]
  apply takeWhile_append_of_head hdigits
  intro c hc
  rcases hrest with rfl | hrest
  · simp at hc
  · refine hrest c ?_
    rw [List.head?_take] at hc
    split at hc
    · cases hc
    · exact hc

/-- A letter that announces a code names no character. -/
theorem shortEscape?_of_codeEscapes {letter : Char} {length : Nat}
    (h : (letter, length) ∈ codeEscapes) :
    shortEscape? letter = none ∧ codeLength? letter = some length := by
  simp only [codeEscapes, List.mem_cons, Prod.mk.injEq, List.not_mem_nil, or_false] at h
  rcases h with ⟨rfl, rfl⟩ | ⟨rfl, rfl⟩ <;> decide

/-- The escape of a code is decoded with its digits, and the rest on its own. -/
theorem unescapeAfter_code {letter : Char} {length : Nat} (h : (letter, length) ∈ codeEscapes)
    (hrun : hexRun length (digits ++ rest) = digits) :
    unescapeAfter 0 ('\\' :: letter :: (digits ++ rest)) =
      decodeCode letter length digits ++ unescapeAfter 0 rest := by
  obtain ⟨hnamed, hcode⟩ := shortEscape?_of_codeEscapes h
  have hbehind : unescapeAfter (1 + digits.length) (letter :: (digits ++ rest)) =
      unescapeAfter 0 rest := by
    rw [Nat.add_comm]
    exact unescapeAfter_length (letter :: digits) rest
  rw [unescapeAfter]
  simp only [ne_eq, not_true_eq_false, if_false, hnamed, hcode, hrun, hbehind]

/-- An escape with all its digits stands for the character of its code, and for itself when there is
none. -/
theorem unescapeAfter_complete {letter : Char} {length : Nat} (h : (letter, length) ∈ codeEscapes)
    (hlength : digits.length = length) (hdigits : AreHex digits) :
    unescapeAfter 0 ('\\' :: letter :: digits ++ rest) =
      ((charOfCode? (digitsValue .hexadecimal digits)).map ([·])).getD ('\\' :: letter :: digits) ++
        unescapeAfter 0 rest := by
  have hne : digits ≠ [] := by
    rintro rfl
    subst hlength
    simp [codeEscapes] at h
  have hdecode : decodeCode letter length digits =
      ((charOfCode? (digitsValue .hexadecimal digits)).map ([·])).getD
        ('\\' :: letter :: digits) := by
    rw [decodeCode, if_pos hlength, magnitude?_of_digits hne hdigits, Option.bind_some]
    cases charOfCode? (digitsValue .hexadecimal digits) <;> rfl
  rw [← hdecode]
  exact unescapeAfter_code h (hexRun_append hdigits hlength.le (.inl hlength))

/-- An escape with too few digits stands for itself. -/
theorem unescapeAfter_short {letter : Char} {length : Nat} (h : (letter, length) ∈ codeEscapes)
    (hlength : digits.length < length) (hdigits : AreHex digits)
    (hrest : ∀ c ∈ rest.head?, Radix.hexadecimal.isDigit c = false) :
    unescapeAfter 0 ('\\' :: letter :: digits ++ rest) =
      '\\' :: letter :: digits ++ unescapeAfter 0 rest := by
  have hdecode : decodeCode letter length digits = '\\' :: letter :: digits := by
    rw [decodeCode, if_neg (Nat.ne_of_lt hlength)]
  rw [List.cons_append, List.cons_append,
    unescapeAfter_code h (hexRun_append hdigits hlength.le (.inr hrest)), hdecode]

/-! ### Codes -/

/-- The value of a digit is below the base. -/
theorem figure?_lt {radix : Radix} {c : Char} (h : radix.isDigit c = true) :
    (Radix.figure? c).getD 0 < radix.base := by
  have hdigit := digit?_of_isDigit h
  rw [Radix.digit?, Option.filter_eq_some_iff] at hdigit
  exact of_decide_eq_true hdigit.2

/-- So many digits make no greater value. -/
theorem digitsValue_lt {radix : Radix} (h : ∀ c ∈ digits, radix.isDigit c = true) :
    digitsValue radix digits < radix.base ^ digits.length := by
  have hbase : 1 < radix.base := by
    cases radix <;> decide
  have hvalues : ∀ value ∈ digits.reverse.map fun c => (Radix.figure? c).getD 0,
      value < radix.base := by
    intro value hvalue
    obtain ⟨c, hc, rfl⟩ := List.mem_map.1 hvalue
    exact figure?_lt (h c (List.mem_reverse.1 hc))
  have hlt := Nat.ofDigits_lt_base_pow_length hbase hvalues
  rwa [List.length_map, List.length_reverse] at hlt

/-- A code of at most four digits is one of a character, unless it is that of a surrogate. -/
theorem charOfCode?_digitsValue (hlength : digits.length ≤ 4) (hdigits : AreHex digits)
    (hcode : ¬ IsSurrogate (digitsValue .hexadecimal digits)) :
    charOfCode? (digitsValue .hexadecimal digits) =
      some (Char.ofNat (digitsValue .hexadecimal digits)) := by
  have hlt : digitsValue .hexadecimal digits < 16 ^ 4 :=
    Nat.lt_of_lt_of_le (digitsValue_lt hdigits) (Nat.pow_le_pow_right (by decide) hlength)
  have hvalid : (digitsValue .hexadecimal digits).isValidChar := by
    unfold IsSurrogate at hcode
    unfold Nat.isValidChar
    omega
  rw [charOfCode?, dif_pos hvalid, Char.ofNat, dif_pos hvalid]

/-- A surrogate is no character. -/
theorem charOfCode?_of_isSurrogate {code : Nat} (h : IsSurrogate code) :
    charOfCode? code = none := by
  rw [charOfCode?, dif_neg]
  unfold IsSurrogate at h
  unfold Nat.isValidChar
  omega

/-- Two digits are too few for a surrogate. -/
theorem not_isSurrogate_of_length (hlength : digits.length = 2) (hdigits : AreHex digits) :
    ¬ IsSurrogate (digitsValue .hexadecimal digits) := by
  have hlt : digitsValue .hexadecimal digits < 16 ^ digits.length := digitsValue_lt hdigits
  rw [hlength] at hlt
  unfold IsSurrogate
  omega

/-! ### Letters -/

/-- A letter that names a character names that one. -/
theorem shortEscape?_of_namedEscapes {letter c : Char} (h : (letter, c) ∈ namedEscapes) :
    shortEscape? letter = some c := by
  simp only [namedEscapes, List.mem_cons, Prod.mk.injEq, List.not_mem_nil, or_false] at h
  rcases h with ⟨rfl, rfl⟩ | ⟨rfl, rfl⟩ | ⟨rfl, rfl⟩ | ⟨rfl, rfl⟩ | ⟨rfl, rfl⟩ | ⟨rfl, rfl⟩ |
    ⟨rfl, rfl⟩ <;> decide

/-- Behind any other letter than these, a backslash stands for itself. -/
theorem escapes_of_unknown {c : Char} (hnamed : c ∉ namedEscapes.map Prod.fst)
    (hcode : c ∉ codeEscapes.map Prod.fst) :
    shortEscape? c = none ∧ codeLength? c = none ∧ c ≠ '\\' := by
  simp only [namedEscapes, List.map_cons, List.map_nil, List.mem_cons, List.not_mem_nil, or_false,
    not_or] at hnamed
  simp only [codeEscapes, List.map_cons, List.map_nil, List.mem_cons, List.not_mem_nil, or_false,
    not_or] at hcode
  simp [shortEscape?, codeLength?, hnamed, hcode]

/-! ### All pieces -/

/-- Decoding goes on behind a piece. -/
theorem Piece.unescapeAfter_append (h : Piece quote (rest ++ after) piece decoded) :
    unescapeAfter 0 (piece ++ rest) = decoded ++ unescapeAfter 0 rest := by
  cases h with
  | plain hslash =>
    rw [List.singleton_append, unescapeAfter.eq_def]
    simp [hslash]
  | named hnamed =>
    rw [List.cons_append, List.singleton_append, unescapeAfter]
    simp [shortEscape?_of_namedEscapes hnamed, unescapeAfter]
  | byte hlength hdigits =>
    have hcode := not_isSurrogate_of_length hlength hdigits
    rw [unescapeAfter_complete (by decide) hlength hdigits,
      charOfCode?_digitsValue (by omega) hdigits hcode]
    rfl
  | code hlength hdigits hcode =>
    rw [unescapeAfter_complete (by decide) hlength hdigits,
      charOfCode?_digitsValue hlength.le hdigits hcode]
    rfl
  | surrogate hlength hdigits hcode =>
    rw [unescapeAfter_complete (by decide) hlength hdigits, charOfCode?_of_isSurrogate hcode]
    rfl
  | short hcode hlength hdigits hstop =>
    -- behind the last piece the contents end, and no digit follows either
    have hrest : ∀ c ∈ rest.head?, Radix.hexadecimal.isDigit c = false := by
      intro c hc
      apply hstop c
      rw [List.head?_append, Option.mem_def.1 hc]
      rfl
    exact unescapeAfter_short hcode hlength hdigits hrest
  | unknown hnamed hcode =>
    obtain ⟨hshort, hlength, hslash⟩ := escapes_of_unknown hnamed hcode
    rw [List.cons_append, List.singleton_append, unescapeAfter]
    simp [hshort, hlength, unescapeAfter.eq_def 0 (_ :: _), hslash]

/-- The pieces are decoded one by one. -/
theorem Pieces.unescape_eq (h : Pieces quote after text decoded) : unescape text = decoded := by
  unfold unescape
  induction h with
  | nil => rfl
  | cons hpiece _ ih => rw [hpiece.unescapeAfter_append, ih]

end Lexeme

/-! ## Literals -/

open Lexeme

/-- **String literals are decoded piece by piece.** A text that starts with a literal of pieces
between two quotes of a kind has a string token on the first line in front, whose value is what the
pieces stand for, one behind the other. The cursor stands behind the closing quote then, having
counted the newlines, with no problem met. -/
theorem literal_decodes {quote : Char} (hquote : quote = '\x22' ∨ quote = '\x27')
    {contents decoded rest : List Char} (h : Pieces quote (quote :: rest) contents decoded) :
    (Lexer.ofText (String.ofList (quote :: (contents ++ quote :: rest)))).next? =
      some (⟨.string, String.ofList decoded, 1⟩,
        ⟨[], rest, 0, 1 + Text.newlines contents, []⟩) := by
  have hmem : .quoted quote ∈ patterns := by
    rcases hquote with rfl | rfl <;> decide
  have hne : quote ≠ '#' ∧ quote ≠ '\n' := by
    rcases hquote with rfl | rfl <;> decide
  have hlexeme : (Pattern.quoted quote).lexeme? (quote :: (contents ++ [quote])) =
      some (quote :: (contents ++ [quote])) := by
    simp [Pattern.lexeme?, h.throughQuote?_append hquote []]
  have hmatch := firstMatch?_literal hmem hlexeme rest
  have hvalue : (Pattern.quoted quote).valueOf (quote :: (contents ++ [quote])) =
      String.ofList decoded := by
    simp [Pattern.valueOf, h.unescape_eq]
  have hlines : Text.newlines (quote :: (contents ++ [quote])) = Text.newlines contents := by
    simp [Text.newlines, hne.2]
  have hnext := Lexer.next?_of_match rfl hmatch 1
  rw [hvalue, hlines, List.cons_append, List.append_assoc, List.singleton_append] at hnext
  rw [Lexer.ofText_eq_onLine (by simpa using hne.1), String.toList_ofList]
  exact hnext

/-- A piece of every kind: the other quote, a newline, `\n`, `\x4a`, `\u20AC`, `\uD800`, `\q`, and
`\x4` in front of the closing quote. -/
theorem pieces_mixed (rest : List Char) :
    Pieces '\x22' ('\x22' :: rest) "\x27\n\\n\\x4a\\u20AC\\uD800\\q\\x4".toList
      "\x27\n\nJ\u20AC\\uD800\\q\\x4".toList := by
  have hpieces : Pieces '\x22' ('\x22' :: rest)
      (['\x27'] ++ (['\n'] ++ (['\\', 'n'] ++ (['\\', 'x', '4', 'a'] ++
        (['\\', 'u', '2', '0', 'A', 'C'] ++ (['\\', 'u', 'D', '8', '0', '0'] ++ (['\\', 'q'] ++
          (['\\', 'x', '4'] ++ []))))))))
      (['\x27'] ++ (['\n'] ++ (['\n'] ++ ([Char.ofNat (digitsValue .hexadecimal ['4', 'a'])] ++
        ([Char.ofNat (digitsValue .hexadecimal ['2', '0', 'A', 'C'])] ++
          (['\\', 'u', 'D', '8', '0', '0'] ++ (['\\', 'q'] ++ (['\\', 'x', '4'] ++ [])))))))) :=
    .cons (.plain (by decide) (by decide)) <| .cons (.plain (by decide) (by decide)) <|
      .cons (.named (by decide)) <| .cons (.byte rfl (by decide)) <|
      .cons (.code rfl (by decide) (by decide)) <| .cons (.surrogate rfl (by decide) (by decide)) <|
      .cons (.unknown (by decide) (by decide)) <|
      .cons (.short (show ('x', 2) ∈ codeEscapes by decide) (by decide) (by decide)
        (by simp; decide))
        .nil
  exact hpieces

/-- The law at a literal of such pieces, with a word behind it. -/
theorem literal_decodes_mixed :
    ('\x22' = '\x22' ∨ '\x22' = '\x27') ∧
      Pieces '\x22' ['\x22', 'a'] "\x27\n\\n\\x4a\\u20AC\\uD800\\q\\x4".toList
        "\x27\n\nJ\u20AC\\uD800\\q\\x4".toList ∧
      (Lexer.ofText "\x22\x27\n\\n\\x4a\\u20AC\\uD800\\q\\x4\x22a").next? =
        some (⟨.string, "\x27\n\nJ\u20AC\\uD800\\q\\x4", 1⟩, ⟨[], ['a'], 0, 2, []⟩) :=
  ⟨by decide, pieces_mixed ['a'], literal_decodes (by decide) (pieces_mixed ['a'])⟩

end ScriptFront
