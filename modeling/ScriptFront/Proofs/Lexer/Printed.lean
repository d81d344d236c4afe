import ScriptFront.Proofs.Lexer.Lexemes
import ScriptFront.Tree.Render

/-!
# The tokens of a printed expression

* `Lexes text rest tokens` — in front of `rest`, the text is split into the tokens. What follows is
  in place, so that no lexeme can grow over the seam when texts are put together (`Lexes.append`).
* `Spells text tokens` — the text starts like an expression and is split into the tokens wherever
  it can stand in one.
* `Expr.Operational.printed` — the printed form of an expression of the operator fragment spells the
  tokens that `Expr.spell` lists; on its own it is split into these and the end of input
  (`tokenize_render`).
-/

namespace ScriptFront

open Lexeme

/-- A cursor on the first line, with nothing waiting. -/
def Lexer.before (text : List Char) : Lexer :=
  ⟨[], text, 0, 1, []⟩

/-- In front of `rest`, the text is split into the tokens. -/
def Lexes (text rest : List Char) (tokens : List Token) : Prop :=
  (Lexer.before (text ++ rest)).tokens = (Lexer.before rest).tokens.map (tokens ++ ·)

/-- The text is split into the tokens wherever no name or number runs on behind it. -/
def Lexed (text : List Char) (tokens : List Token) : Prop :=
  ∀ rest, Follows rest → Lexes text rest tokens

/-! ## One lexeme -/

/-- No text has no tokens. -/
theorem Lexes.nil (rest : List Char) : Lexes [] rest [] := by
  unfold Lexes
  rw [List.nil_append]
  cases (Lexer.before rest).tokens <;> rfl

/-- Texts one after the other have the tokens of both, each split in front of what follows. -/
theorem Lexes.append {text text' rest : List Char} {tokens tokens' : List Token}
    (h : Lexes text (text' ++ rest) tokens) (h' : Lexes text' rest tokens') :
    Lexes (text ++ text') rest (tokens ++ tokens') := by
  unfold Lexes at *
  rw [List.append_assoc, h, h']
  cases (Lexer.before rest).tokens with
  | error problem => rfl
  | ok later => simp [Except.map]

/-- At the end of the text there is only the end of input. -/
theorem Lexer.tokens_before_nil : (Lexer.before []).tokens = .ok [Token.eof 1] := by
  rw [Lexer.tokens_eq, Lexer.next?_of_atEnd rfl rfl]
  rfl

/-- Only the next token matters for what a cursor hands out. -/
theorem Lexer.tokens_congr {lexer lexer' : Lexer} (h : lexer.next? = lexer'.next?) :
    lexer.tokens = lexer'.tokens := by
  rw [Lexer.tokens_eq, Lexer.tokens_eq lexer', h]

/-- A lexeme on one line that becomes a token. -/
theorem lexes_of_match {pattern : Pattern} {text rest : List Char} {token : Token}
    (hmatch : firstMatch? (text ++ rest) = some (pattern, text))
    (haccept : (Lexer.before (text ++ rest)).accept pattern text =
      (Lexer.before rest).push token)
    (hkind : token.kind ≠ .eof) : Lexes text rest [token] := by
  have hne : text ++ rest ≠ [] := by
    have htext := firstMatch?_ne_nil hmatch
    simp [htext]
  have hscan : (Lexer.before (text ++ rest)).scan = (Lexer.before rest).push token := by
    rw [← haccept]
    simp only [Lexer.scan, Lexer.before, hmatch]
  have hnext : (Lexer.before (text ++ rest)).next? = some (token, Lexer.before rest) := by
    rw [Lexer.next?_of_scan rfl hne rfl, hscan]
    exact Lexer.next?_of_pending rfl
  unfold Lexes
  rw [Lexer.tokens_eq, hnext]
  simp only [Lexer.before, if_neg hkind]
  rfl

/-- The cursor behind a lexeme, where newlines are not counted. -/
theorem Lexer.move_before (text rest : List Char) :
    (Lexer.before (text ++ rest)).move text = Lexer.before rest := by
  simp [Lexer.move, Lexer.before]

/-- The cursor behind a lexeme on one line. -/
theorem Lexer.pass_before {text : List Char} (hline : '\n' ∉ text) (rest : List Char) :
    (Lexer.before (text ++ rest)).pass text = Lexer.before rest := by
  rw [Lexer.pass, Lexer.move_before, Text.newlines, List.count_eq_zero_of_not_mem hline]
  rfl

/-- A word that is always of one kind is lexed to it. -/
theorem lexed_word {word : String} {kind : Kind}
    (h : Pattern.word.lexeme? word.toList = some word.toList)
    (hkind : ∀ rest, Lexer.wordKind word rest = kind) (hne : kind ≠ .eof) :
    Lexed word.toList [.first kind word] := by
  intro rest hrest
  refine lexes_of_match (firstMatch?_word h hrest) ?_ hne
  simp only [Lexer.accept, Lexer.move_before, String.ofList_toList, hkind]
  rfl

/-- What fits a shape of integers as a whole is lexed to an integer. -/
theorem lexed_of_pattern {pattern : Pattern} (hmem : pattern ∈ integerPatterns) {text : String}
    (h : pattern.lexeme? text.toList = some text.toList) :
    Lexed text.toList [.first .integer text] := by
  intro rest hrest
  refine lexes_of_match (firstMatch?_integer hmem h hrest) ?_
    (show Kind.integer ≠ .eof by decide)
  rcases marked_or_digits hmem with ⟨radix, rfl⟩ | rfl
  · simp only [Lexer.accept, Lexer.move_before, String.ofList_toList]
    rfl
  · simp only [Lexer.accept, Lexer.move_before, String.ofList_toList]
    rfl

/-- An integer literal is lexed to an integer. -/
theorem lexed_integer {text : String} {value : Int} (h : IsInteger text value) :
    Lexed text.toList [.first .integer text] := by
  obtain ⟨pattern, hmem, hpattern, -⟩ := h
  exact lexed_of_pattern hmem hpattern

/-- A quoted text is lexed to a string. -/
theorem lexed_string {text : String} (h : Text.IsShown text) :
    Lexed (Text.quote text).toList [.first .string text] := by
  intro rest _
  have hline : '\n' ∉ Text.quoteChars text.toList := by
    simp [Text.quoteChars, newline_not_mem_flatMap_quoteChar h]
  have hinner : (Text.quoteChars text.toList).tail.dropLast =
    text.toList.flatMap Text.quoteChar := by
    simp [Text.quoteChars]
  unfold Text.quote
  rw [String.toList_ofList]
  refine lexes_of_match (firstMatch?_quoted h rest) ?_ (show Kind.string ≠ .eof by decide)
  simp only [Lexer.accept, Lexer.pass_before hline, hinner, unescape_flatMap_quoteChar h,
    String.ofList_toList]
  rfl

/-- Punctuation. -/
theorem lexes_fixed (spelling : String) {kind : Kind} {rest : List Char}
    (hmatch : firstMatch? (spelling.toList ++ rest) =
      some (.fixed spelling kind, spelling.toList)) (hkind : kind ≠ .eof) :
    Lexes spelling.toList rest [.first kind spelling] := by
  refine lexes_of_match hmatch ?_ hkind
  simp only [Lexer.accept, Lexer.move_before, String.ofList_toList]
  rfl

/-- A space in front of something else leaves no token. -/
theorem lexes_space {rest : List Char} (h : ∀ c ∈ rest.head?, Text.isBlank c = false) :
    Lexes [' '] rest [] := by
  have hmatch : firstMatch? (' ' :: rest) = some (.blanks, [' ']) := by
    have hlexeme : Pattern.blanks.lexeme? (' ' :: rest) = some [' '] := by
      have hrun : ([' '] ++ rest).takeWhile Text.isBlank = [' '] :=
        takeWhile_append_of_head (by simp; rfl) h
      rw [List.singleton_append] at hrun
      simp [Pattern.lexeme?, nonempty?, hrun]
    simp only [firstMatch?, patterns, List.findSome?_cons, hlexeme, Option.map_some]
  have hscan : (Lexer.before (' ' :: rest)).scan = Lexer.before rest := by
    simp only [Lexer.scan, Lexer.before, hmatch, Lexer.accept]
    rfl
  have hnext : (Lexer.before (' ' :: rest)).next? = (Lexer.before rest).next? := by
    rw [Lexer.next?_of_scan rfl (List.cons_ne_nil _ _) rfl, hscan]
  have htokens := Lexer.tokens_congr hnext
  unfold Lexes
  rw [List.singleton_append, htokens]
  cases (Lexer.before rest).tokens <;> rfl

/-! ## Punctuation -/

/-- A name or a number ends in front of a mark other than a point. -/
theorem follows_of_not_word {c : Char} (hword : isWordPart c = false) (hpoint : c ≠ '.')
    (rest : List Char) : Follows (c :: rest) := by
  constructor
  · simpa using hword
  · intro d tail heq
    cases heq
    exact absurd rfl hpoint

/-- A name or a number ends in front of a space. -/
theorem follows_space (rest : List Char) : Follows (' ' :: rest) :=
  follows_of_not_word (by decide) (by decide) rest

/-- A name or a number ends in front of a point that no digit follows. -/
theorem follows_point {c : Char} (h : c.isDigit = false) (rest : List Char) :
    Follows ('.' :: c :: rest) := by
  constructor
  · simp
    decide
  · intro d tail heq
    cases heq
    exact h

/-- The first of the spellings that stands at the front of a text. -/
def firstFixed? (spellings : List (String × Kind)) (text : List Char) :
    Option (Pattern × List Char) :=
  spellings.findSome? fun (spelling, kind) =>
    ((Pattern.fixed spelling kind).lexeme? text).map fun lexeme => (.fixed spelling kind, lexeme)

/-- A spelling that goes on differently does not stand there. -/
theorem firstFixed?_skip {spelling : String} {kind : Kind} {spellings : List (String × Kind)}
    {text more rest : List Char} {c d : Char} (hne : c ≠ d) (front : List Char)
    (hspelling : spelling.toList = front ++ d :: more) (htext : text = front ++ c :: rest) :
    firstFixed? ((spelling, kind) :: spellings) text = firstFixed? spellings text := by
  have hprefix : (front ++ d :: more).isPrefixOf (front ++ c :: rest) = false := by
    rw [Bool.eq_false_iff, ne_eq, List.isPrefixOf_iff_prefix, List.prefix_append_right_inj,
      List.cons_prefix_cons]
    exact fun h => hne h.1.symm
  simp only [firstFixed?, List.findSome?_cons, Pattern.lexeme?, hspelling, htext, hprefix,
    Bool.false_eq_true, if_false, Option.map_none]

/-- The operators in front of an operand are five. -/
theorem IsPrefix.mem {operator : String} (h : IsPrefix operator) :
    operator ∈ ["!", "-", "+", "&", "*"] := by
  have hmem : (operator, operatorKind operator) ∈ operatorKinds := by
    refine mem_operatorKinds fun hkind => ?_
    rw [IsPrefix, hkind] at h
    exact absurd h (by decide)
  have hall : ∀ entry ∈ operatorKinds, Grammar.standard.leading entry.2 = some .unary →
      entry.1 ∈ ["!", "-", "+", "&", "*"] := by decide
  exact hall _ hmem h

/-- In front of an operand, an operator is not taken for a longer one. -/
theorem firstMatch?_unary {operator : String} (h : IsPrefix operator) {c : Char}
    (hc : IsOpening c) (rest : List Char) :
    firstMatch? (operator.toList ++ c :: rest) =
      some (.fixed operator (operatorKind operator), operator.toList) := by
  have hequals : c ≠ '=' := hc.ne (by decide)
  have hmem := h.mem
  simp only [List.mem_cons, List.not_mem_nil, or_false] at hmem
  rcases hmem with rfl | rfl | rfl | rfl | rfl
  · calc firstMatch? ('!' :: c :: rest)
      _ = firstFixed? [("!=", .notEquals), ("!", .not)] ('!' :: c :: rest) := rfl
      _ = firstFixed? [("!", .not)] ('!' :: c :: rest) := firstFixed?_skip hequals ['!'] rfl rfl
      _ = some (.fixed "!" .not, ['!']) := rfl
  · have hdash : c ≠ '-' := hc.ne (by decide)
    have harrow : c ≠ '>' := hc.ne (by decide)
    calc firstMatch? ('-' :: c :: rest)
      _ = firstFixed? [("->", .arrow), ("--", .minusMinus), ("-=", .minusEquals), ("-", .dash)]
            ('-' :: c :: rest) := rfl
      _ = firstFixed? [("--", .minusMinus), ("-=", .minusEquals), ("-", .dash)]
            ('-' :: c :: rest) := firstFixed?_skip harrow ['-'] rfl rfl
      _ = firstFixed? [("-=", .minusEquals), ("-", .dash)] ('-' :: c :: rest) :=
        firstFixed?_skip hdash ['-'] rfl rfl
      _ = firstFixed? [("-", .dash)] ('-' :: c :: rest) := firstFixed?_skip hequals ['-'] rfl rfl
      _ = some (.fixed "-" .dash, ['-']) := rfl
  · have hplus : c ≠ '+' := hc.ne (by decide)
    calc firstMatch? ('+' :: c :: rest)
      _ = firstFixed? [("++", .plusPlus), ("+=", .plusEquals), ("+", .plus)] ('+' :: c :: rest) :=
        rfl
      _ = firstFixed? [("+=", .plusEquals), ("+", .plus)] ('+' :: c :: rest) :=
        firstFixed?_skip hplus ['+'] rfl rfl
      _ = firstFixed? [("+", .plus)] ('+' :: c :: rest) := firstFixed?_skip hequals ['+'] rfl rfl
      _ = some (.fixed "+" .plus, ['+']) := rfl
  · have hampersand : c ≠ '&' := hc.ne (by decide)
    calc firstMatch? ('&' :: c :: rest)
      _ = firstFixed? [("&&", .and), ("&", .ampersand)] ('&' :: c :: rest) := rfl
      _ = firstFixed? [("&", .ampersand)] ('&' :: c :: rest) :=
        firstFixed?_skip hampersand ['&'] rfl rfl
      _ = some (.fixed "&" .ampersand, ['&']) := rfl
  · have hstar : c ≠ '*' := hc.ne (by decide)
    calc firstMatch? ('*' :: c :: rest)
      _ = firstFixed? [("**", .starStar), ("*=", .starEquals), ("*", .star)] ('*' :: c :: rest) :=
        rfl
      _ = firstFixed? [("*=", .starEquals), ("*", .star)] ('*' :: c :: rest) :=
        firstFixed?_skip hstar ['*'] rfl rfl
      _ = firstFixed? [("*", .star)] ('*' :: c :: rest) := firstFixed?_skip hequals ['*'] rfl rfl
      _ = some (.fixed "*" .star, ['*']) := rfl

/-- A point in front of anything but a point. -/
theorem lexes_dot {c : Char} (h : c ≠ '.') (rest : List Char) :
    Lexes ['.'] (c :: rest) [.first .dot "."] := by
  refine lexes_fixed "." ?_ (by decide)
  calc firstMatch? ('.' :: c :: rest)
    _ = firstFixed? [("...", .ellipsis), ("..", .dotDot), (".", .dot)] ('.' :: c :: rest) := rfl
    _ = firstFixed? [("..", .dotDot), (".", .dot)] ('.' :: c :: rest) :=
      firstFixed?_skip h ['.'] rfl rfl
    _ = firstFixed? [(".", .dot)] ('.' :: c :: rest) := firstFixed?_skip h ['.'] rfl rfl
    _ = some (.fixed "." .dot, ['.']) := rfl

/-- Two points in front of anything but a point are one token. -/
theorem lexes_dotDot {c : Char} (h : c ≠ '.') (rest : List Char) :
    Lexes ['.', '.'] (c :: rest) [.first .dotDot ".."] := by
  refine lexes_fixed ".." ?_ (by decide)
  calc firstMatch? ('.' :: '.' :: c :: rest)
    _ = firstFixed? [("...", .ellipsis), ("..", .dotDot)] ('.' :: '.' :: c :: rest) := rfl
    _ = firstFixed? [("..", .dotDot)] ('.' :: '.' :: c :: rest) :=
      firstFixed?_skip h ['.', '.'] rfl rfl
    _ = some (.fixed ".." .dotDot, ['.', '.']) := rfl

/-- In front of a space, every operator is what it looks like. -/
theorem lexes_operator {operator : String} (h : operatorKind operator ≠ .illegal)
    (rest : List Char) :
    Lexes operator.toList (' ' :: rest) [.first (operatorKind operator) operator] := by
  have hmem := mem_operatorKinds h
  by_cases hin : operator = "in"
  · subst hin
    have hword : Lexed "in".toList [.first .inWord "in"] :=
      lexed_word rfl (fun _ => rfl) (by decide)
    exact hword _ (follows_space rest)
  · have hkind : ∀ entry ∈ operatorKinds, entry.2 ≠ .eof := by decide
    refine lexes_fixed _ ?_ (hkind _ hmem)
    generalize operatorKind operator = kind at hmem
    simp only [operatorKinds, List.mem_cons, Prod.mk.injEq, List.not_mem_nil, or_false, hin,
      false_and, false_or] at hmem
    rcases hmem with ⟨rfl, rfl⟩ | ⟨rfl, rfl⟩ | ⟨rfl, rfl⟩ | ⟨rfl, rfl⟩ | ⟨rfl, rfl⟩ | ⟨rfl, rfl⟩ |
      ⟨rfl, rfl⟩ | ⟨rfl, rfl⟩ | ⟨rfl, rfl⟩ | ⟨rfl, rfl⟩ | ⟨rfl, rfl⟩ | ⟨rfl, rfl⟩ | ⟨rfl, rfl⟩ |
      ⟨rfl, rfl⟩ | ⟨rfl, rfl⟩ | ⟨rfl, rfl⟩ | ⟨rfl, rfl⟩ | ⟨rfl, rfl⟩ | ⟨rfl, rfl⟩ | ⟨rfl, rfl⟩ |
      ⟨rfl, rfl⟩ | ⟨rfl, rfl⟩ | ⟨rfl, rfl⟩ <;> rfl

/-! ## Putting texts together -/

/-- The marks that are no part of a longer lexeme. -/
def marks : List (String × Kind) :=
  [("(", .openParen), (")", .closeParen), ("[", .openBracket), ("]", .closeBracket),
   (",", .comma), (":", .colon), ("@", .atSign)]

variable {mark mark' operator name : String} {kind kind' : Kind} {text text' rest : List Char}
  {tokens tokens' : List Token}

/-- A mark that is no part of a longer lexeme is one token, whatever follows. -/
theorem lexes_mark (h : (mark, kind) ∈ marks) (rest : List Char) :
    Lexes mark.toList rest [.first kind mark] := by
  have hkind : ∀ entry ∈ marks, entry.2 ≠ .eof := by decide
  refine lexes_fixed _ ?_ (hkind _ h)
  simp only [marks, List.mem_cons, Prod.mk.injEq, List.not_mem_nil, or_false] at h
  rcases h with ⟨rfl, rfl⟩ | ⟨rfl, rfl⟩ | ⟨rfl, rfl⟩ | ⟨rfl, rfl⟩ | ⟨rfl, rfl⟩ | ⟨rfl, rfl⟩ |
    ⟨rfl, rfl⟩ <;> rfl

/-- A name or a number ends in front of such a mark. -/
theorem follows_mark (h : (mark, kind) ∈ marks) (rest : List Char) :
    Follows (mark.toList ++ rest) := by
  simp only [marks, List.mem_cons, Prod.mk.injEq, List.not_mem_nil, or_false] at h
  rcases h with ⟨rfl, -⟩ | ⟨rfl, -⟩ | ⟨rfl, -⟩ | ⟨rfl, -⟩ | ⟨rfl, -⟩ | ⟨rfl, -⟩ | ⟨rfl, -⟩ <;>
    exact follows_of_not_word (by decide) (by decide) rest

/-- The text starts like an expression. -/
def Opens (text : List Char) : Prop :=
  ∃ c tail, text = c :: tail ∧ IsOpening c

/-- What starts like an expression does so with more text behind it. -/
theorem Opens.append (h : Opens text) (text' : List Char) : Opens (text ++ text') := by
  obtain ⟨c, tail, rfl, hc⟩ := h
  exact ⟨c, tail ++ text', rfl, hc⟩

/-- The text starts like an expression, and is split into the tokens wherever no name or number runs
on behind it. -/
structure Spells (text : List Char) (tokens : List Token) : Prop where
  opens : Opens text
  lexed : Lexed text tokens

/-- A word that is always of one kind spells one token. -/
theorem spells_word (h : Pattern.word.lexeme? name.toList = some name.toList)
    (hkind : ∀ rest, Lexer.wordKind name rest = kind) (hne : kind ≠ .eof) :
    Spells name.toList [.first kind name] := by
  obtain ⟨c, tail, htext, hc, -⟩ := exists_of_word h
  exact ⟨⟨c, tail, htext, .inl hc⟩, lexed_word h hkind hne⟩

/-- A name that is not reserved is an identifier, whatever follows. -/
theorem wordKind_of_isName (h : IsName name) (rest : List Char) :
    Lexer.wordKind name rest = .identifier := by
  simp [Lexer.wordKind, h.2]

/-- A name spells one token. -/
theorem spells_name (h : IsName name) : Spells name.toList [.first .identifier name] :=
  spells_word h.1 (wordKind_of_isName h) (by decide)

/-- An integer literal spells one token. -/
theorem spells_integer {value : Int} (h : IsInteger name value) :
    Spells name.toList [.first .integer name] := by
  have hlexed := lexed_integer h
  obtain ⟨pattern, hmem, hpattern, -⟩ := h
  obtain ⟨c, tail, htext, hc, -⟩ := exists_of_integer hmem hpattern
  exact ⟨⟨c, tail, htext, .inr (.inl hc)⟩, hlexed⟩

/-- A quoted text spells one token. -/
theorem spells_string (h : Text.IsShown name) :
    Spells (Text.quote name).toList [.first .string name] := by
  refine ⟨⟨'\x22', name.toList.flatMap Text.quoteChar ++ ['\x22'], ?_, ?_⟩, lexed_string h⟩
  · rw [Text.quote, String.toList_ofList]
    rfl
  · exact .inr (.inr (by decide))

namespace Lexed

/-- No text has no tokens, whatever follows. -/
theorem nil : Lexed [] [] :=
  fun rest _ => Lexes.nil rest

/-- Texts one after the other have the tokens of both, if no name or number runs on at the seam. -/
theorem append (h : Lexed text tokens) (h' : Lexed text' tokens')
    (hseam : ∀ rest, Follows rest → Follows (text' ++ rest)) :
    Lexed (text ++ text') (tokens ++ tokens') := by
  intro rest hrest
  have hfirst := h (text' ++ rest) (hseam rest hrest)
  exact hfirst.append (h' rest hrest)

/-- A text between two marks. -/
theorem between (hopen : (mark, kind) ∈ marks) (h : Lexed text tokens)
    (hclose : (mark', kind') ∈ marks) :
    Lexed (mark.toList ++ text ++ mark'.toList)
      (.first kind mark :: (tokens ++ [.first kind' mark'])) := by
  intro rest _
  have hinner := h _ (follows_mark hclose rest)
  exact ((lexes_mark hopen _).append hinner).append (lexes_mark hclose rest)

/-- Text between parentheses starts like an expression. -/
theorem inParens (h : Lexed text tokens) :
    Spells ("(".toList ++ text ++ ")".toList) (inParens tokens) :=
  ⟨⟨'(', text ++ ")".toList, rfl, .inr (.inr (by decide))⟩, between (by decide) h (by decide)⟩

/-- A text between brackets has its tokens between those of the brackets. -/
theorem inBrackets (h : Lexed text tokens) :
    Spells ("[".toList ++ text ++ "]".toList) (inBrackets tokens) :=
  ⟨⟨'[', text ++ "]".toList, rfl, .inr (.inr (by decide))⟩, between (by decide) h (by decide)⟩

/-- A colon between two texts. -/
theorem colon (h : Lexed text tokens) (h' : Lexed text' tokens') :
    Lexed (text ++ ":".toList ++ text') (tokens ++ .first .colon ":" :: tokens') := by
  intro rest hrest
  have hmark : (":", .colon) ∈ marks := by decide
  have hfirst := h _ (follows_mark hmark (text' ++ rest))
  have hwhole := (hfirst.append (lexes_mark hmark _)).append (h' rest hrest)
  rwa [List.append_assoc tokens] at hwhole

end Lexed

namespace Spells

/-- A member of an expression. -/
theorem member (h : Spells text tokens) (hname : IsName name) :
    Spells (text ++ ".".toList ++ name.toList)
      (tokens ++ [.first .dot ".", .first .identifier name]) := by
  refine ⟨(h.opens.append _).append _, fun rest hrest => ?_⟩
  obtain ⟨c, tail, htext, hc, -⟩ := exists_of_word hname.1
  have hlast := (spells_name hname).lexed rest hrest
  have hdot : Lexes ".".toList (name.toList ++ rest) [.first .dot "."] := by
    have hopening : IsOpening c := .inl hc
    rw [htext]
    exact lexes_dot (hopening.ne (by decide)) _
  have hfirst : Lexes text (".".toList ++ (name.toList ++ rest)) tokens := by
    -- a digit behind the point would make a fraction of a number before it
    have hdigit : c.isDigit = false := by
      rw [Bool.eq_false_iff, ne_eq, isDigit_iff]
      rw [isWordStart_iff] at hc
      omega
    refine h.lexed _ ?_
    rw [htext]
    exact follows_point hdigit _
  have hwhole := (hfirst.append hdot).append hlast
  rwa [List.append_assoc tokens] at hwhole

/-- Something in parentheses behind an expression. -/
theorem inParens (h : Spells text tokens) (h' : Lexed text' tokens') :
    Spells (text ++ ("(".toList ++ text' ++ ")".toList)) (tokens ++ inParens tokens') := by
  constructor
  · exact h.opens.append _
  · apply h.lexed.append h'.inParens.lexed
    intro rest _
    exact follows_of_not_word (by decide) (by decide) _

/-- Something in brackets behind an expression. -/
theorem inBrackets (h : Spells text tokens) (h' : Lexed text' tokens') :
    Spells (text ++ ("[".toList ++ text' ++ "]".toList)) (tokens ++ inBrackets tokens') := by
  constructor
  · exact h.opens.append _
  · apply h.lexed.append h'.inBrackets.lexed
    intro rest _
    exact follows_of_not_word (by decide) (by decide) _

/-- An operator before its operand. -/
theorem unary (h : Spells text tokens) (hoperator : IsPrefix operator) :
    Lexed (operator.toList ++ text) (.first (operatorKind operator) operator :: tokens) := by
  intro rest hrest
  obtain ⟨c, tail, rfl, hc⟩ := h.opens
  have hmatch := firstMatch?_unary hoperator hc (tail ++ rest)
  have hkind : (operatorKind operator) ≠ .eof := by
    intro heof
    rw [IsPrefix, heof] at hoperator
    exact absurd hoperator (by decide)
  exact (lexes_fixed _ hmatch hkind).append (h.lexed rest hrest)

/-- A space before an expression. -/
theorem afterSpace (h : Spells text tokens) : Lexed (" ".toList ++ text) tokens := by
  intro rest hrest
  obtain ⟨c, tail, rfl, hc⟩ := h.opens
  refine Lexes.append (lexes_space ?_) (h.lexed rest hrest)
  simpa using hc.isBlank_eq

/-- An operator between its operands. -/
theorem linked (h : Spells text' tokens') (hoperator : operatorKind operator ≠ .illegal)
    (hleft : Lexed text tokens) :
    Lexed (text ++ " ".toList ++ operator.toList ++ " ".toList ++ text')
      (tokens ++ .first (operatorKind operator) operator :: tokens') := by
  intro rest hrest
  have hright := h.afterSpace rest hrest
  have hmiddle := lexes_operator hoperator (text' ++ rest)
  have hspace : Lexes " ".toList (operator.toList ++ ' ' :: (text' ++ rest)) [] := by
    refine lexes_space fun c hc => ?_
    have hall : ∀ entry ∈ operatorKinds, entry.1.toList.head?.map Text.isBlank = some false := by
      decide
    have hhead := hall _ (mem_operatorKinds hoperator)
    obtain ⟨d, hd, hblank⟩ := Option.map_eq_some_iff.1 hhead
    rw [List.head?_append, hd, Option.some_or, Option.mem_some_iff] at hc
    rwa [← hc]
  have hfirst : Lexes text (' ' :: (operator.toList ++ ' ' :: (text' ++ rest))) tokens :=
    hleft _ (follows_space _)
  have hwhole := ((hfirst.append hspace).append hmiddle).append hright
  rw [List.append_nil, List.append_assoc tokens, ← List.append_assoc _ " ".toList] at hwhole
  exact hwhole

/-- Two dots between two expressions. -/
theorem range (h : Spells text' tokens') (hleft : Lexed text tokens) :
    Lexed (text ++ "..".toList ++ text') (tokens ++ .first .dotDot ".." :: tokens') := by
  intro rest hrest
  obtain ⟨c, tail, rfl, hc⟩ := h.opens
  have hright := h.lexed rest hrest
  have hdots : Lexes "..".toList (c :: tail ++ rest) [.first .dotDot ".."] :=
    lexes_dotDot (hc.ne (by decide)) _
  -- the second point keeps a number before the first one from being a fraction
  have hfirst : Lexes text ("..".toList ++ (c :: tail ++ rest)) tokens :=
    hleft _ (follows_point (by decide) _)
  have hwhole := (hfirst.append hdots).append hright
  rwa [List.append_assoc tokens] at hwhole

end Spells

/-! ## Printed expressions -/

/-- Behind the first of several texts stands the rest, each with the separator in front. -/
theorem toList_joinWith_cons (separator first : String) (later : List String) :
    (Text.joinWith separator (first :: later)).toList =
      first.toList ++ later.flatMap fun each => separator.toList ++ each.toList := by
  induction later generalizing first with
  | nil => simp
  | cons second later ih =>
    rw [Text.joinWith_cons_cons, String.toList_append, String.toList_append, ih second]
    simp

/-- The printed form of the expression spells its tokens. -/
def Expr.Printed (expression : Expr) : Prop :=
  Spells expression.render.toList expression.spell

variable {elements : List Expr}

/-- A name or a number ends in front of the comma and the other elements of a list. -/
theorem follows_tail (hrest : Follows rest) (later : List String) :
    Follows ((later.flatMap fun each => ", ".toList ++ each.toList) ++ rest) := by
  cases later with
  | nil => exact hrest
  | cons each later => exact follows_of_not_word (by decide) (by decide) _

/-- The elements after the first one have their tokens, each behind a comma. -/
theorem lexed_tail (h : ∀ e ∈ elements, e.Printed) :
    Lexed ((Expr.renderEach elements).flatMap fun each => ", ".toList ++ each.toList)
      (Expr.spellTail elements) := by
  induction elements with
  | nil => exact Lexed.nil
  | cons e later ih =>
    have hfirst := h e List.mem_cons_self
    have hlater := ih fun e' he' => h e' (List.mem_cons_of_mem e he')
    intro rest hrest
    have hcomma := lexes_mark (show (",", .comma) ∈ marks by decide)
    have hspaced := hfirst.afterSpace _ (follows_tail hrest (Expr.renderEach later))
    rw [Expr.renderEach, List.flatMap_cons, Expr.spellTail]
    exact ((hcomma _).append hspaced).append (hlater rest hrest)

/-- The elements of a list have their tokens, with commas between them. -/
theorem lexed_each (h : ∀ e ∈ elements, e.Printed) :
    Lexed (Text.joinWith ", " (Expr.renderEach elements)).toList (Expr.spellEach elements) := by
  cases elements with
  | nil => exact Lexed.nil
  | cons e later =>
    have hfirst := h e List.mem_cons_self
    have hlater := lexed_tail fun e' he' => h e' (List.mem_cons_of_mem e he')
    rw [Expr.renderEach, toList_joinWith_cons, Expr.spellEach]
    exact hfirst.lexed.append hlater fun rest hrest => follows_tail hrest _

/-- An expression that may be missing has its tokens, if it is there. -/
theorem lexed_optional {part : Option Expr} (h : ∀ e ∈ part, e.Printed) :
    Lexed (Expr.render? "" part).toList (Expr.spell? part) := by
  cases part with
  | none => exact Lexed.nil
  | some e =>
    rw [Expr.render?, String.toList_append, Expr.spell?]
    exact (h e rfl).lexed

/-- An operator between its operands, printed in parentheses. -/
theorem spells_group {left right operator : String} (hleft : Lexed left.toList tokens)
    (hoperator : operatorKind operator ≠ .illegal) (hright : Spells right.toList tokens') :
    Spells ("(" ++ left ++ " " ++ operator ++ " " ++ right ++ ")").toList
      (inParens (tokens ++ .first (operatorKind operator) operator :: tokens')) := by
  have htext : ("(" ++ left ++ " " ++ operator ++ " " ++ right ++ ")").toList =
      "(".toList ++ (left.toList ++ " ".toList ++ operator.toList ++ " ".toList ++ right.toList) ++
        ")".toList := by
    simp only [String.toList_append, List.append_assoc]
  rw [htext]
  exact (hright.linked hoperator hleft).inParens

/-- The printed form of an expression of the operator fragment spells its tokens. -/
theorem Expr.Operational.printed {e : Expr} (h : e.Operational) : e.Printed := by
  unfold Expr.Printed
  induction h with
  | identifier hname =>
    rw [Expr.render, Expr.spell]
    exact spells_name hname
  | integer htext =>
    rw [Expr.render, Expr.spell]
    exact spells_integer htext
  | string htext =>
    rw [Expr.render, Expr.spell]
    exact spells_string htext
  | boolean token value =>
    rw [Expr.render, Expr.spell]
    cases value with
    | true => exact spells_word rfl (fun _ => rfl) (by decide)
    | false => exact spells_word rfl (fun _ => rfl) (by decide)
  | null token =>
    rw [Expr.render, Expr.spell]
    exact spells_word rfl (fun _ => rfl) (by decide)
  | receiver token =>
    have hlexed : Lexed "@".toList [.first .atSign "@"] := fun rest _ => lexes_mark (by decide) rest
    rw [Expr.render, Expr.spell]
    exact ⟨⟨'@', [], rfl, .inr (.inr (by decide))⟩, hlexed⟩
  | array _ ih =>
    rw [Expr.render, String.toList_append, String.toList_append, Expr.spell]
    exact (lexed_each ih).inBrackets
  | @unary token operator right hoperator _ ih =>
    have htext : (Expr.unary token operator right).render.toList =
        "(".toList ++ (operator.toList ++ right.render.toList) ++ ")".toList := by
      simp only [Expr.render, String.toList_append, List.append_assoc]
    rw [htext, Expr.spell]
    exact (ih.unary hoperator).inParens
  | binary hoperator _ _ ihleft ihright =>
    rw [Expr.render, Expr.spell]
    exact spells_group ihleft.lexed hoperator.ne_illegal ihright
  | @range token start stop _ _ ihstart ihstop =>
    have htext : (Expr.range token start stop).render.toList =
        "(".toList ++ (start.render.toList ++ "..".toList ++ stop.render.toList) ++
          ")".toList := by
      simp only [Expr.render, String.toList_append, List.append_assoc]
    rw [htext, Expr.spell]
    exact (ihstop.range ihstart.lexed).inParens
  | @assign token name value hname _ ih =>
    have htext : (Expr.assign token name value).render =
        "(" ++ name.name ++ " " ++ "=" ++ " " ++ value.render ++ ")" := by
      have hequals : " = " = " " ++ "=" ++ " " := rfl
      simp only [Expr.render, String.append_assoc, hequals]
    rw [htext, Expr.spell]
    exact spells_group (spells_name hname).lexed (by decide) ih
  | compoundAssign hname hoperator _ _ ih =>
    rw [Expr.render, Expr.spell]
    exact spells_group (spells_name hname).lexed hoperator.ne_illegal ih
  | indexAssign _ _ hoperator _ ihtarget ihvalue =>
    rw [Expr.render, Expr.spell]
    exact spells_group ihtarget.lexed hoperator.ne_illegal ihvalue
  | @propertyAssign token dot object value property operator _ hproperty hoperator _ ihobject
      ihvalue =>
    have htext : (Expr.propertyAssign token dot object property operator value).render =
        "(" ++ (object.render ++ "." ++ property.name) ++ " " ++ operator ++ " " ++ value.render ++
          ")" := by
      simp only [Expr.render, String.append_assoc]
    have hmember : Lexed (object.render ++ "." ++ property.name).toList
        (object.spell ++ [.first .dot ".", .first .identifier property.name]) := by
      rw [String.toList_append, String.toList_append]
      exact (ihobject.member hproperty).lexed
    have hwhole := spells_group hmember hoperator.ne_illegal ihvalue
    rw [htext, Expr.spell]
    rwa [List.append_assoc object.spell] at hwhole
  | @call token function arguments _ _ _ ihfunction iharguments =>
    have htext : (Expr.call token function arguments).render.toList =
        function.render.toList ++
          ("(".toList ++ (Text.joinWith ", " (Expr.renderEach arguments)).toList ++
            ")".toList) := by
      simp only [Expr.render, String.toList_append, List.append_assoc]
    rw [htext, Expr.spell]
    exact ihfunction.inParens (lexed_each iharguments)
  | @index token left position _ _ ihleft ihposition =>
    have htext : (Expr.index token left position).render.toList =
        "(".toList ++ (left.render.toList ++ ("[".toList ++ position.render.toList ++
          "]".toList)) ++ ")".toList := by
      have hclose : "])".toList = "]".toList ++ ")".toList := rfl
      simp only [Expr.render, String.toList_append, List.append_assoc, hclose]
    rw [htext, Expr.spell]
    exact (ihleft.inBrackets ihposition.lexed).lexed.inParens
  | @slice token left start stop _ _ _ ihleft ihstart ihstop =>
    have htext : (Expr.slice token left start stop).render.toList =
        "(".toList ++ (left.render.toList ++ ("[".toList ++ ((Expr.render? "" start).toList ++
          ":".toList ++ (Expr.render? "" stop).toList) ++ "]".toList)) ++ ")".toList := by
      have hclose : "])".toList = "]".toList ++ ")".toList := rfl
      simp only [Expr.render, String.toList_append, List.append_assoc, hclose]
    rw [htext, Expr.spell]
    have hbounds := (lexed_optional ihstart).colon (lexed_optional ihstop)
    exact (ihleft.inBrackets hbounds).lexed.inParens
  | @property token object name _ hname ih =>
    rw [Expr.render, String.toList_append, String.toList_append, Expr.spell]
    exact ih.member hname
  | @method token object name arguments _ hname _ ihobject iharguments =>
    have htext : (Expr.method token object name arguments).render.toList =
        object.render.toList ++ ".".toList ++ name.name.toList ++
          ("(".toList ++ (Text.joinWith ", " (Expr.renderEach arguments)).toList ++
            ")".toList) := by
      simp only [Expr.render, String.toList_append, List.append_assoc]
    rw [htext, Expr.spell]
    have hwhole := (ihobject.member hname).inParens (lexed_each iharguments)
    rwa [List.append_assoc object.spell] at hwhole
  | @await token value _ ih =>
    have htext : (Expr.await token value).render.toList =
        "(".toList ++ ("await".toList ++ (" ".toList ++ value.render.toList)) ++ ")".toList := by
      have hword : "(await ".toList = "(".toList ++ "await".toList ++ " ".toList := rfl
      simp only [Expr.render, String.toList_append, List.append_assoc, hword]
    have hword : Lexed "await".toList [.first .awaitWord "await"] :=
      lexed_word rfl (fun _ => rfl) (by decide)
    rw [htext, Expr.spell]
    exact (hword.append ih.afterSpace fun rest _ => follows_space _).inParens

/-- A text on its own is split into its tokens and the end of input. -/
theorem Lexed.tokenize_eq {text : String} {tokens : List Token} (h : Lexed text.toList tokens)
    (hhash : text.toList.head? ≠ some '#') : tokenize text = .ok (tokens ++ [Token.eof 1]) := by
  have hstart : Lexer.ofText text = Lexer.before text.toList := by
    unfold Lexer.ofText Lexer.before
    split
    · next hdirective => simp [hdirective] at hhash
    · rfl
  have hnil : Follows [] := ⟨by simp, by simp⟩
  have htokens := h [] hnil
  unfold Lexes at htokens
  rw [List.append_nil, Lexer.tokens_before_nil] at htokens
  rw [tokenize, hstart, htokens]
  rfl

/-- The printed form of an expression of the operator fragment is split into its tokens. -/
theorem tokenize_render {e : Expr} (h : e.Operational) :
    tokenize e.render = .ok (e.spell ++ [Token.eof 1]) := by
  obtain ⟨c, tail, htext, hc⟩ := h.printed.opens
  have hhash : e.render.toList.head? ≠ some '#' := by
    -- no directive for the system starts like an expression
    have hmark : c ≠ '#' := hc.ne (by decide)
    simpa [htext] using hmark
  exact h.printed.lexed.tokenize_eq hhash

end ScriptFront
