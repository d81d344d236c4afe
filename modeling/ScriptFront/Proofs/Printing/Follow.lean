import ScriptFront.Proofs.Lexer.Spelling
import ScriptFront.Proofs.Printing.Text
import ScriptFront.Proofs.Text.Quoting
import ScriptFront.Proofs.Tree.Law

/-!
# What stands behind an expression, and what it begins with

Two printed forms with something behind each can only be the same text if what stands behind cannot
be taken for more of the expression.

* `Ends`, `Follow` — what stands behind the head of a printed expression, and behind the whole. In a
  list it may be a comma, and elsewhere it is none (`Place`).
* `append_cancel_flatMap`, `append_cancel_behind`, `append_cancel_joined` — what is told piece by
  piece is told as a whole.
* `append_cancel_runs`, `Identifier.append_cancel`, `append_cancel_names` — words and names are told
  from what stands behind them.
* `Family` — what the first word or character of a text says about the expression or statement that
  it is the text of.
-/

namespace ScriptFront

open Lexeme

/-! ## What stands behind -/

/-- Where an expression is printed. -/
inductive Place where
  /-- With no comma behind it. -/
  | whole
  /-- As an item of a list. -/
  | item
deriving DecidableEq, Repr

/-- What stands behind the head of an expression: no more of a word or a number; behind a space no
name and no `else`; and a comma only in a list. -/
structure Ends (place : Place) (rest : List Char) : Prop extends Follows rest where
  space : ∀ tail, rest = ' ' :: tail →
    (∀ c ∈ tail.head?, isWordPart c = false) ∨ "in ".toList <+: tail ∨ "if ".toList <+: tail
  comma : place = .whole → rest.head? ≠ some ','

/-- What stands behind a whole expression: moreover no arguments and no member. -/
structure Follow (place : Place) (rest : List Char) : Prop extends Ends place rest where
  paren : rest.head? ≠ some '('
  point_point : ∀ tail, rest = '.' :: tail → tail.head? = some '.'

section Follow

variable {place : Place} {rest : List Char} {c : Char}

/-- A mark that goes on with nothing ends an expression. -/
def endsExpr (c : Char) : Bool :=
  !isWordPart c && c ≠ '(' && c ≠ '.' && c ≠ ' ' && c ≠ ','

/-- A mark that ends an expression goes on with none. -/
theorem follow_cons (h : endsExpr c = true) : Follow place (c :: rest) := by
  simp only [endsExpr, Bool.and_eq_true, Bool.not_eq_true', decide_eq_true_eq] at h
  obtain ⟨⟨⟨⟨hword, hparen⟩, hpoint⟩, hspace⟩, hcomma⟩ := h
  constructor
  · constructor
    · constructor <;> simp [hword, hpoint]
    · simp [hspace]
    · simp [hcomma]
  · simp [hparen]
  · simp [hpoint]

/-- A space goes on with no expression, if what stands behind it is no name and no `else`. -/
theorem follow_space (h : (∀ c ∈ rest.head?, isWordPart c = false) ∨ "in ".toList <+: rest ∨
    "if ".toList <+: rest) : Follow place (' ' :: rest) := by
  constructor
  · constructor
    · constructor <;> simp
      decide
    · simpa using h
    · simp
  · simp
  · simp

/-- A space in front of a mark goes on with no expression. -/
theorem follow_space_cons (h : isWordPart c = false) : Follow place (' ' :: c :: rest) :=
  follow_space (.inl (by simpa using h))

/-- Two points go on with no expression. -/
theorem follow_point_point : Follow place ('.' :: '.' :: rest) := by
  constructor
  · constructor
    · exact follows_point (by decide) rest
    · simp
    · simp
  · simp
  · simp

/-- A comma goes on with no item of a list. -/
theorem follow_comma : Follow .item (',' :: rest) := by
  constructor
  · constructor
    · constructor <;> simp
      decide
    · simp
    · simp
  · simp
  · simp

/-- An opening parenthesis ends a head. -/
theorem ends_paren : Ends place ('(' :: rest) := by
  constructor
  · constructor <;> simp
    decide
  · simp
  · simp

/-- What a name starts on is no digit. -/
theorem isDigit_of_isWordStart (h : isWordStart c = true) : c.isDigit = false := by
  rw [isWordStart_iff] at h
  rw [Bool.eq_false_iff, ne_eq, isDigit_iff]
  omega

/-- A member ends a head. -/
theorem ends_member (h : isWordStart c = true) : Ends place ('.' :: c :: rest) := by
  constructor
  · exact follows_point (isDigit_of_isWordStart h) rest
  · simp
  · simp

end Follow

/-! ## Lists -/

/-- Pieces one after the other are told from each other and from what stands behind, if each piece
is told from what can stand behind it. -/
theorem append_cancel_flatMap {α β : Type} {piece : α → List Char} {shown : α → β}
    (good : List Char → Prop) {values values' : List α} {rest rest' : List Char}
    (hreads : ∀ a ∈ values, ∀ a' ∈ values', ∀ tail tail', good tail → good tail' →
      piece a ++ tail = piece a' ++ tail' → shown a = shown a' ∧ tail = tail')
    (hgood : ∀ a ∈ values, ∀ tail, good tail → good (piece a ++ tail))
    (hgood' : ∀ a ∈ values', ∀ tail, good tail → good (piece a ++ tail))
    (hend : ∀ a ∈ values', ∀ tail, rest ≠ piece a ++ tail)
    (hend' : ∀ a ∈ values, ∀ tail, rest' ≠ piece a ++ tail) (hrest : good rest)
    (hrest' : good rest')
    (h : values.flatMap piece ++ rest = values'.flatMap piece ++ rest') :
    values.map shown = values'.map shown ∧ rest = rest' := by
  have hflat : ∀ {values : List α} {rest : List Char},
      (∀ a ∈ values, ∀ tail, good tail → good (piece a ++ tail)) → good rest →
        good (values.flatMap piece ++ rest) := by
    intro values rest hgood hrest
    induction values with
    | nil => exact hrest
    | cons a values ih =>
      rw [List.forall_mem_cons] at hgood
      rw [List.flatMap_cons, List.append_assoc]
      exact hgood.1 _ (ih hgood.2)
  induction values generalizing values' with
  | nil =>
    cases values' with
    | nil => exact ⟨rfl, h⟩
    | cons a' values' =>
      rw [List.flatMap_nil, List.nil_append, List.flatMap_cons, List.append_assoc] at h
      exact absurd h (hend a' List.mem_cons_self _)
  | cons a values ih =>
    rw [List.forall_mem_cons] at hreads hgood hend'
    cases values' with
    | nil =>
      rw [List.flatMap_nil, List.nil_append, List.flatMap_cons, List.append_assoc] at h
      exact absurd h.symm (hend'.1 _)
    | cons a' values' =>
      rw [List.forall_mem_cons] at hgood' hend
      rw [List.flatMap_cons, List.flatMap_cons, List.append_assoc, List.append_assoc] at h
      obtain ⟨hfirst, h⟩ := hreads.1 a' List.mem_cons_self _ _ (hflat hgood.2 hrest)
        (hflat hgood'.2 hrest') h
      obtain ⟨hlater, h⟩ := ih (fun b hb b' hb' => hreads.2 b hb b' (List.mem_cons_of_mem a' hb'))
        hgood.2 hgood'.2 hend.2 hend'.2 h
      exact ⟨by rw [List.map_cons, List.map_cons, hfirst, hlater], h⟩

section Separated

variable {α β : Type} {piece : α → List Char} {shown : α → β} {separator : List Char}
  {values values' : List α} {rest rest' : List Char}

/-- Pieces with a separator in front of each are told from what stands behind, if that is no
separator. -/
theorem append_cancel_behind (good : List Char → Prop)
    (hreads : ∀ a ∈ values, ∀ a' ∈ values', ∀ tail tail', good tail → good tail' →
      piece a ++ tail = piece a' ++ tail' → shown a = shown a' ∧ tail = tail')
    (hgood : ∀ tail, good (separator ++ tail)) (hend : ∀ tail, rest ≠ separator ++ tail)
    (hend' : ∀ tail, rest' ≠ separator ++ tail) (hrest : good rest) (hrest' : good rest')
    (h : Text.behind separator (values.map piece) ++ rest =
      Text.behind separator (values'.map piece) ++ rest') :
    values.map shown = values'.map shown ∧ rest = rest' := by
  simp only [Text.behind, List.flatMap_map] at h
  have hfront : ∀ (a : α) (tail : List Char),
      separator ++ piece a ++ tail = separator ++ (piece a ++ tail) :=
    fun a tail => List.append_assoc separator (piece a) tail
  refine append_cancel_flatMap good (fun a ha a' ha' tail tail' htail htail' heq => ?_)
    (fun a _ tail _ => hfront a tail ▸ hgood _) (fun a _ tail _ => hfront a tail ▸ hgood _)
    (fun a _ tail => hfront a tail ▸ hend _) (fun a _ tail => hfront a tail ▸ hend' _) hrest
      hrest' h
  rw [hfront, hfront, List.append_cancel_left_eq] at heq
  exact hreads a ha a' ha' tail tail' htail htail' heq

/-- The same of pieces with a separator between them, if moreover what stands behind begins like no
piece. -/
theorem append_cancel_joined (good : List Char → Prop)
    (hreads : ∀ a ∈ values, ∀ a' ∈ values', ∀ tail tail', good tail → good tail' →
      piece a ++ tail = piece a' ++ tail' → shown a = shown a' ∧ tail = tail')
    (hgood : ∀ tail, good (separator ++ tail)) (hend : ∀ tail, rest ≠ separator ++ tail)
    (hend' : ∀ tail, rest' ≠ separator ++ tail)
    (hopen : ∀ a ∈ values', ∀ tail, rest ≠ piece a ++ tail)
    (hopen' : ∀ a ∈ values, ∀ tail, rest' ≠ piece a ++ tail) (hrest : good rest)
    (hrest' : good rest')
    (h : Text.joined separator (values.map piece) ++ rest =
      Text.joined separator (values'.map piece) ++ rest') :
    values.map shown = values'.map shown ∧ rest = rest' := by
  cases values with
  | nil =>
    cases values' with
    | nil => exact ⟨rfl, h⟩
    | cons a' values' =>
      simp only [List.map_nil, Text.joined_nil, List.nil_append, List.map_cons, Text.joined_cons,
        List.append_assoc] at h
      exact absurd h (hopen a' List.mem_cons_self _)
  | cons a values =>
    cases values' with
    | nil =>
      simp only [List.map_nil, Text.joined_nil, List.nil_append, List.map_cons, Text.joined_cons,
        List.append_assoc] at h
      exact absurd h.symm (hopen' a List.mem_cons_self _)
    | cons a' values' =>
      apply append_cancel_behind good hreads hgood hend hend' hrest hrest'
      simpa using h

end Separated

/-! ## Words and names -/

section Words

variable {rest rest' : List Char} {id id' : Identifier}

/-- Two runs of one kind that end where the kind does are told from what stands behind. -/
theorem append_cancel_runs {α : Type} {p : α → Bool} {run run' rest rest' : List α}
    (hrun : ∀ a ∈ run, p a = true) (hrun' : ∀ a ∈ run', p a = true)
    (hrest : ∀ a ∈ rest.head?, p a = false) (hrest' : ∀ a ∈ rest'.head?, p a = false)
    (h : run ++ rest = run' ++ rest') : run = run' ∧ rest = rest' := by
  have hfront : run = run' := by
    rw [← takeWhile_append_of_head hrun hrest, h, takeWhile_append_of_head hrun' hrest']
  subst hfront
  exact ⟨rfl, List.append_cancel_left h⟩

/-- The name can be read from a token. -/
def Identifier.Named (id : Identifier) : Prop :=
  Nameable id.name

/-- A name that obeys the law can be read from a token. -/
theorem Identifier.named_of_law (h : (wellFormed Token.Spelled).name id) : id.Named := by
  obtain ⟨hspelled, hkind, hname⟩ := h
  rw [Identifier.Named, ← hname]
  exact hspelled.named hkind

/-- A name starts on a letter and goes on with what can be part of a name. -/
theorem Identifier.Named.exists_text (h : id.Named) :
    ∃ c run, id.text = c :: run ∧ isWordStart c = true ∧ ∀ d ∈ id.text, isWordPart d = true := by
  obtain ⟨c, run, htext, hstart, hrun⟩ := h.word
  refine ⟨c, run, htext, hstart, ?_⟩
  rw [Identifier.text, htext, List.forall_mem_cons]
  exact ⟨isWordPart_iff.2 (.inl hstart), hrun⟩

/-- A name is told from what stands behind it. -/
theorem Identifier.append_cancel (hid : id.Named) (hid' : id'.Named)
    (hrest : ∀ c ∈ rest.head?, isWordPart c = false)
    (hrest' : ∀ c ∈ rest'.head?, isWordPart c = false) (h : id.text ++ rest = id'.text ++ rest') :
    id.name = id'.name ∧ rest = rest' := by
  obtain ⟨_, _, _, _, hword⟩ := hid.exists_text
  obtain ⟨_, _, _, _, hword'⟩ := hid'.exists_text
  obtain ⟨htext, hrest⟩ := append_cancel_runs hword hword' hrest hrest' h
  exact ⟨String.toList_inj.1 htext, hrest⟩

/-- Behind a space no name stands where an expression ends. -/
theorem Ends.not_named {place : Place} (h : Ends place (' ' :: (id.text ++ rest))) (hid : id.Named)
    (hrest : ∀ c ∈ rest.head?, isWordPart c = false) : False := by
  obtain ⟨c, run, htext, hstart, hword⟩ := hid.exists_text
  have hreserved : ∀ word ∈ ["in", "if"], word.toList ++ [' '] <+: id.text ++ rest → False := by
    intro word hmem hfront
    obtain ⟨tail, htail⟩ := hfront
    have hall : ∀ word ∈ ["in", "if"], word.toList.all isWordPart = true ∧
        ¬ (Kind.ofWord? word = none ∨ word = "import") := by decide
    rw [List.append_assoc] at htail
    obtain ⟨hsame, -⟩ := append_cancel_runs (List.all_eq_true.1 (hall word hmem).1) hword
      (by simp; decide) hrest htail
    rw [String.toList_inj.1 hsame] at hmem
    exact (hall _ hmem).2 hid.free
  rcases h.space _ rfl with hnone | hin | hif
  · have := hnone c (by simp [htext])
    rw [isWordPart_iff.2 (.inl hstart)] at this
    cases this
  · exact hreserved "in" (by simp) hin
  · exact hreserved "if" (by simp) hif

/-- Behind an item of a list there is no more of a word. -/
theorem not_word_behind (hrest : ∀ c ∈ rest.head?, isWordPart c = false)
    (texts : List (List Char)) :
    ∀ c ∈ (Text.behind [',', ' '] texts ++ rest).head?, isWordPart c = false := by
  cases texts with
  | nil => simpa using hrest
  | cons first texts =>
    simp
    decide

/-- Names with commas between them are told from what stands behind, if that is no comma. -/
theorem append_cancel_names {names names' : List Identifier} (hnames : ∀ id ∈ names, id.Named)
    (hnames' : ∀ id ∈ names', id.Named) (hrest : Ends .whole rest) (hrest' : Ends .whole rest')
    (h : commas (names.map Identifier.text) ++ rest = commas (names'.map Identifier.text) ++
      rest') :
    names.map Identifier.name = names'.map Identifier.name ∧ rest = rest' := by
  have hend : ∀ {rest : List Char}, Ends .whole rest → ∀ tail, rest ≠ [',', ' '] ++ tail := by
    rintro _ hrest tail rfl
    exact hrest.comma rfl rfl
  have hopen : ∀ {rest : List Char} {id : Identifier}, Ends .whole rest → id.Named →
      ∀ tail, rest ≠ id.text ++ tail := by
    rintro _ id hrest hid tail rfl
    obtain ⟨c, run, htext, hstart, -⟩ := hid.exists_text
    have := hrest.word c (by simp [htext])
    rw [isWordPart_iff.2 (.inl hstart)] at this
    cases this
  refine append_cancel_joined (fun rest => ∀ c ∈ rest.head?, isWordPart c = false)
    (fun id hid id' hid' tail tail' htail htail' => ?_) (fun tail => by simp; decide) (hend hrest)
    (hend hrest') (fun id hid => hopen hrest (hnames' id hid))
    (fun id hid => hopen hrest' (hnames id hid)) hrest.word hrest'.word h
  exact Identifier.append_cancel (hnames id hid) (hnames' id' hid') htail htail'

end Words

/-! ## What a text begins with -/

/-- What the first word or character of a text says about what it is the text of. -/
inductive Family where
  -- names and literals; an import begins like a name
  | name | number | string | boolean | null | receiver
  -- brackets; a block begins like a dict
  | array | braces | group | spread
  -- what can only stand behind the parenthesis of an operator
  | sign | await | bracket
  -- words that begin an expression
  | conditional | whileLoop | forLoop | repeatLoop | switch | matching | function | channel
  | package
  -- words that begin a statement
  | declaration | returning | breaking | continuing | including | enumeration | declarative | go
  -- members and calls, which begin like their heads
  | linked
deriving DecidableEq, Repr

/-- The first words and characters that say what follows. -/
def families : List (List Char × Family) :=
  [("\x22", .string), ("true", .boolean), ("false", .boolean), ("null", .null), ("@", .receiver),
   ("[", .array), ("\x7b", .braces), ("(", .group), (".", .spread),
   ("!", .sign), ("-", .sign), ("+", .sign), ("&", .sign), ("*", .sign), ("await", .await),
   ("]", .bracket),
   ("if", .conditional), ("while", .whileLoop), ("for", .forLoop), ("repeat", .repeatLoop),
   ("switch", .switch), ("match", .matching), ("func", .function), ("async", .function),
   ("chan", .channel), ("package", .package),
   ("let", .declaration), ("const", .declaration), ("return", .returning), ("break", .breaking),
   ("continue", .continuing), ("include", .including), ("enum", .enumeration),
   ("defer", .declarative), ("throw", .declarative), ("error", .declarative),
   ("todo", .declarative), ("warn", .declarative), ("info", .declarative),
   ("debug", .declarative), ("note", .declarative), ("success", .declarative),
   ("trace", .declarative), ("fatal", .declarative), ("critical", .declarative),
   ("log", .declarative), ("go", .go)].map fun entry => (entry.1.toList, entry.2)

/-- The first word of a text, or its first character where no word stands. -/
def lead (text : List Char) : List Char :=
  if text.head?.any isWordPart then text.takeWhile isWordPart else text.take 1

/-- What a text begins with. -/
def family (text : List Char) : Family :=
  (families.lookup (lead text)).getD
    (if (lead text).head?.any Char.isDigit then .number else .name)

section Family

variable {word rest : List Char} {id : Identifier}

/-- The first word of a text is the one that it begins with. -/
theorem lead_word (hword : ∀ c ∈ word, isWordPart c = true) (hne : word ≠ [])
    (hrest : ∀ c ∈ rest.head?, isWordPart c = false) : lead (word ++ rest) = word := by
  rw [lead, if_pos, takeWhile_append_of_head hword hrest]
  obtain ⟨c, word, rfl⟩ := List.exists_cons_of_ne_nil hne
  exact hword c List.mem_cons_self

/-- What stands behind a word does not matter. -/
theorem family_append {w : List Char} (hall : w.all isWordPart = true) (hne : w ≠ [])
    (hrest : ∀ c ∈ rest.head?, isWordPart c = false) : family (w ++ rest) = family w := by
  have hword := List.all_eq_true.1 hall
  have hself : lead w = w := by
    have hnil : lead (w ++ []) = w := lead_word hword hne (by simp)
    rwa [List.append_nil] at hnil
  rw [family, family, lead_word hword hne hrest, hself]

/-- What stands behind a character that is no part of a word does not matter. -/
theorem family_cons {c : Char} (h : isWordPart c = false) : family (c :: rest) = family [c] := by
  have hlead : ∀ rest : List Char, lead (c :: rest) = [c] := fun rest => if_neg (by simpa using h)
  rw [family, family, hlead, hlead]

/-- A name belongs to the names, unless it is a word that says more. -/
theorem family_of_name (hid : id.Named) (hrest : ∀ c ∈ rest.head?, isWordPart c = false) :
    family (id.text ++ rest) = .name := by
  obtain ⟨c, run, htext, hstart, hword⟩ := hid.exists_text
  have hdigit := isDigit_of_isWordStart hstart
  have hall : ∀ entry ∈ families, entry.1.head?.any isWordStart = false ∨
      ¬ (Kind.ofWord? (String.ofList entry.1) = none ∨ String.ofList entry.1 = "import") := by
    decide +kernel
  rw [family, lead_word hword (by simp [htext]) hrest]
  cases hlookup : families.lookup id.text with
  | none => simp [htext, hdigit]
  | some found =>
    obtain ⟨before, behind, hsplit, -⟩ := List.lookup_eq_some_iff.1 hlookup
    rcases hall (id.text, found) (by simp [hsplit]) with hnone | hreserved
    · simp [htext, hstart] at hnone
    · rw [Identifier.text, String.ofList_toList] at hreserved
      exact absurd hid.free hreserved

/-- What begins with a digit belongs to the numbers. -/
theorem family_of_digits {c : Char} {run : List Char} (hc : c.isDigit = true)
    (hrun : ∀ d ∈ run, isWordPart d = true) (hrest : ∀ c ∈ rest.head?, isWordPart c = false) :
    family (c :: run ++ rest) = .number := by
  have hall : ∀ entry ∈ families, entry.1.head?.any Char.isDigit = false := by decide +kernel
  have hlead : lead (c :: run ++ rest) = c :: run :=
    lead_word (by simpa using ⟨isWordPart_of_digit hc, hrun⟩) (by simp) hrest
  rw [family, hlead]
  cases hlookup : families.lookup (c :: run) with
  | none => simp [hc]
  | some found =>
    obtain ⟨before, behind, hsplit, -⟩ := List.lookup_eq_some_iff.1 hlookup
    have := hall (c :: run, found) (by simp [hsplit])
    rw [List.head?_cons, Option.any_some, hc] at this
    cases this

end Family

end ScriptFront
