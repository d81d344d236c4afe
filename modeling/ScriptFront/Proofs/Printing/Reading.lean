import ScriptFront.Proofs.Printing.Follow
import ScriptFront.Proofs.Printing.Shown

/-!
# Reading printed forms

A printed form with something behind it can be read in one way only. `Expr.Reads` says so of one
expression, against every other that a parser can build; it is shown of all expressions from the
inside out. Expressions are read as their heads and what goes on behind:

* `Expr.Lawful` — the expression is one that a parser builds from the tokens of a text.
* `Expr.Reads`, `Expr.HeadReads`, `Link.Reads` — the text of an expression, a head or a link is told
  from what stands behind it, and shows all of the tree.
* `Expr.family_text` — what a head is can be seen from what its text begins with.
* `Expr.reads_of_head_links` — an expression is read if its head is and what goes on behind.
-/

namespace ScriptFront

open Lexeme

/-- The law of the trees that are built from the tokens of a text. -/
abbrev spelledLaw : Law :=
  wellFormed Token.Spelled

/-- The expression can stand somewhere in a tree that is built from the tokens of a text. -/
def Expr.Lawful (e : Expr) : Prop :=
  ∃ site, e.Obeys spelledLaw site

/-- What goes on behind an expression can be built from the tokens of a text. -/
def Link.Lawful : Link → Prop
  | .member name => spelledLaw.name name
  | .arguments values => ∀ e ∈ values, e.Obeys spelledLaw .operand

/-! ## Lawful parts -/

namespace Expr

variable {e : Expr} {l : Link} {token : Token}

/-- What obeys the law somewhere is lawful. -/
theorem Obeys.lawful {site : Site} (h : e.Obeys spelledLaw site) : e.Lawful :=
  ⟨site, h⟩

/-- Each of some expressions that obey the law is lawful. -/
theorem lawful_of_mem {site : Site} {es : List Expr} (h : Expr.ObeysEach spelledLaw site es) :
    ∀ e ∈ es, e.Lawful :=
  fun e he => (obeysEach_iff.1 h e he).lawful

/-- The head of a lawful expression is lawful. -/
theorem Lawful.head (h : e.Lawful) : e.head.Lawful := by
  obtain ⟨site, h⟩ := h
  fun_induction Expr.head e generalizing site with
  | case1 _ _ _ ih => exact ih _ h.2.1
  | case2 _ _ _ ih => exact ih _ h.2.1
  | case3 _ _ _ _ ih => exact ih _ h.2.1
  | case4 => exact ⟨.operand, trivial, trivial⟩
  | case5 => exact ⟨site, h⟩

/-- What goes on behind the head of a lawful expression is lawful. -/
theorem Lawful.links (h : e.Lawful) : ∀ l ∈ e.links, l.Lawful := by
  obtain ⟨site, h⟩ := h
  fun_induction Expr.links e generalizing site with
  | case1 token callee values ih =>
    rw [List.forall_mem_append, List.forall_mem_singleton]
    exact ⟨ih _ h.2.1, obeysEach_iff.1 h.2.2⟩
  | case2 token object name ih =>
    rw [List.forall_mem_append, List.forall_mem_singleton]
    exact ⟨ih _ h.2.1, h.2.2⟩
  | case3 token object name values ih =>
    rw [List.forall_mem_append, List.forall_mem_cons, List.forall_mem_singleton]
    exact ⟨ih _ h.2.1, h.2.2.1, obeysEach_iff.1 h.2.2.2⟩
  | case4 token size =>
    rw [List.forall_mem_singleton]
    exact List.forall_mem_singleton.2 h.2
  | case5 => simp

/-- A lawful link behind an expression that obeys the law keeps it to the law. -/
theorem Obeys.link (h : e.Obeys spelledLaw .operand) (hl : l.Lawful) :
    (e.link l).Obeys spelledLaw .operand := by
  cases l with
  | member name => exact ⟨trivial, h, hl⟩
  | arguments values =>
    have hvalues := obeysEach_iff.2 hl
    simp only [Expr.link]
    fun_cases applied values e with
    | case1 dot object name => exact ⟨trivial, h.2.1, h.2.2, hvalues⟩
    | case2 word size => exact ⟨trivial, hl size (by simp)⟩
    | case3 | case4 => exact ⟨trivial, h, hvalues⟩

/-- Lawful links behind an expression that obeys the law keep it to the law. -/
theorem Obeys.foldl_link {ls : List Link} (h : e.Obeys spelledLaw .operand)
    (hls : ∀ l ∈ ls, l.Lawful) : (ls.foldl Expr.link e).Obeys spelledLaw .operand := by
  induction ls generalizing e with
  | nil => exact h
  | cons l ls ih =>
    rw [List.forall_mem_cons] at hls
    exact ih (h.link hls.1) hls.2

/-! ## Items -/

/-- If the expression is an import, with all that goes on behind it, then of one name. -/
def IsItem (e : Expr) : Prop :=
  ∀ token names, e.head = .importing token names → ∃ name, names = [name]

/-- The expression can be read at the place: in a list, only if it is an item. -/
def Fits (place : Place) (e : Expr) : Prop :=
  place = .item → e.IsItem

/-- Outside lists, every expression can be read. -/
theorem fits_whole : e.Fits .whole := nofun

/-- An expression with a head that is no import is an item. -/
theorem isItem_of_not_isImport (h : e.head.isImport = false) : e.IsItem := by
  intro token names heq
  simp [heq, isImport] at h

/-- An item can be read anywhere. -/
theorem IsItem.fits {place : Place} (h : e.IsItem) : e.Fits place :=
  fun _ => h

/-- An item behind the first name of an import is one of the names, with what goes on or without. -/
theorem mem_itemsBehind {ls : List Link} {name : Identifier} {rest : List Identifier} {i : Expr}
    (h : i ∈ itemsBehind ls name rest) :
    ∃ id ∈ name :: rest, ∃ ls' ⊆ ls, i = ls'.foldl Expr.link (.identifier id) := by
  induction rest generalizing name with
  | nil =>
    rw [itemsBehind, List.mem_singleton] at h
    exact ⟨name, by simp, ls, List.Subset.refl ls, h⟩
  | cons next rest ih =>
    rcases List.mem_cons.1 h with rfl | h
    · exact ⟨name, by simp, [], by simp, rfl⟩
    · obtain ⟨id, hid, found⟩ := ih h
      exact ⟨id, List.mem_cons_of_mem name hid, found⟩

/-- A name with anything that goes on behind it is an item. -/
theorem isItem_foldl_identifier (ls : List Link) (id : Identifier) :
    (ls.foldl Expr.link (identifier id)).IsItem := by
  apply isItem_of_not_isImport
  rw [head_foldl_link]
  rfl

/-- An item is the expression itself, or the import of its first name, or another of its names with
what goes on behind. -/
theorem Lawful.mem_items {i : Expr} (h : e.Lawful) (hi : i ∈ e.items) :
    (i = e ∧ e.IsItem) ∨
      ∃ token first rest, e.head = .importing token (first :: rest) ∧
        (i = .importing token [first] ∨
          ∃ id ∈ rest, ∃ ls ⊆ e.links, i = ls.foldl Expr.link (.identifier id)) := by
  rcases items_eq e with ⟨hnot, hitems⟩ | ⟨token, first, next, rest, himport, hitems⟩
  · rw [hitems, List.mem_singleton] at hi
    refine .inl ⟨hi, fun token names himport => ?_⟩
    match names with
    | [] =>
      obtain ⟨site, hsite⟩ := himport ▸ h.head
      exact absurd rfl hsite.1.1
    | [name] => exact ⟨name, rfl⟩
    | first :: next :: rest => exact absurd himport (hnot token first next rest)
  · rw [hitems] at hi
    exact .inr ⟨token, first, next :: rest, himport, (List.mem_cons.1 hi).imp_right mem_itemsBehind⟩

/-- A name that obeys the law does so anywhere. -/
theorem lawful_identifier {id : Identifier} (h : spelledLaw.name id) (site : Site) :
    (identifier id).Obeys spelledLaw site :=
  ⟨trivial, h⟩

/-- An import of one name that obeys the law obeys it. -/
theorem lawful_import {id : Identifier} (h : spelledLaw.name id) :
    (importing token [id]).Obeys spelledLaw .operand :=
  ⟨⟨by simp, by simp⟩, by simpa using h⟩

/-- The items of an expression can be built like it, and are items. -/
theorem Lawful.items (h : e.Lawful) : ∀ i ∈ e.items, i.Lawful ∧ i.IsItem := by
  intro i hi
  rcases h.mem_items hi with ⟨rfl, hitem⟩ | ⟨token, first, rest, hhead, hfound⟩
  · exact ⟨h, hitem⟩
  · obtain ⟨site, hsite⟩ := hhead ▸ h.head
    have hnames := hsite.2
    rw [List.forall_mem_cons] at hnames
    rcases hfound with rfl | ⟨id, hid, ls, hls, rfl⟩
    · refine ⟨(lawful_import hnames.1).lawful, fun token' names' heq => ⟨first, ?_⟩⟩
      exact (Expr.importing.inj heq).2.symm
    · refine ⟨(Obeys.foldl_link (lawful_identifier (hnames.2 id hid) .operand) ?_).lawful,
        isItem_foldl_identifier ls id⟩
      exact fun l hl => h.links l (hls hl)

/-! ## What a text begins with -/

/-- What the text of a head begins with. -/
def family : Expr → Family
  | .identifier _ | .importing _ _ => .name
  | .integer _ _ | .float _ _ => .number
  | .string _ _ => .string
  | .boolean _ _ => .boolean
  | .null _ => .null
  | .receiver _ => .receiver
  | .array _ _ | .arrayPattern _ _ _ => .array
  | .dict _ _ => .braces
  | .spread _ _ => .spread
  | .unary _ _ _ | .binary _ _ _ _ | .step _ _ | .range _ _ _ | .assign _ _ _
  | .compoundAssign _ _ _ _ | .indexAssign _ _ _ _ | .propertyAssign _ _ _ _ _ _ | .index _ _ _
  | .slice _ _ _ _ | .await _ _ => .group
  | .conditional _ _ _ _ => .conditional
  | .whileLoop _ _ _ => .whileLoop
  | .forLoop _ _ _ _ _ => .forLoop
  | .repeatLoop _ _ _ _ => .repeatLoop
  | .switch _ _ _ => .switch
  | .matching _ _ _ => .matching
  | .function _ _ _ _ _ _ => .function
  | .channel _ _ => .channel
  | .package _ _ _ => .package
  | .call _ _ _ | .property _ _ _ | .method _ _ _ _ => .linked

/-- What a head is can be seen from what its text begins with. -/
theorem family_text {rest : List Char} (h : e.Lawful) (hhead : e.isHead = true)
    (hrest : ∀ c ∈ rest.head?, isWordPart c = false) :
    ScriptFront.family (e.text ++ rest) = e.family := by
  obtain ⟨site, h⟩ := h
  cases e with
  | identifier id => exact family_of_name (Identifier.named_of_law h.2) hrest
  | integer token value =>
    obtain ⟨c, run, htext, hc, hrun⟩ := h.1.integer_text h.2.1
    rw [text_integer, htext]
    exact family_of_digits hc hrun hrest
  | float token value =>
    obtain ⟨whole, part, htext, hne, -, hwhole, -⟩ := h.1.float_text h.2.1
    obtain ⟨c, run, rfl⟩ := List.exists_cons_of_ne_nil hne
    rw [List.forall_mem_cons] at hwhole
    rw [text_float, htext, List.append_assoc]
    refine family_of_digits hwhole.1 (fun d hd => isWordPart_of_digit (hwhole.2 d hd)) ?_
    simp
    decide
  | string => rw [text_string]; rfl
  | boolean token value =>
    cases value with
    | true => exact family_append (w := "true".toList) (by decide) (by decide) hrest
    | false => exact family_append (w := "false".toList) (by decide) (by decide) hrest
  | null => exact family_append (w := "null".toList) (by decide) (by decide) hrest
  | channel token size =>
    cases size with
    | none => exact family_append (w := "chan".toList) (by decide) (by decide) hrest
    | some size => cases hhead
  | call | property | method => cases hhead
  | conditional token condition consequence alternative =>
    cases alternative with
    | none => rw [text_conditional]; rfl
    | some => rw [text_conditional_else]; rfl
  | function async token name =>
    rw [text_function]
    cases async with
    | true => rfl
    | false => cases name <;> rfl
  | _ => simp; rfl

/-- An expression begins with the character. -/
def opensExpr (c : Char) : Bool :=
  isWordPart c || c ∈ ['\x22', '@', '[', '\x7b', '(', '.']

/-- A head begins with a character that opens an expression. -/
theorem Lawful.exists_opening_of_isHead (h : e.Lawful) (hhead : e.isHead = true) :
    ∃ c rest, e.text = c :: rest ∧ opensExpr c = true := by
  obtain ⟨site, h⟩ := h
  cases e with
  | identifier id =>
    obtain ⟨c, run, htext, hstart, -⟩ := (Identifier.named_of_law h.2).exists_text
    exact ⟨c, run, htext, by simp [opensExpr, isWordPart_iff.2 (.inl hstart)]⟩
  | integer token value =>
    obtain ⟨c, run, htext, hc, -⟩ := h.1.integer_text h.2.1
    exact ⟨c, run, htext, by simp [opensExpr, isWordPart_of_digit hc]⟩
  | float token value =>
    obtain ⟨whole, part, htext, hne, -, hwhole, -⟩ := h.1.float_text h.2.1
    obtain ⟨c, run, rfl⟩ := List.exists_cons_of_ne_nil hne
    exact ⟨c, _, htext, by simp [opensExpr, isWordPart_of_digit (hwhole c List.mem_cons_self)]⟩
  | boolean token value =>
    cases value with
    | true => exact ⟨_, _, text_true token, by decide⟩
    | false => exact ⟨_, _, text_false token, by decide⟩
  | string => exact ⟨_, _, text_string _ _, by decide⟩
  | null token => exact ⟨_, _, text_null token, by decide⟩
  | channel token size =>
    cases size with
    | none => exact ⟨_, _, text_channel token, by decide⟩
    | some size => cases hhead
  | call | property | method => cases hhead
  | conditional token condition consequence alternative =>
    cases alternative with
    | none => exact ⟨_, _, text_conditional .., by decide⟩
    | some => exact ⟨_, _, text_conditional_else .., by decide⟩
  | function async =>
    rw [text_function]
    cases async <;> exact ⟨_, _, rfl, by decide⟩
  | _ => simp; decide

/-- An expression begins with a character that opens one. -/
theorem Lawful.exists_opening (h : e.Lawful) : ∃ c rest, e.text = c :: rest ∧ opensExpr c =
    true := by
  obtain ⟨c, rest, htext, hc⟩ := h.head.exists_opening_of_isHead e.isHead_head
  exact ⟨c, rest ++ e.links.flatMap Link.text, by rw [text_eq_head_links, htext]; rfl, hc⟩

end Expr

/-! ## Being read -/

/-- The text of the expression is told from what stands behind it, and shows all of the tree: where
the text of any other expression is the same, with what stands behind that, both are. -/
def Expr.Reads (e : Expr) : Prop :=
  ∀ ⦃place : Place⦄ ⦃e' : Expr⦄ ⦃rest rest' : List Char⦄, e.Fits place → e'.Lawful → e'.Fits place →
    Follow place rest → Follow place rest' → e.text ++ rest = e'.text ++ rest' →
      e.shown = e'.shown ∧ rest = rest'

/-- An expression with no comma behind it. -/
theorem Expr.Reads.whole {e e' : Expr} {rest rest' : List Char} (h : e.Reads) (h' : e'.Lawful)
    (hrest : Follow .whole rest) (hrest' : Follow .whole rest')
    (heq : e.text ++ rest = e'.text ++ rest') : e.shown = e'.shown ∧ rest = rest' :=
  h fits_whole h' fits_whole hrest hrest' heq

/-- The same of a head, behind which more may go on. -/
def Expr.HeadReads (e : Expr) : Prop :=
  ∀ ⦃place : Place⦄ ⦃e' : Expr⦄ ⦃rest rest' : List Char⦄, e.Fits place → e'.Lawful →
    e'.isHead = true → e'.Fits place → Ends place rest → Ends place rest' →
      e.text ++ rest = e'.text ++ rest' → e.shown = e'.shown ∧ rest = rest'

/-- The same of what goes on behind a head. -/
def Link.Reads (l : Link) : Prop :=
  ∀ ⦃l' : Link⦄ ⦃rest rest' : List Char⦄, l'.Lawful → (∀ c ∈ rest.head?, isWordPart c = false) →
    (∀ c ∈ rest'.head?, isWordPart c = false) → l.text ++ rest = l'.text ++ rest' →
      l.shown = l'.shown ∧ rest = rest'

section Links

variable {place : Place} {rest rest' : List Char} {l : Link} {ls ls' : List Link} {e : Expr}

/-- What goes on behind a head ends it. -/
theorem Link.Lawful.ends (h : l.Lawful) (tail : List Char) : Ends place (l.text ++ tail) := by
  cases l with
  | arguments values => exact ends_paren
  | member name =>
    obtain ⟨c, run, htext, hstart, -⟩ := (Identifier.named_of_law h).exists_text
    rw [Link.text, htext]
    exact ends_member hstart

/-- The links of an expression, and what stands behind it, end its head. -/
theorem Follow.ends_links (h : Follow place rest) (hls : ∀ l ∈ ls, l.Lawful) :
    Ends place (ls.flatMap Link.text ++ rest) := by
  cases ls with
  | nil => exact h.toEnds
  | cons l ls =>
    rw [List.flatMap_cons, List.append_assoc]
    exact (hls l List.mem_cons_self).ends _

/-- Where an expression ends, nothing goes on. -/
theorem Follow.ne_link (h : Follow place rest) (hl : l.Lawful) (tail : List Char) :
    rest ≠ l.text ++ tail := by
  rintro rfl
  cases l with
  | arguments values => exact h.paren rfl
  | member name =>
    obtain ⟨c, run, htext, hstart, -⟩ := (Identifier.named_of_law hl).exists_text
    have hpoint := h.point_point (name.text ++ tail) rfl
    rw [htext, List.cons_append, List.head?_cons, Option.some.injEq] at hpoint
    rw [hpoint] at hstart
    exact absurd hstart (by decide)

/-- What goes on behind a head is read link by link. -/
theorem append_cancel_links (hreads : ∀ l ∈ ls, l.Reads) (hls : ∀ l ∈ ls, l.Lawful)
    (hls' : ∀ l ∈ ls', l.Lawful) (hrest : Follow place rest) (hrest' : Follow place rest')
    (h : ls.flatMap Link.text ++ rest = ls'.flatMap Link.text ++ rest') :
    ls.map Link.shown = ls'.map Link.shown ∧ rest = rest' :=
  append_cancel_flatMap (Ends place)
    (fun l hl l' hl' _ _ htail htail' heq => hreads l hl (hls' l' hl') htail.word htail'.word heq)
    (fun l hl tail _ => (hls l hl).ends tail) (fun l hl tail _ => (hls' l hl).ends tail)
    (fun l hl => hrest.ne_link (hls' l hl)) (fun l hl => hrest'.ne_link (hls l hl)) hrest.toEnds
    hrest'.toEnds h

/-- Where an expression can be read, its head can. -/
theorem Expr.fits_head (h : e.Fits place) : e.head.Fits place := by
  intro hplace token names heq
  rw [head_head] at heq
  exact h hplace token names heq

/-- An expression is read if its head is, and what goes on behind. -/
theorem Expr.reads_of_head_links (h : e.Lawful) (hhead : e.head.HeadReads)
    (hlinks : ∀ l ∈ e.links, l.Reads) : e.Reads := by
  intro place e' rest rest' hfits h' hfits' hrest hrest' heq
  rw [text_eq_head_links e, text_eq_head_links e', List.append_assoc, List.append_assoc] at heq
  obtain ⟨hshown, heq⟩ := hhead (fits_head hfits) h'.head e'.isHead_head (fits_head hfits')
    (hrest.ends_links h.links) (hrest'.ends_links h'.links) heq
  obtain ⟨hls, heq⟩ := append_cancel_links hlinks h.links h'.links hrest hrest' heq
  refine ⟨?_, heq⟩
  rw [shown_eq_head_links e, shown_eq_head_links e', hshown, hls]

end Links

/-! ## Names and imports -/

namespace Expr

variable {place : Place} {rest rest' : List Char} {e e' : Expr} {id : Identifier} {token : Token}
  {names : List Identifier}

/-- Heads with the same text begin alike. -/
theorem family_eq (h : e.Lawful) (hhead : e.isHead = true) (h' : e'.Lawful)
    (hhead' : e'.isHead = true) (hrest : Ends place rest) (hrest' : Ends place rest')
    (heq : e.text ++ rest = e'.text ++ rest') : e.family = e'.family := by
  rw [← family_text h hhead hrest.word, heq, family_text h' hhead' hrest'.word]

/-- The names of an import can be read from tokens, and there is one at least. -/
theorem named_of_import (h : (importing token names).Lawful) :
    names ≠ [] ∧ ∀ id ∈ names, id.Named := by
  obtain ⟨site, h⟩ := h
  exact ⟨h.1.1, fun id hid => Identifier.named_of_law (h.2 id hid)⟩

/-- The word `import` as a name is told from an import by what stands behind it. -/
theorem identifier_ne_importing (hid : id.Named) (h : (importing token names).Lawful)
    (hrest : Ends place rest) (hrest' : ∀ c ∈ rest'.head?, isWordPart c = false) :
    id.text ++ rest ≠ (importing token names).text ++ rest' := by
  intro heq
  obtain ⟨hne, hnames⟩ := named_of_import h
  obtain ⟨first, others, rfl⟩ := List.exists_cons_of_ne_nil hne
  obtain ⟨_, _, _, _, hword⟩ := hid.exists_text
  have hspace : ∀ tail : List Char, ∀ c ∈ (' ' :: tail).head?, isWordPart c = false := by
    simp
    decide
  have hsplit : (importing token (first :: others)).text ++ rest' =
      "import".toList ++ ' ' :: (first.text ++
        (Text.behind [',', ' '] (others.map Identifier.text) ++ rest')) := by
    simp [commas]
  rw [hsplit] at heq
  obtain ⟨-, rfl⟩ := append_cancel_runs hword (List.all_eq_true.1 (by decide)) hrest.word (hspace _)
    heq
  exact hrest.not_named (hnames first List.mem_cons_self) (not_word_behind hrest' _)

/-- A name is read. -/
theorem headReads_identifier (h : (identifier id).Lawful) : (identifier id).HeadReads := by
  intro place e' rest rest' hfits h' hhead' hfits' hrest hrest' heq
  have hid : id.Named := Identifier.named_of_law h.choose_spec.2
  have hfamily := family_eq h rfl h' hhead' hrest hrest' heq
  cases e' <;> cases hfamily
  case identifier id' =>
    have hid' : id'.Named := Identifier.named_of_law h'.choose_spec.2
    obtain ⟨hname, heq⟩ := Identifier.append_cancel hid hid' hrest.word hrest'.word heq
    exact ⟨congrArg Expr.identifier (Identifier.erase_inj.2 hname), heq⟩
  case importing token names =>
    exact absurd heq (identifier_ne_importing hid h' hrest hrest'.word)

/-- An import is read. -/
theorem headReads_importing (h : (importing token names).Lawful) :
    (importing token names).HeadReads := by
  intro place e' rest rest' hfits h' hhead' hfits' hrest hrest' heq
  have hfamily := family_eq h rfl h' hhead' hrest hrest' heq
  cases e' <;> cases hfamily
  case identifier id' =>
    have hid' : id'.Named := Identifier.named_of_law h'.choose_spec.2
    exact absurd heq.symm (identifier_ne_importing hid' h hrest' hrest.word)
  case importing token' names' =>
    obtain ⟨-, hnames⟩ := named_of_import h
    obtain ⟨-, hnames'⟩ := named_of_import h'
    simp only [text_importing, List.append_assoc, List.append_cancel_left_eq] at heq
    have hsame : names.map Identifier.name = names'.map Identifier.name ∧ rest = rest' := by
      cases place with
      | whole => exact append_cancel_names hnames hnames' hrest hrest' heq
      | item =>
        -- in a list there is one name on either side, and the commas belong to the list
        obtain ⟨name, rfl⟩ := hfits rfl token names rfl
        obtain ⟨name', rfl⟩ := hfits' rfl token' names' rfl
        rw [List.forall_mem_singleton] at hnames hnames'
        obtain ⟨hname, heq⟩ := Identifier.append_cancel hnames hnames' hrest.word hrest'.word
          (by simpa [commas] using heq)
        exact ⟨congrArg (fun name => [name]) hname, heq⟩
    exact ⟨congrArg (Expr.importing default) (Identifier.map_erase_inj.2 hsame.1), hsame.2⟩

end Expr

/-! ## Readable expressions -/

/-- The expression can be built from the tokens of a text; and its head is read, and what goes on
behind. -/
structure Expr.Readable (e : Expr) : Prop where
  lawful : e.Lawful
  head : e.head.HeadReads
  links : ∀ l ∈ e.links, l.Reads

/-- A readable expression is read. -/
theorem Expr.Readable.reads {e : Expr} (h : e.Readable) : e.Reads :=
  reads_of_head_links h.lawful h.head h.links

/-- So are the items of a readable expression. -/
theorem Expr.Readable.items {e : Expr} (h : e.Readable) : ∀ i ∈ e.items, i.Readable := by
  intro i hi
  have hlawful := (h.lawful.items i hi).1
  rcases h.lawful.mem_items hi with ⟨rfl, -⟩ | ⟨token, first, rest, hhead, hfound⟩
  · exact h
  · rcases hfound with rfl | ⟨id, hid, ls, hls, rfl⟩
    · exact ⟨hlawful, headReads_importing hlawful, by simp [Expr.links]⟩
    · have hself : (ls.foldl Expr.link (identifier id)).head = identifier id :=
        head_foldl_link ls _
      have hname := hlawful.head
      rw [hself] at hname
      refine ⟨hlawful, ?_, fun l hl => ?_⟩
      · rw [hself]
        exact headReads_identifier hname
      · rw [links_foldl_link] at hl
        exact h.links l (hls hl)

end ScriptFront
