import ScriptFront.Proofs.Parser.Misses

/-!
# Array patterns

An array pattern lists items between brackets. An item is a rest element or a pattern, and a pattern
is a name, an integer within range, a string, or an array pattern in which nothing follows a rest
element.

* `PatternItem`, `PatternItem.Listed` — an item as it is written, and items with commas between
  them.
* `SpellsPattern` — the tokens of a pattern and its tree.
* `ArrayPatternText` — an array pattern as it is written, be it with items behind a rest element.
* `reads_items`, `missed_items` — what the loop over items makes of them.
* `SpellsPattern.reads` — a pattern is read as its tree, in any depth.
* `arrayPattern_rest_last` — which array patterns are read, and what becomes of the others.
-/

namespace ScriptFront

open ScriptFront.Parser

variable {p : Parser} {t u last opening closing : Token}
  {inner after : List Token}

/-! ## Array patterns as they are written -/

/-- An item of an array pattern as it is written. -/
inductive PatternItem where
  /-- `...name`. -/
  | rest (ellipsis name : Token) (hellipsis : ellipsis.kind = .ellipsis)
      (hname : name.kind = .identifier)
  /-- A pattern, with the tree that its tokens are to spell. -/
  | pattern (tokens : List Token) (tree : Expr)

namespace PatternItem

/-- The item is a rest element. -/
def isRest : PatternItem → Bool
  | rest _ _ _ _ => true
  | pattern _ _ => false

/-- The tokens of an item. -/
def tokens : PatternItem → List Token
  | rest ellipsis name _ _ => [ellipsis, name]
  | pattern tokens _ => tokens

/-- The tree of an item that is a pattern. -/
def tree? : PatternItem → Option Expr
  | rest _ _ _ _ => none
  | pattern _ tree => some tree

/-- The name of an item that is a rest element. -/
def name? : PatternItem → Option Identifier
  | rest _ name _ _ => some (.ofToken name)
  | pattern _ _ => none

/-- The tokens are those of the items in order, with a comma between two. -/
inductive Listed : List PatternItem → List Token → Prop
  | nil : Listed [] []
  | single (item : PatternItem) : Listed [item] item.tokens
  | cons (item : PatternItem) {next : PatternItem} {items : List PatternItem} {comma : Token}
      {tokens : List Token} (hcomma : comma.kind = .comma)
      (hlisted : Listed (next :: items) tokens) :
      Listed (item :: next :: items) (item.tokens ++ comma :: tokens)

/-- No item follows a rest element. -/
def RestLast (items : List PatternItem) : Prop :=
  ∀ item ∈ items.dropLast, item.isRest = false

end PatternItem

/-- The node of an array pattern. -/
def arrayPatternNode (opening : Token) (items : List PatternItem) : Expr :=
  .arrayPattern opening (items.filterMap PatternItem.tree?) (items.findSome? PatternItem.name?)

/-- The tokens spell a pattern, and this is its tree. -/
inductive SpellsPattern : List Token → Expr → Prop
  | name {token : Token} (hkind : token.kind = .identifier) :
      SpellsPattern [token] (.identifier (.ofToken token))
  | integer {token : Token} {value : Int} (hkind : token.kind = .integer)
      (hvalue : Numeral.integer? token.value = some value) :
      SpellsPattern [token] (.integer token value)
  | string {token : Token} (hkind : token.kind = .string) :
      SpellsPattern [token] (.string token token.value)
  | array {opening closing : Token} {items : List PatternItem} {inner : List Token}
      (hopening : opening.kind = .openBracket) (hclosing : closing.kind = .closeBracket)
      (hlisted : PatternItem.Listed items inner)
      (hspelled : ∀ tokens tree, .pattern tokens tree ∈ items → SpellsPattern tokens tree)
      (hrest : PatternItem.RestLast items) :
      SpellsPattern (opening :: (inner ++ [closing])) (arrayPatternNode opening items)

/-- An array pattern as it is written, with rest elements anywhere among its items. -/
structure ArrayPatternText where
  /-- The opening bracket. -/
  opening : Token
  /-- The items. -/
  items : List PatternItem
  /-- The tokens of the items and the commas between them. -/
  inner : List Token
  /-- The closing bracket. -/
  closing : Token
  opening_kind : opening.kind = .openBracket
  closing_kind : closing.kind = .closeBracket
  listed : PatternItem.Listed items inner
  spelled : ∀ tokens tree, .pattern tokens tree ∈ items → SpellsPattern tokens tree

/-- The tokens of an array pattern. -/
def ArrayPatternText.tokens (text : ArrayPatternText) : List Token :=
  text.opening :: (text.inner ++ [text.closing])

/-! ## One item -/

/-- What stands behind an item: a comma, or the closing bracket. -/
def EndsItem (u : Token) : Prop :=
  u.kind = .comma ∨ u.kind = .closeBracket

/-- No expression goes on at what stands behind an item. -/
theorem EndsItem.weak (h : EndsItem u) : ¬ Power.default < Grammar.standard.powerOf u.kind := by
  rcases h with h | h <;> rw [h] <;> decide

/-- Wherever the tokens stand as an item, they are read as the pattern. -/
def ReadsPattern (tokens : List Token) (tree : Expr) : Prop :=
  ∀ ⦃p : Parser⦄ ⦃t u : Token⦄ ⦃after : List Token⦄, EndsItem u →
    p.Faces (t :: (tokens ++ u :: after)) →
    Reads .pattern p.advance tree (advance^[tokens.length] p)

/-- A pattern begins neither on an ellipsis nor on a closing bracket. -/
theorem SpellsPattern.exists_head {tokens : List Token} {tree : Expr}
    (h : SpellsPattern tokens tree) :
    ∃ t more, tokens = t :: more ∧ t.kind ≠ .ellipsis ∧ t.kind ≠ .closeBracket := by
  cases h with
  | name hkind | integer hkind _ | string hkind => exact ⟨_, [], rfl, by rw [hkind]; decide⟩
  | array hopening => exact ⟨_, _, rfl, by rw [hopening]; decide⟩

namespace PatternItem

variable {item next : PatternItem} {items : List PatternItem}

/-- The end of a list of items. -/
theorem gives_tail_stop (hp : p.Faces (last :: u :: after)) (hu : u.kind = .closeBracket)
    (seen : Bool) : (Rule.patternTail seen).Gives p ([], none) p := by
  have hpeek : p.window.peek.kind ≠ .comma := by
    rw [hp.peek_eq, hu]
    decide
  exact .ifNotPeek hpeek .done

/-- An item that is a pattern leaves the outcome to what follows it. -/
theorem resumes_pattern {tokens : List Token} {tree : Expr} (hspells : SpellsPattern tokens tree)
    (hreads : ReadsPattern tokens tree) (hu : EndsItem u)
    (hp : p.Faces (t :: (tokens ++ u :: after))) :
    (∀ items r, (Rule.patternTail false).Gives (advance^[tokens.length] p) items r →
      Reads (.patternItems false) p (tree :: items.1, items.2) r) ∧
    ∀ cause r, (Rule.patternTail false).Misses (advance^[tokens.length] p) cause r →
      Missed (.patternItems false) p cause r := by
  have hpattern := hreads hu hp
  obtain ⟨first, more, rfl, hfirst, -⟩ := hspells.exists_head
  have hcurrent : p.advance.window.current.kind ≠ .ellipsis := by
    rwa [Parser.Faces.current_eq (hp.advance (by simp; omega))]
  refine ⟨fun items r htail => ?_, fun cause r htail => ?_⟩
  · refine .shift (.look ?_)
    change Rule.Gives (if _ then _ else if _ then _ else _) _ _ _
    rw [if_neg hcurrent, if_neg (by simp)]
    exact .need hpattern (htail.bind .done)
  · refine .shift (.look ?_)
    change Rule.Misses (if _ then _ else if _ then _ else _) _ _ _
    rw [if_neg hcurrent, if_neg (by simp)]
    exact .need hpattern htail.bind_first

/-- A first rest element leaves the outcome to what follows it. -/
theorem resumes_rest {ellipsis name : Token} (hellipsis : ellipsis.kind = .ellipsis)
    (hname : name.kind = .identifier) (hp : p.Faces (t :: ellipsis :: name :: u :: after)) :
    (∀ items r, (Rule.patternTail true).Gives p.advance.advance items r →
      Reads (.patternItems false) p (items.1, some (.ofToken name)) r) ∧
    ∀ cause r, (Rule.patternTail true).Misses p.advance.advance cause r →
      Missed (.patternItems false) p cause r := by
  have hdots := hp.advance (by simp)
  have hcurrent : p.advance.window.current.kind = .ellipsis := by rw [hdots.current_eq, hellipsis]
  have hpeek : p.advance.window.peek.kind = .identifier := by rw [hdots.peek_eq, hname]
  have hread : p.advance.advance.window.current = name := (hdots.advance (by simp)).current_eq
  refine ⟨fun items r htail => ?_, fun cause r htail => ?_⟩
  · refine .shift (.look ?_)
    change Rule.Gives (if _ then if _ then _ else if _ then _ else _ else _) _ _ _
    rw [if_pos hcurrent, if_neg (by simp), if_pos hpeek, ← hread]
    exact .shift (.look (htail.bind .done))
  · refine .shift (.look ?_)
    change Rule.Misses (if _ then if _ then _ else if _ then _ else _ else _) _ _ _
    rw [if_pos hcurrent, if_neg (by simp), if_pos hpeek]
    exact .shift (.look htail.bind_first)

/-- What is wrong with an item that follows a rest element. -/
def complaint (item : PatternItem) : Cause :=
  if item.isRest then .duplicateRestPattern else .restPatternNotLast

/-- The item is a rest element, or a pattern that is read as its tree. -/
def Readable (item : PatternItem) : Prop :=
  ∀ tokens tree, item = pattern tokens tree → SpellsPattern tokens tree ∧ ReadsPattern tokens tree

/-- Behind a rest element, an item is missed on its first token. -/
theorem missed_behind_rest (hitem : item.Readable)
    (hp : p.Faces (t :: (item.tokens ++ u :: after))) :
    ∃ first, item.tokens.head? = some first ∧ p.advance.window.current = first ∧
      Missed (.patternItems true) p item.complaint p.advance := by
  cases item with
  | rest ellipsis name hellipsis hname =>
    have hcurrent : p.advance.window.current = ellipsis :=
      Parser.Faces.current_eq (hp.advance (by simp [tokens]))
    refine ⟨ellipsis, rfl, hcurrent, .shift (.look ?_)⟩
    change Rule.Misses (if _ then if _ then _ else if _ then _ else _ else _) _ _ _
    rw [if_pos (by rw [hcurrent, hellipsis]), if_pos rfl]
    exact .fail
  | pattern tokens tree =>
    obtain ⟨first, more, rfl, hfirst, -⟩ := (hitem tokens tree rfl).1.exists_head
    have hcurrent : p.advance.window.current = first :=
      Parser.Faces.current_eq (hp.advance (by simp [PatternItem.tokens]; omega))
    refine ⟨first, rfl, hcurrent, .shift (.look ?_)⟩
    change Rule.Misses (if _ then _ else if _ then _ else _) _ _ _
    rw [if_neg (by rwa [hcurrent]), if_pos rfl]
    exact .fail

/-! ## Lists of items -/

/-- No item follows a rest element if the first one is none, or is the last. -/
theorem restLast_cons (item next : PatternItem) (items : List PatternItem) :
    RestLast (item :: next :: items) ↔ item.isRest = false ∧ RestLast (next :: items) := by
  simp [RestLast]

/-- A list of items begins on no closing bracket. -/
theorem Listed.peek_ne_closeBracket (hlisted : Listed items inner) (hne : items ≠ [])
    (hitems : ∀ item ∈ items, item.Readable) (hp : p.Faces (t :: (inner ++ after))) :
    p.window.peek.kind ≠ .closeBracket := by
  have hhead : ∀ item ∈ items, ∃ t more, item.tokens = t :: more ∧ t.kind ≠ .closeBracket := by
    intro item hitem
    cases item with
    | rest ellipsis name hellipsis hname => exact ⟨ellipsis, [name], rfl, by rw [hellipsis]; decide⟩
    | pattern tokens tree =>
      obtain ⟨t, more, htokens, -, hkind⟩ := (hitems _ hitem tokens tree rfl).1.exists_head
      exact ⟨t, more, htokens, hkind⟩
  obtain ⟨u, more, rfl, hu⟩ : ∃ u more, inner = u :: more ∧ u.kind ≠ .closeBracket := by
    cases hlisted with
    | nil => exact absurd rfl hne
    | single item => exact hhead item List.mem_cons_self
    | cons item =>
      obtain ⟨u, more, htokens, hu⟩ := hhead item List.mem_cons_self
      exact ⟨u, _, by rw [htokens]; rfl, hu⟩
  rwa [Parser.Faces.peek_eq hp]

/-- Where no item follows a rest element, the list is read. -/
theorem reads_items (hlisted : Listed items inner) (hne : items ≠ [])
    (hitems : ∀ item ∈ items, item.Readable) (hrest : RestLast items)
    (hclosing : closing.kind = .closeBracket)
    (hp : p.Faces (t :: (inner ++ closing :: after))) :
    Reads (.patternItems false) p (items.filterMap tree?, items.findSome? name?)
      (advance^[inner.length] p) := by
  induction hlisted generalizing p t with
  | nil => exact absurd rfl hne
  | single item =>
    obtain ⟨last, hlast⟩ := exists_faces_last hp (by simp)
    cases item with
    | rest ellipsis name hellipsis hname =>
      exact (resumes_rest hellipsis hname hp).1 _ _ (gives_tail_stop hlast hclosing true)
    | pattern tokens tree =>
      obtain ⟨hspells, hpattern⟩ := hitems _ List.mem_cons_self tokens tree rfl
      exact (resumes_pattern hspells hpattern (.inr hclosing) hp).1 _ _
        (gives_tail_stop hlast hclosing false)
  | @cons item next items comma inner hcomma hlisted ih =>
    obtain ⟨hitem, hothers⟩ := List.forall_mem_cons.1 hitems
    obtain ⟨hfirst, hbehind⟩ := (restLast_cons item next items).1 hrest
    rw [List.append_assoc, List.cons_append] at hp
    obtain ⟨last, hlast⟩ := exists_faces_last hp (by simp)
    cases item with
    | rest => simp [isRest] at hfirst
    | pattern tokens tree =>
      obtain ⟨hspells, hpattern⟩ := hitem tokens tree rfl
      have hpeek : (advance^[tokens.length] p).window.peek.kind = .comma :=
        (congrArg Token.kind hlast.peek_eq).trans hcomma
      have hlater := ih (by simp) hothers hbehind (hlast.advance (by simp; omega))
      rw [PatternItem.tokens, iterate_length_append]
      exact (resumes_pattern hspells hpattern (.inl hcomma) hp).1 _ _
        (.ifPeek hpeek (.shift (.need hlater .done)))

/-- Where an item follows a rest element, the list is missed on the first that does. -/
theorem missed_items (hlisted : Listed items inner) (hitems : ∀ item ∈ items, item.Readable)
    (hrest : ¬ RestLast items) (hp : p.Faces (t :: (inner ++ closing :: after))) :
    ∃ before rest next later first r, items = before ++ rest :: next :: later ∧
      (∀ item ∈ before, item.isRest = false) ∧ rest.isRest = true ∧
      next.tokens.head? = some first ∧ r.window.current = first ∧
      Missed (.patternItems false) p next.complaint r := by
  induction hlisted generalizing p t with
  | nil => exact absurd (by simp [RestLast]) hrest
  | single item => exact absurd (by simp [RestLast]) hrest
  | @cons item next items comma inner hcomma hlisted ih =>
    obtain ⟨hitem, hothers⟩ := List.forall_mem_cons.1 hitems
    rw [List.append_assoc, List.cons_append] at hp
    obtain ⟨last, hlast⟩ := exists_faces_last hp (by simp)
    have hnext := hlast.advance (by simp; omega)
    have hpeek : (advance^[item.tokens.length] p).window.peek.kind = .comma :=
      (congrArg Token.kind hlast.peek_eq).trans hcomma
    cases item with
    | rest ellipsis name hellipsis hname =>
      -- the next item is the one that is out of place
      obtain ⟨u, more, htokens⟩ : ∃ u more, inner ++ closing :: after =
        next.tokens ++ u :: more := by
        cases hlisted with
        | single => exact ⟨_, _, rfl⟩
        | cons => exact ⟨_, _, by rw [List.append_assoc, List.cons_append]⟩
      rw [htokens] at hnext
      obtain ⟨first, hhead, hcurrent, hmissed⟩ :=
        missed_behind_rest (hothers next List.mem_cons_self) hnext
      have hitem := (resumes_rest hellipsis hname hp).2 _ _
        (.ifPeek hpeek (.shift (.unmet hmissed)))
      exact ⟨[], .rest ellipsis name hellipsis hname, next, items, first, _, rfl, by simp,
        rfl, hhead,
        hcurrent, hitem⟩
    | pattern tokens tree =>
      obtain ⟨hspells, hpattern⟩ := hitem tokens tree rfl
      have hlater : ¬ RestLast (next :: items) := fun h =>
        hrest ((restLast_cons _ next items).2 ⟨rfl, h⟩)
      obtain ⟨before, rest, bad, later, first, r, heq, hbefore, hisRest, hhead, hcurrent,
        hmissed⟩ :=
        ih hothers hlater hnext
      have hitem := (resumes_pattern hspells hpattern (.inl hcomma) hp).2 _ _
        (.ifPeek hpeek (.shift (.unmet hmissed)))
      exact ⟨pattern tokens tree :: before, rest, bad, later, first, r, by rw [heq]; rfl,
        List.forall_mem_cons.2 ⟨rfl, hbefore⟩, hisRest, hhead, hcurrent, hitem⟩

end PatternItem

/-! ## Array patterns -/

section

variable {items : List PatternItem}

/-- Where no item follows a rest element, the array pattern is read. -/
theorem gives_arrayPattern (hlisted : PatternItem.Listed items inner)
    (hitems : ∀ item ∈ items, item.Readable) (hrest : PatternItem.RestLast items)
    (hclosing : closing.kind = .closeBracket)
    (hp : p.Faces (opening :: (inner ++ closing :: after))) :
    Rule.arrayPattern.Gives p (arrayPatternNode opening items) (advance^[inner.length + 1] p) := by
  rw [Function.iterate_succ_apply', ← hp.current_eq]
  refine .look ?_
  by_cases hne : items = []
  · subst hne
    cases hlisted
    have hpeek : p.window.peek.kind = .closeBracket := by rw [Parser.Faces.peek_eq hp, hclosing]
    exact .ifPeek hpeek (.shift .done)
  · have hpeek := hlisted.peek_ne_closeBracket hne hitems hp
    have hreads := PatternItem.reads_items hlisted hne hitems hrest hclosing hp
    obtain ⟨last, hlast⟩ := exists_faces_last hp (by simp)
    have hclose : (advance^[inner.length] p).window.peek.kind = .closeBracket :=
      (congrArg Token.kind hlast.peek_eq).trans hclosing
    exact .ifNotPeek hpeek (.need hreads ((Rule.Gives.expect hclose).bind .done))

/-- Where an item follows a rest element, the array pattern is missed on the first that does. -/
theorem misses_arrayPattern (hlisted : PatternItem.Listed items inner)
    (hitems : ∀ item ∈ items, item.Readable) (hrest : ¬ PatternItem.RestLast items)
    (hp : p.Faces (opening :: (inner ++ closing :: after))) :
    ∃ before rest next later first r, items = before ++ rest :: next :: later ∧
      (∀ item ∈ before, item.isRest = false) ∧ rest.isRest = true ∧
      next.tokens.head? = some first ∧ r.window.current = first ∧
      Rule.arrayPattern.Misses p next.complaint r := by
  have hne : items ≠ [] := by
    rintro rfl
    exact hrest (by simp [PatternItem.RestLast])
  obtain ⟨before, rest, next, later, first, r, heq, hbefore, hisRest, hhead, hcurrent, hmissed⟩ :=
    PatternItem.missed_items hlisted hitems hrest hp
  have hpeek := hlisted.peek_ne_closeBracket hne hitems hp
  exact ⟨before, rest, next, later, first, r, heq, hbefore, hisRest, hhead, hcurrent,
    .look (.ifNotPeek hpeek (.unmet hmissed))⟩

end

/-- A pattern is read as its tree, however deep array patterns are nested in it. -/
theorem SpellsPattern.reads {tokens : List Token} {tree : Expr} (h : SpellsPattern tokens tree) :
    ReadsPattern tokens tree := by
  induction h with
  | name hkind =>
    intro p t u after hu hp
    have hname := hp.advance (by simp)
    refine .look ?_
    change Rule.Gives (if _ then _ else if _ then _ else _) _ _ _
    rw [hname.current_eq, hkind, if_neg (by decide), if_neg (by decide)]
    exact .need (reads_name hname hkind hu.weak) .done
  | integer hkind hvalue =>
    intro p t u after hu hp
    have hinteger := hp.advance (by simp)
    refine .look ?_
    change Rule.Gives (if _ then _ else if _ then _ else _) _ _ _
    rw [hinteger.current_eq, hkind, if_neg (by decide), if_neg (by decide)]
    exact .need (reads_integer hinteger hkind hu.weak hvalue) .done
  | string hkind =>
    intro p t u after hu hp
    have hstring := hp.advance (by simp)
    have hplan : ExpressionRule.string.plan.Gives p.advance (.string _ _) p.advance := .look .done
    rw [hstring.current_eq] at hplan
    refine .look ?_
    change Rule.Gives (if _ then _ else if _ then _ else _) _ _ _
    rw [hstring.current_eq, hkind, if_neg (by decide), if_neg (by decide)]
    exact .need (reads_expr hstring (by rw [hkind]; rfl) (by rw [hkind]; rfl) hplan
      (reads_links_stop hstring hu.weak)) .done
  | @array opening closing items inner hopening hclosing hlisted hspelled hrest ih =>
    intro p t u after hu hp
    have harray := hp.advance (by simp; omega)
    rw [List.cons_append, List.append_assoc, List.singleton_append] at harray
    have hitems : ∀ item ∈ items, item.Readable := by
      rintro item hitem tokens tree rfl
      exact ⟨hspelled tokens tree hitem, ih tokens tree hitem⟩
    have hgives := gives_arrayPattern hlisted hitems hrest hclosing harray
    refine .look ?_
    change Rule.Gives (if _ then _ else _) _ _ _
    rw [if_pos (by rw [harray.current_eq, hopening])]
    simpa using hgives

/-- Every item of an array pattern is readable. -/
theorem ArrayPatternText.readable (text : ArrayPatternText) :
    ∀ item ∈ text.items, item.Readable := by
  rintro item hitem tokens tree rfl
  have hspells := text.spelled tokens tree hitem
  exact ⟨hspells, hspells.reads⟩

/-- **In an array pattern nothing follows a rest element.** A parser has an array pattern in front
of it, whose items are rest elements and patterns in any order. The pattern is read if and only if
no item follows a rest element. Then the node holds the patterns in order and the name of the rest
element, if there is one, and the closing bracket is at hand. Otherwise one diagnostic is recorded,
on the first token of the item behind the first rest element, and it tells whether that item is
another rest element. -/
theorem arrayPattern_rest_last (text : ArrayPatternText) (hp : p.Faces (text.tokens ++ after)) :
    ((∃ pattern q, p.run Rule.arrayPattern = (some pattern, q)) ↔
      PatternItem.RestLast text.items) ∧
    (PatternItem.RestLast text.items →
      p.run Rule.arrayPattern = (some (arrayPatternNode text.opening text.items),
        advance^[text.inner.length + 1] p) ∧
      (advance^[text.inner.length + 1] p).window.current = text.closing) ∧
    (¬ PatternItem.RestLast text.items →
      ∃ before rest next later first r, text.items = before ++ rest :: next :: later ∧
        (∀ item ∈ before, item.isRest = false) ∧ rest.isRest = true ∧
        next.tokens.head? = some first ∧ p.run Rule.arrayPattern = (none, r) ∧
        r.diagnostics = p.diagnostics ++
          [⟨if next.isRest then .duplicateRestPattern else .restPatternNotLast, first.line⟩]) := by
  have htokens : text.tokens ++ after = text.opening :: (text.inner ++ text.closing :: after) := by
    simp [ArrayPatternText.tokens]
  rw [htokens] at hp
  have hread : PatternItem.RestLast text.items →
      p.run Rule.arrayPattern = (some (arrayPatternNode text.opening text.items),
        advance^[text.inner.length + 1] p) := fun hrest =>
    (gives_arrayPattern text.listed text.readable hrest text.closing_kind hp).run_eq hp.grammar_eq
  have hclosing : (advance^[text.inner.length + 1] p).window.current = text.closing := by
    obtain ⟨last, hlast⟩ := exists_faces_last hp (by simp)
    rw [Function.iterate_succ_apply']
    exact hlast.peek_eq
  have hmissed : ¬ PatternItem.RestLast text.items →
      ∃ before rest next later first r, text.items = before ++ rest :: next :: later ∧
        (∀ item ∈ before, item.isRest = false) ∧ rest.isRest = true ∧
        next.tokens.head? = some first ∧ p.run Rule.arrayPattern = (none, r) ∧
        r.diagnostics = p.diagnostics ++
          [⟨if next.isRest then .duplicateRestPattern else .restPatternNotLast, first.line⟩] := by
    intro hrest
    obtain ⟨before, rest, next, later, first, r, heq, hbefore, hisRest, hhead, rfl, hmisses⟩ :=
      misses_arrayPattern text.listed text.readable hrest hp
    refine ⟨before, rest, next, later, _, _, heq, hbefore, hisRest, hhead,
      hmisses.run_eq hp.grammar_eq, ?_⟩
    rw [← hmisses.diagnostics_eq]
    rfl
  refine ⟨⟨fun ⟨pattern, q, hrun⟩ => ?_, fun hrest => ⟨_, _, hread hrest⟩⟩,
    fun hrest => ⟨hread hrest, hclosing⟩, hmissed⟩
  by_contra hrest
  obtain ⟨before, rest, next, later, first, r, -, -, -, -, hnone, -⟩ := hmissed hrest
  rw [hrun] at hnone
  cases hnone

/-- The tokens of `[1, ...b]`. -/
def headAndRest : List Token :=
  [⟨.openBracket, "[", 1⟩, ⟨.integer, "1", 1⟩, ⟨.comma, ",", 1⟩, ⟨.ellipsis, "...", 1⟩,
   ⟨.identifier, "b", 1⟩, ⟨.closeBracket, "]", 1⟩]

/-- The tree of `[1, ...b]`. -/
def headAndRestTree : Expr :=
  .arrayPattern ⟨.openBracket, "[", 1⟩ [.integer ⟨.integer, "1", 1⟩ 1]
    (some (.ofToken ⟨.identifier, "b", 1⟩))

/-- The pattern `[head, ...tail]` is spelled as its tree says. -/
theorem spells_headAndRest : SpellsPattern headAndRest headAndRestTree := by
  have hinteger : SpellsPattern [⟨.integer, "1", 1⟩] (.integer ⟨.integer, "1", 1⟩ 1) :=
    .integer rfl (by decide)
  exact @SpellsPattern.array ⟨.openBracket, "[", 1⟩ ⟨.closeBracket, "]", 1⟩
    [.pattern [⟨.integer, "1", 1⟩] (.integer ⟨.integer, "1", 1⟩ 1),
      .rest ⟨.ellipsis, "...", 1⟩ ⟨.identifier, "b", 1⟩ rfl rfl]
    _ rfl rfl (.cons _ rfl (.single _)) (by simpa using hinteger)
    (by simp [PatternItem.RestLast, PatternItem.isRest])

/-- The array pattern `[a, [1, ...b], "s"]`. -/
def nestedArrayPattern : ArrayPatternText where
  opening := ⟨.openBracket, "[", 1⟩
  items :=
    [.pattern [⟨.identifier, "a", 1⟩] (.identifier (.ofToken ⟨.identifier, "a", 1⟩)),
     .pattern headAndRest headAndRestTree,
     .pattern [⟨.string, "s", 1⟩] (.string ⟨.string, "s", 1⟩ "s")]
  inner :=
    ⟨.identifier, "a", 1⟩ :: ⟨.comma, ",", 1⟩ ::
      (headAndRest ++ [⟨.comma, ",", 1⟩, ⟨.string, "s", 1⟩])
  closing := ⟨.closeBracket, "]", 1⟩
  opening_kind := rfl
  closing_kind := rfl
  listed := .cons _ rfl (.cons _ rfl (.single _))
  spelled := by
    rintro tokens tree hitem
    simp only [List.mem_cons, PatternItem.pattern.injEq, List.not_mem_nil, or_false] at hitem
    obtain ⟨rfl, rfl⟩ | ⟨rfl, rfl⟩ | ⟨rfl, rfl⟩ := hitem
    · exact .name rfl
    · exact spells_headAndRest
    · exact .string rfl

/-- The array pattern `[...a, ...b]`. -/
def doubleRestPattern : ArrayPatternText where
  opening := ⟨.openBracket, "[", 3⟩
  items :=
    [.rest ⟨.ellipsis, "...", 3⟩ ⟨.identifier, "a", 3⟩ rfl rfl,
     .rest ⟨.ellipsis, "...", 4⟩ ⟨.identifier, "b", 4⟩ rfl rfl]
  inner :=
    [⟨.ellipsis, "...", 3⟩, ⟨.identifier, "a", 3⟩, ⟨.comma, ",", 3⟩, ⟨.ellipsis, "...", 4⟩,
     ⟨.identifier, "b", 4⟩]
  closing := ⟨.closeBracket, "]", 4⟩
  opening_kind := rfl
  closing_kind := rfl
  listed := .cons _ rfl (.single _)
  spelled := by simp

/-- The law at both patterns: one is read, the other is missed on the second rest element. -/
theorem arrayPattern_rest_last_cases :
    ((ofTokens (nestedArrayPattern.tokens ++ [Token.eof 1])).Faces
        (nestedArrayPattern.tokens ++ [Token.eof 1]) ∧
      ∃ q, (ofTokens (nestedArrayPattern.tokens ++ [Token.eof 1])).run Rule.arrayPattern =
        (some (.arrayPattern ⟨.openBracket, "[", 1⟩
          [.identifier (.ofToken ⟨.identifier, "a", 1⟩), headAndRestTree,
            .string ⟨.string, "s", 1⟩ "s"] none), q)) ∧
    (ofTokens (doubleRestPattern.tokens ++ [Token.eof 4])).Faces
        (doubleRestPattern.tokens ++ [Token.eof 4]) ∧
      ∃ r, (ofTokens (doubleRestPattern.tokens ++ [Token.eof 4])).run Rule.arrayPattern =
        (none, r) ∧
        r.diagnostics = [⟨.duplicateRestPattern, 4⟩] := by
  have hnested : (ofTokens (nestedArrayPattern.tokens ++ [Token.eof 1])).Faces
      (nestedArrayPattern.tokens ++ [Token.eof 1]) := faces_ofTokens (by decide)
  have hdouble : (ofTokens (doubleRestPattern.tokens ++ [Token.eof 4])).Faces
      (doubleRestPattern.tokens ++ [Token.eof 4]) := faces_ofTokens (by decide)
  have hlast : PatternItem.RestLast nestedArrayPattern.items := by
    simp [nestedArrayPattern, PatternItem.RestLast, PatternItem.isRest]
  have hnotLast : ¬ PatternItem.RestLast doubleRestPattern.items := by
    simp [doubleRestPattern, PatternItem.RestLast, PatternItem.isRest]
  refine ⟨⟨hnested, _, ((arrayPattern_rest_last nestedArrayPattern hnested).2.1 hlast).1⟩,
    hdouble, ?_⟩
  obtain ⟨before, rest, next, later, first, r, heq, -, -, hhead, hrun, hdiagnostics⟩ :=
    (arrayPattern_rest_last doubleRestPattern hdouble).2.2 hnotLast
  refine ⟨r, hrun, ?_⟩
  cases before with
  | nil =>
    simp only [doubleRestPattern, List.nil_append, List.cons.injEq] at heq
    obtain ⟨-, rfl, -⟩ := heq
    cases hhead
    exact hdiagnostics
  | cons item before =>
    have hlength := congrArg List.length heq
    simp only [doubleRestPattern, List.length_cons, List.length_append, List.length_nil] at hlength
    omega

end ScriptFront
