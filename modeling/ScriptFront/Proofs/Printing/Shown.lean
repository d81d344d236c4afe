import ScriptFront.Proofs.Printing.Text

/-!
# What a printed form shows of a tree

* `Expr.shown` — a tree as far as its printed form shows it: without its tokens, and regrouped.
* `Expr.shown_eq_head_links` — what is shown of an expression is put together of what is shown of
  its head and of what goes on behind.
* `Expr.map_shown_items` — what is shown of its items are the items of what is shown of it.
-/

namespace ScriptFront

/-- A name without its token. -/
def Identifier.erase (id : Identifier) : Identifier :=
  id.mapTokens fun _ => default

/-- Without their tokens, names are the same if they have the same text. -/
theorem Identifier.erase_inj {id id' : Identifier} : id.erase = id'.erase ↔ id.name = id'.name := by
  simp [Identifier.erase, Identifier.mapTokens]

/-- Without their tokens, lists of names are the same if they have the same texts. -/
theorem Identifier.map_erase_inj {ids ids' : List Identifier} :
    ids.map Identifier.erase = ids'.map Identifier.erase ↔
      ids.map Identifier.name = ids'.map Identifier.name := by
  have hname : ∀ ids : List Identifier,
      (ids.map Identifier.erase).map Identifier.name = ids.map Identifier.name := by
    simp [Identifier.erase, Identifier.mapTokens]
  have herase : ∀ ids : List Identifier,
      ids.map Identifier.erase = (ids.map Identifier.name).map (Identifier.mk default) := by
    simp [Identifier.erase, Identifier.mapTokens]
  refine ⟨fun h => ?_, fun h => ?_⟩
  · rw [← hname, h, hname]
  · rw [herase, h, ← herase]

/-- What is shown of an expression. -/
def Expr.shown (e : Expr) : Expr :=
  e.erase.regroup

/-- What is shown of the items of a list. -/
def Expr.shownEach (es : List Expr) : List Expr :=
  Expr.regroupEach (Expr.eraseEach es)

/-- What is shown of an expression that may be missing. -/
def Expr.shown? (e : Option Expr) : Option Expr :=
  Expr.regroup? (Expr.erase? e)

/-- What is shown of a block. -/
def Block.shown (b : Block) : Block :=
  (b.mapTokens fun _ => default).regroup

/-- What is shown of a clause. -/
def CaseClause.shown (c : CaseClause) : CaseClause :=
  (c.mapTokens fun _ => default).regroup

/-- What is shown of a case. -/
def MatchCase.shown (c : MatchCase) : MatchCase :=
  (c.mapTokens fun _ => default).regroup

/-- What is shown of a statement. -/
def Stmt.shown (s : Stmt) : Stmt :=
  (s.mapTokens fun _ => default).regroup

/-- What is shown of what goes on behind an expression. -/
def Link.shown : Link → Link
  | .member name => .member name.erase
  | .arguments values => .arguments (Expr.shownEach values)

/-- What goes on behind an expression, without its tokens. -/
def Link.erase : Link → Link
  | .member name => .member name.erase
  | .arguments values => .arguments (Expr.eraseEach values)

/-- What is shown of a link is the link regrouped without its tokens. -/
theorem Link.regroup_erase (l : Link) : l.erase.regroup = l.shown := by
  cases l <;> rfl

namespace Expr

variable {e : Expr}

/-! ## Without tokens -/

/-- The tokens of a list are taken away from each item. -/
theorem eraseEach_eq (es : List Expr) : eraseEach es = es.map erase := by
  induction es with
  | nil => rfl
  | cons e es ih =>
    rw [List.map_cons, ← ih]
    rfl

/-- Tokens are taken away from an expression and from a link behind it. -/
theorem erase_link (e : Expr) (l : Link) : (e.link l).erase = e.erase.link l.erase := by
  cases l with
  | member name => rfl
  | arguments values =>
    cases e with
    | channel token size =>
      cases size with
      | none =>
        match values with
        | [] | [_] | _ :: _ :: _ => rfl
      | some size => rfl
    | _ => rfl

/-- Tokens are taken away from an expression and from several links behind it. -/
theorem erase_foldl_link (ls : List Link) (e : Expr) :
    (ls.foldl link e).erase = (ls.map Link.erase).foldl link e.erase := by
  induction ls generalizing e with
  | nil => rfl
  | cons l ls ih => rw [List.foldl_cons, List.map_cons, List.foldl_cons, ih, erase_link]

/-- Taking tokens away puts nothing behind an expression and takes nothing from behind it. -/
theorem isHead_erase (e : Expr) : e.erase.isHead = e.isHead := by
  cases e with
  | channel token size => cases size <;> rfl
  | _ => rfl

/-- Without tokens, the head and the links of an expression are what they are, without tokens. -/
theorem head_links_erase (e : Expr) :
    e.erase.head = e.head.erase ∧ e.erase.links = e.links.map Link.erase := by
  fun_induction head e with
  | case1 token callee values ih =>
    refine ⟨ih.1, ?_⟩
    rw [links, List.map_append, ← ih.2]
    rfl
  | case2 token object name ih =>
    refine ⟨ih.1, ?_⟩
    rw [links, List.map_append, ← ih.2]
    rfl
  | case3 token object name values ih =>
    refine ⟨ih.1, ?_⟩
    rw [links, List.map_append, ← ih.2]
    rfl
  | case4 token size => cases size <;> exact ⟨rfl, rfl⟩
  | case5 e _ _ _ _ =>
    have hself : e.head = e := by rw [head] <;> assumption
    have hhead : e.isHead = true := hself ▸ isHead_head e
    have herase : e.erase.isHead = true := e.isHead_erase.trans hhead
    rw [head_of_isHead herase, links_of_isHead herase, links_of_isHead hhead]
    exact ⟨rfl, rfl⟩

/-- Taking tokens away makes no import. -/
theorem exists_of_erase_importing {token : Token} {names : List Identifier}
    (h : e.erase = .importing token names) :
    ∃ token' names', e = .importing token' names' ∧ names = names'.map Identifier.erase := by
  cases e with
  | importing token' names' => exact ⟨token', names', rfl, (Expr.importing.inj h).2.symm⟩
  | _ => cases h

/-- Without tokens, the names of an import are what they are, and so is what goes on behind. -/
theorem map_erase_itemsBehind (ls : List Link) (name : Identifier) (rest : List Identifier) :
    (itemsBehind ls name rest).map erase =
      itemsBehind (ls.map Link.erase) name.erase (rest.map Identifier.erase) := by
  induction rest generalizing name with
  | nil =>
    rw [itemsBehind, List.map_singleton, erase_foldl_link]
    rfl
  | cons next rest ih =>
    rw [itemsBehind, List.map_cons, ih]
    rfl

/-- Without tokens, the items of an expression are what they are, without tokens. -/
theorem map_erase_items (e : Expr) : e.items.map erase = e.erase.items := by
  obtain ⟨hhead, hlinks⟩ := head_links_erase e
  rcases items_eq e with ⟨hnot, hitems⟩ | ⟨token, first, next, rest, himport, hitems⟩
  · rcases items_eq e.erase with ⟨-, hitems'⟩ | ⟨token, first, next, rest, himport, -⟩
    · rw [hitems, hitems', List.map_singleton]
    · rw [hhead] at himport
      obtain ⟨token', names', hhead', hnames⟩ := exists_of_erase_importing himport
      obtain ⟨first', names', rfl, -, hnames⟩ := List.map_eq_cons_iff.1 hnames.symm
      obtain ⟨next', rest', rfl, -, -⟩ := List.map_eq_cons_iff.1 hnames
      exact absurd hhead' (hnot token' first' next' rest')
  · have himport' : e.erase.head =
        .importing default (first.erase :: next.erase :: rest.map Identifier.erase) := by
      rw [hhead, himport]
      rfl
    rw [hitems, items_of_import himport', List.map_cons, map_erase_itemsBehind, hlinks]
    rfl

/-! ## Heads, links and items that are shown -/

/-- An expression is put together of its head and of what goes on behind, as far as it is shown. -/
theorem shown_eq_head_links (e : Expr) :
    e.shown = (e.links.map Link.shown).foldl link e.head.shown := by
  obtain ⟨hhead, hlinks⟩ := head_links_erase e
  rw [shown, regroup_eq_head_links, hhead, hlinks, List.map_map, ← funext Link.regroup_erase]
  rfl

/-- The head of what is shown is what is shown of the head. -/
theorem head_shown (e : Expr) : e.shown.head = e.head.shown := by
  rw [shown, head_regroup, (head_links_erase e).1]
  rfl

/-- The links of what is shown are what is shown of the links. -/
theorem links_shown (e : Expr) : e.shown.links = e.links.map Link.shown := by
  rw [shown, links_regroup, (head_links_erase e).2, List.map_map, ← funext Link.regroup_erase]
  rfl

/-- The items of what is shown are what is shown of the items. -/
theorem map_shown_items (e : Expr) : e.items.map shown = e.shown.items := by
  rw [shown, ← map_regroup_items, ← map_erase_items, List.map_map]
  rfl

/-- What is shown of a list are its items, one by one. -/
theorem shownEach_eq (es : List Expr) : shownEach es = (es.flatMap items).map shown := by
  rw [shownEach, regroupEach_eq, eraseEach_eq, List.flatMap_map, ← funext map_erase_items,
    ← List.map_flatMap, List.map_map]
  rfl

end Expr

end ScriptFront
