import ScriptFront.Proofs.Tree.Tokens
import ScriptFront.Tree.Render

/-!
# One tree for all that print alike

Parentheses leave no trace in a tree, and members, calls and lists are printed without any of their
own. So a few trees that differ are printed alike:

* a call of a property and a method: `(a.b)(c)` and `a.b(c)`;
* a call of a channel without a size on one argument and a channel with that size: `(chan)(5)` and
  `chan(5)`;
* an item of a list that begins with an import of several names, and the import of the first name
  with the other names as items behind it, the last of which takes over the members and the calls
  behind the import: `[import a, b]` and `[(import a), b]`, `[import a, b.c]` and
  `[(import a), b.c]`;
* an array as a pattern and an array pattern, whose rest element is printed like an item.

`Expr.regroup` takes one of the two in each of these cases, everywhere in a tree. Behind its
`Expr.head`, an expression is a list of members and arguments (`Expr.links`), and `Expr.link` puts
one more behind an expression. In a list, an expression counts for its `Expr.items`. Regrouping goes
through all of these: `regroup_link`, `head_regroup`, `links_regroup`, `map_regroup_items`.
-/

namespace ScriptFront

/-! ## What stands behind an expression -/

/-- What goes on with an expression right behind it. -/
inductive Link where
  /-- A dot and a name. -/
  | member (name : Identifier)
  /-- Arguments in parentheses. -/
  | arguments (values : List Expr)

/-- The expression without all that goes on behind it. -/
def Expr.head : Expr → Expr
  | .call _ callee _ => callee.head
  | .property _ object _ => object.head
  | .method _ object _ _ => object.head
  | .channel token _ => .channel token none
  | e => e
termination_by structural tree => tree

/-- What goes on behind the head of an expression. -/
def Expr.links : Expr → List Link
  | .call _ callee values => callee.links ++ [.arguments values]
  | .property _ object name => object.links ++ [.member name]
  | .method _ object name values => object.links ++ [.member name, .arguments values]
  | .channel _ (some size) => [.arguments [size]]
  | _ => []
termination_by structural tree => tree

/-- The expression with arguments behind it: behind a property they make a method, and one argument
is the size of a channel. The node that is put around the expression holds no token. -/
def Expr.applied (values : List Expr) : Expr → Expr
  | .property dot object name => .method dot object name values
  | .channel word none =>
    match values with
    | [size] => .channel word (some size)
    | _ => .call default (.channel word none) values
  | e => .call default e values

/-- The expression with one more link behind it. -/
def Expr.link (e : Expr) : Link → Expr
  | .member name => .property default e name
  | .arguments values => e.applied values

/-- Nothing goes on behind the expression. -/
def Expr.isHead : Expr → Bool
  | .call _ _ _ | .property _ _ _ | .method _ _ _ _ | .channel _ (some _) => false
  | _ => true

/-- The expression is an import. -/
def Expr.isImport : Expr → Bool
  | .importing _ _ => true
  | _ => false

namespace Expr

variable {e : Expr} {l : Link}

/-- Nothing goes on behind a head. -/
theorem isHead_head (e : Expr) : e.head.isHead = true := by
  fun_induction head e with
  | case1 _ _ _ ih | case2 _ _ _ ih | case3 _ _ _ _ ih => exact ih
  | case4 => rfl
  | case5 e hcall hproperty hmethod hchannel =>
    cases e with
    | call token callee values => exact absurd rfl (hcall token callee values)
    | property token object name => exact absurd rfl (hproperty token object name)
    | method token object name values => exact absurd rfl (hmethod token object name values)
    | channel token size => exact absurd rfl (hchannel token size)
    | _ => rfl

/-- An expression behind which nothing goes on is its own head and has no links. -/
theorem head_links_of_isHead (h : e.isHead = true) : e.head = e ∧ e.links = [] := by
  cases e with
  | call | property | method => cases h
  | channel token size =>
    cases size with
    | none => exact ⟨rfl, rfl⟩
    | some size => cases h
  | _ => exact ⟨rfl, rfl⟩

/-- An expression behind which nothing goes on is its own head. -/
theorem head_of_isHead (h : e.isHead = true) : e.head = e :=
  (head_links_of_isHead h).1

/-- An expression behind which nothing goes on has no links. -/
theorem links_of_isHead (h : e.isHead = true) : e.links = [] :=
  (head_links_of_isHead h).2

/-- A head is its own head. -/
@[simp] theorem head_head (e : Expr) : e.head.head = e.head :=
  head_of_isHead e.isHead_head

/-- A head has no links. -/
@[simp] theorem links_head (e : Expr) : e.head.links = [] :=
  links_of_isHead e.isHead_head

/-- A further link leaves the head as it is. -/
@[simp] theorem head_link : (e.link l).head = e.head := by
  cases l with
  | member name => rfl
  | arguments values =>
    simp only [link]
    fun_cases applied values e <;> rfl

/-- A further link is the last one. -/
@[simp] theorem links_link : (e.link l).links = e.links ++ [l] := by
  cases l with
  | member name => rfl
  | arguments values =>
    simp only [link]
    fun_cases applied values e with
    | case1 => simp [links]
    | case2 => rfl
    | case3 => rfl
    | case4 => rfl

/-- Further links leave the head as it is. -/
theorem head_foldl_link (ls : List Link) (e : Expr) : (ls.foldl link e).head = e.head := by
  induction ls generalizing e with
  | nil => rfl
  | cons l ls ih => rw [List.foldl_cons, ih, head_link]

/-- Further links come last, in their order. -/
theorem links_foldl_link (ls : List Link) (e : Expr) :
    (ls.foldl link e).links = e.links ++ ls := by
  induction ls generalizing e with
  | nil => simp
  | cons l ls ih => rw [List.foldl_cons, ih, links_link, List.append_assoc, List.singleton_append]

end Expr

/-! ## Items of a list -/

/-- The items that the names of an import are behind the first one; what went on behind the import
goes on behind the last of them. -/
def Expr.itemsBehind (links : List Link) : Identifier → List Identifier → List Expr
  | last, [] => [links.foldl Expr.link (.identifier last)]
  | name, next :: rest => .identifier name :: Expr.itemsBehind links next rest

/-- The items that an expression is printed as in a list. -/
def Expr.items (e : Expr) : List Expr :=
  match e.head with
  | .importing token (first :: next :: rest) =>
    .importing token [first] :: Expr.itemsBehind e.links next rest
  | _ => [e]

namespace Expr

variable {e : Expr} {token : Token}

/-- An expression is its only item, unless it begins with an import of more names than one. -/
theorem items_eq (e : Expr) :
    ((∀ token first next rest, e.head ≠ .importing token (first :: next :: rest)) ∧ e.items = [e]) ∨
      ∃ token first next rest, e.head = .importing token (first :: next :: rest) ∧
        e.items = .importing token [first] :: itemsBehind e.links next rest := by
  unfold items
  split
  · next token first next rest hhead => exact .inr ⟨token, first, next, rest, hhead, rfl⟩
  · next hhead => exact .inl ⟨hhead, rfl⟩

/-- An expression that begins with an import of several names counts for as many items. -/
theorem items_of_import {first next : Identifier} {rest : List Identifier}
    (h : e.head = .importing token (first :: next :: rest)) :
    e.items = .importing token [first] :: itemsBehind e.links next rest := by
  rw [items, h]

/-- The names behind the first one are items, and the last of them has all the links. -/
theorem itemsBehind_eq (ls : List Link) (name : Identifier) (rest : List Identifier)
    {middle : List Identifier} {last : Identifier} (h : name :: rest = middle ++ [last]) :
    itemsBehind ls name rest = middle.map identifier ++ [ls.foldl link (identifier last)] := by
  induction rest generalizing name middle with
  | nil =>
    cases middle with
    | nil =>
      obtain rfl : name = last := (List.cons.inj h).1
      rfl
    | cons first middle => simp at h
  | cons next rest ih =>
    cases middle with
    | nil => simp at h
    | cons first middle =>
      obtain ⟨rfl, htail⟩ := List.cons.inj h
      rw [itemsBehind, ih next htail]
      rfl

end Expr

/-! ## Regrouping -/

mutual

/-- The expression with one tree for all that are printed alike. -/
def Expr.regroup : Expr → Expr
  | .array token elements => .array token (Expr.regroupEach elements)
  | .dict token pairs => .dict token (Expr.regroupPairs pairs)
  | .arrayPattern token elements rest =>
    .array token (Expr.regroupEach elements ++ rest.toList.map fun id => .spread id.token id)
  | .unary token operator right => .unary token operator right.regroup
  | .binary token left operator right => .binary token left.regroup operator right.regroup
  | .range token start stop => .range token start.regroup stop.regroup
  | .assign token name value => .assign token name value.regroup
  | .compoundAssign token name operator value => .compoundAssign token name operator value.regroup
  | .indexAssign token target operator value =>
    .indexAssign token target.regroup operator value.regroup
  | .propertyAssign token dot object property operator value =>
    .propertyAssign token dot object.regroup property operator value.regroup
  | .call _ function arguments => function.regroup.link (.arguments (Expr.regroupEach arguments))
  | .index token left index => .index token left.regroup index.regroup
  | .slice token left start stop =>
    .slice token left.regroup (Expr.regroup? start) (Expr.regroup? stop)
  | .property _ object property => object.regroup.link (.member property)
  | .method _ object method arguments =>
    (object.regroup.link (.member method)).link (.arguments (Expr.regroupEach arguments))
  | .conditional token condition consequence alternative =>
    .conditional token condition.regroup consequence.regroup (Block.regroup? alternative)
  | .whileLoop token condition body => .whileLoop token condition.regroup body.regroup
  | .forLoop token key value iterable body =>
    .forLoop token key value iterable.regroup body.regroup
  | .repeatLoop token counter count body => .repeatLoop token counter count.regroup body.regroup
  | .switch token subject cases => .switch token subject.regroup (CaseClause.regroupEach cases)
  | .matching token subject cases => .matching token subject.regroup (MatchCase.regroupEach cases)
  | .function async token name parameters defaults body =>
    .function async token name parameters (Expr.regroupDefaults defaults) body.regroup
  | .await token value => .await token value.regroup
  | .channel token (some size) =>
    (Expr.channel token none).link (.arguments size.regroup.items)
  | .package token name body => .package token name body.regroup
  | e => e
termination_by structural tree => tree

/-- The items of a list with one tree for all that are printed alike. -/
def Expr.regroupEach : List Expr → List Expr
  | [] => []
  | expression :: rest => expression.regroup.items ++ Expr.regroupEach rest
termination_by structural trees => trees

/-- Keys and values with one tree for all that are printed alike. -/
def Expr.regroupPairs : List (Expr × Expr) → List (Expr × Expr)
  | [] => []
  | (key, value) :: rest => (key.regroup, value.regroup) :: Expr.regroupPairs rest
termination_by structural trees => trees

/-- Default values with one tree for all that are printed alike. -/
def Expr.regroupDefaults : List (String × Expr) → List (String × Expr)
  | [] => []
  | (name, value) :: rest => (name, value.regroup) :: Expr.regroupDefaults rest
termination_by structural trees => trees

/-- An expression that may be missing with one tree for all that are printed alike. -/
def Expr.regroup? : Option Expr → Option Expr
  | none => none
  | some expression => some expression.regroup
termination_by structural tree => tree

/-- A block with one tree for all that are printed alike. -/
def Block.regroup : Block → Block
  | ⟨token, body⟩ => ⟨token, Stmt.regroupEach body⟩
termination_by structural tree => tree

/-- A block that may be missing with one tree for all that are printed alike. -/
def Block.regroup? : Option Block → Option Block
  | none => none
  | some block => some block.regroup
termination_by structural tree => tree

/-- A clause with one tree for all that are printed alike. -/
def CaseClause.regroup : CaseClause → CaseClause
  | ⟨token, isDefault, values, body⟩ =>
    ⟨token, isDefault, Expr.regroupEach values, body.regroup⟩
termination_by structural tree => tree

/-- Clauses with one tree for all that are printed alike. -/
def CaseClause.regroupEach : List CaseClause → List CaseClause
  | [] => []
  | clause :: rest => clause.regroup :: CaseClause.regroupEach rest
termination_by structural trees => trees

/-- A case with one tree for all that are printed alike. -/
def MatchCase.regroup : MatchCase → MatchCase
  | ⟨token, pattern, guard, body⟩ =>
    ⟨token, pattern.regroup, Expr.regroup? guard, body.regroup⟩
termination_by structural tree => tree

/-- Cases with one tree for all that are printed alike. -/
def MatchCase.regroupEach : List MatchCase → List MatchCase
  | [] => []
  | each :: rest => each.regroup :: MatchCase.regroupEach rest
termination_by structural trees => trees

/-- A statement with one tree for all that are printed alike. -/
def Stmt.regroup : Stmt → Stmt
  | .declaration token name constant value => .declaration token name constant value.regroup
  | .returning token value => .returning token (Expr.regroup? value)
  | .block inner => .block inner.regroup
  | .enumeration token name members => .enumeration token name (Stmt.regroupMembers members)
  | .declarative token word value => .declarative token word value.regroup
  | .go token expression => .go token expression.regroup
  | .expression token expression => .expression token expression.regroup
  | s => s
termination_by structural tree => tree

/-- Several statements with one tree for all that are printed alike. -/
def Stmt.regroupEach : List Stmt → List Stmt
  | [] => []
  | statement :: rest => statement.regroup :: Stmt.regroupEach rest
termination_by structural trees => trees

/-- Members with one tree for all that are printed alike. -/
def Stmt.regroupMembers : List (Identifier × Expr) → List (Identifier × Expr)
  | [] => []
  | (name, value) :: rest => (name, value.regroup) :: Stmt.regroupMembers rest
termination_by structural trees => trees

end

/-- What goes on behind an expression with one tree for all that are printed alike. -/
def Link.regroup : Link → Link
  | .member name => .member name
  | .arguments values => .arguments (Expr.regroupEach values)

namespace Expr

variable {e : Expr} {l : Link}

/-- Regrouping goes through a link. -/
theorem regroup_link : (e.link l).regroup = e.regroup.link l.regroup := by
  cases l with
  | member name => rfl
  | arguments values =>
    simp only [link, Link.regroup]
    fun_cases applied values e with
    | case2 word size => simp only [regroup, regroupEach, List.append_nil, link]
    | case1 | case3 | case4 => rfl

/-- Regrouping goes through several links. -/
theorem regroup_foldl_link (ls : List Link) (e : Expr) :
    (ls.foldl link e).regroup = (ls.map Link.regroup).foldl link e.regroup := by
  induction ls generalizing e with
  | nil => rfl
  | cons l ls ih => rw [List.foldl_cons, List.map_cons, List.foldl_cons, ih, regroup_link]

/-- Regrouping puts nothing behind an expression. -/
theorem isHead_regroup (h : e.isHead = true) : e.regroup.isHead = true := by
  cases e with
  | call | property | method => cases h
  | channel token size =>
    cases size with
    | none => rfl
    | some size => cases h
  | _ => rfl

/-- Regrouping makes no import. -/
theorem eq_importing_of_regroup {token : Token} {names : List Identifier} (h : e.isHead = true)
    (himport : e.regroup = .importing token names) : e = .importing token names := by
  cases e with
  | call | property | method => cases h
  | importing => exact himport
  | channel token size =>
    cases size with
    | none => cases himport
    | some size => cases h
  | _ => cases himport

/-- A regrouped expression is put together of its regrouped head and links. -/
theorem regroup_eq_head_links (e : Expr) :
    e.regroup = (e.links.map Link.regroup).foldl link e.head.regroup := by
  fun_induction head e with
  | case1 token callee values ih =>
    simp only [links, List.map_append, List.foldl_append, ← ih]
    rfl
  | case2 token object name ih =>
    simp only [links, List.map_append, List.foldl_append, ← ih]
    rfl
  | case3 token object name values ih =>
    simp only [links, List.map_append, List.foldl_append, ← ih]
    rfl
  | case4 token size =>
    cases size with
    | none => rfl
    | some size =>
      simp only [links, List.map_cons, List.map_nil, List.foldl_cons, List.foldl_nil, Link.regroup,
        regroupEach, List.append_nil]
      rfl
  | case5 e _ _ _ _ =>
    have hself : e.head = e := by rw [head] <;> assumption
    rw [links_of_isHead (hself ▸ isHead_head e)]
    rfl

/-- The head of a regrouped expression. -/
theorem head_regroup (e : Expr) : e.regroup.head = e.head.regroup := by
  rw [regroup_eq_head_links, head_foldl_link, head_of_isHead (isHead_regroup e.isHead_head)]

/-- The links of a regrouped expression. -/
theorem links_regroup (e : Expr) : e.regroup.links = e.links.map Link.regroup := by
  rw [regroup_eq_head_links, links_foldl_link, links_of_isHead (isHead_regroup e.isHead_head),
    List.nil_append]

/-- Regrouping leaves the names of an import as they are, and goes through what goes on behind. -/
theorem map_regroup_itemsBehind (ls : List Link) (name : Identifier) (rest : List Identifier) :
    (itemsBehind ls name rest).map regroup = itemsBehind (ls.map Link.regroup) name rest := by
  induction rest generalizing name with
  | nil =>
    rw [itemsBehind, List.map_singleton, regroup_foldl_link]
    rfl
  | cons next rest ih =>
    rw [itemsBehind, List.map_cons, ih]
    rfl

/-- The items of a regrouped expression are the regrouped items. -/
theorem map_regroup_items (e : Expr) : e.items.map regroup = e.regroup.items := by
  have hhead := head_regroup e
  rcases items_eq e with ⟨hnot, hitems⟩ | ⟨token, first, next, rest, himport, hitems⟩
  · rcases items_eq e.regroup with ⟨-, hitems'⟩ | ⟨token, first, next, rest, himport, -⟩
    · rw [hitems, hitems', List.map_singleton]
    · rw [hhead] at himport
      exact absurd (eq_importing_of_regroup e.isHead_head himport) (hnot token first next rest)
  · have himport' : e.regroup.head = .importing token (first :: next :: rest) := by
      rw [hhead, himport]
      rfl
    rw [hitems, items_of_import himport', List.map_cons, map_regroup_itemsBehind, links_regroup]
    rfl

/-- A list is regrouped to its regrouped items. -/
theorem regroupEach_eq (es : List Expr) : regroupEach es = (es.flatMap items).map regroup := by
  induction es with
  | nil => rfl
  | cons e es ih => rw [regroupEach, List.flatMap_cons, List.map_append, map_regroup_items, ih]

end Expr

end ScriptFront
