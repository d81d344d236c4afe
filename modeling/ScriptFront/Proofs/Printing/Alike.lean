import ScriptFront.Proofs.Printing.Shown

/-!
# What regrouping takes for the same

`Alike` says of two trees that one becomes the other by finitely many changes of four kinds, each
made anywhere in a tree and in either direction. The kinds are its constructors `callee`, `sized`,
`names` and `pattern`; all others carry a change from a part of a tree to the whole.

* `Alike.regroup_eq` — trees that are alike are regrouped to one tree, by induction on the changes.
* `Expr.alike_regroup` — a tree without tokens is alike to what it is regrouped to, by recursion on
  the tree.
* `Expr.shown_eq_iff` — so those trees are shown alike that are alike without their tokens, and no
  others.
* `Alike.render_eq` — trees that are alike are printed alike.
-/

namespace ScriptFront

/-- What a tree is made of, all of which can be regrouped. -/
class Grouped (α : Type) where
  /-- One for all that are printed alike. -/
  regroup : α → α

namespace Grouped

instance : Grouped Expr := ⟨Expr.regroup⟩

instance : Grouped (List Expr) := ⟨Expr.regroupEach⟩

instance : Grouped (List (Expr × Expr)) := ⟨Expr.regroupPairs⟩

instance : Grouped (List (String × Expr)) := ⟨Expr.regroupDefaults⟩

instance : Grouped (Option Expr) := ⟨Expr.regroup?⟩

instance : Grouped Block := ⟨Block.regroup⟩

instance : Grouped (Option Block) := ⟨Block.regroup?⟩

instance : Grouped CaseClause := ⟨CaseClause.regroup⟩

instance : Grouped (List CaseClause) := ⟨CaseClause.regroupEach⟩

instance : Grouped MatchCase := ⟨MatchCase.regroup⟩

instance : Grouped (List MatchCase) := ⟨MatchCase.regroupEach⟩

instance : Grouped Stmt := ⟨Stmt.regroup⟩

instance : Grouped (List Stmt) := ⟨Stmt.regroupEach⟩

instance : Grouped (List (Identifier × Expr)) := ⟨Stmt.regroupMembers⟩

end Grouped

open ScriptFront.Grouped (regroup)

/-! ## Changes of the grouping -/

/-- The two differ in their grouping only: one becomes the other by changes of the kinds `callee`,
`sized`, `names` and `pattern`, anywhere in it and in either direction. -/
inductive Alike : {α : Type} → [Grouped α] → α → α → Prop
  | refl {α : Type} [Grouped α] (tree : α) : Alike tree tree
  | symm {α : Type} [Grouped α] {tree tree' : α} (h : Alike tree tree') : Alike tree' tree
  | trans {α : Type} [Grouped α] {tree tree' tree'' : α} (h : Alike tree tree')
      (h' : Alike tree' tree'') : Alike tree tree''
  /-- A call of a property and the method call: `(a.b)(c)` and `a.b(c)`. -/
  | callee (token dot token' : Token) (object : Expr) (name : Identifier) (values : List Expr) :
      Alike (Expr.call token (.property dot object name) values) (.method token' object name values)
  /-- A call of a channel without a size on one argument and the channel of that size: `(chan)(5)`
  and `chan(5)`. -/
  | sized (token word : Token) (size : Expr) :
      Alike (Expr.call token (.channel word none) [size]) (.channel word (some size))
  /-- In a list, an item that begins with an import of several names, and the import of the first of
  them with the others as items behind it, where all that stood behind the import stands behind the
  last: `[import a, b.c]` and `[(import a), b.c]`. -/
  | names {item : Expr} {token : Token} {first last : Identifier} {middle : List Identifier}
      (rest : List Expr) (h : item.head = .importing token (first :: (middle ++ [last]))) :
      Alike (item :: rest)
        (.importing token [first] ::
          (middle.map .identifier ++ item.links.foldl Expr.link (.identifier last) :: rest))
  /-- An array pattern and the array of its items: `[a, ...b]` and `([a, ...b])` as patterns. -/
  | pattern (token : Token) (elements : List Expr) (rest : Option Identifier) :
      Alike (Expr.arrayPattern token elements rest)
        (.array token (elements ++ rest.toList.map fun id => .spread id.token id))
  | array {elements elements' : List Expr} (token : Token) (h : Alike elements elements') :
      Alike (Expr.array token elements) (.array token elements')
  | dict {pairs pairs' : List (Expr × Expr)} (token : Token) (h : Alike pairs pairs') :
      Alike (Expr.dict token pairs) (.dict token pairs')
  | arrayPattern {elements elements' : List Expr} (token : Token) (rest : Option Identifier)
      (h : Alike elements elements') :
      Alike (Expr.arrayPattern token elements rest) (.arrayPattern token elements' rest)
  | unary {right right' : Expr} (token : Token) (operator : String) (h : Alike right right') :
      Alike (Expr.unary token operator right) (.unary token operator right')
  | binary {left left' right right' : Expr} (token : Token) (operator : String)
      (hleft : Alike left left') (hright : Alike right right') :
      Alike (Expr.binary token left operator right) (.binary token left' operator right')
  | range {start start' stop stop' : Expr} (token : Token) (hstart : Alike start start')
      (hstop : Alike stop stop') : Alike (Expr.range token start stop) (.range token start' stop')
  | assign {value value' : Expr} (token : Token) (name : Identifier) (h : Alike value value') :
      Alike (Expr.assign token name value) (.assign token name value')
  | compoundAssign {value value' : Expr} (token : Token) (name : Identifier) (operator : String)
      (h : Alike value value') :
      Alike (Expr.compoundAssign token name operator value)
        (.compoundAssign token name operator value')
  | indexAssign {target target' value value' : Expr} (token : Token) (operator : String)
      (htarget : Alike target target') (hvalue : Alike value value') :
      Alike (Expr.indexAssign token target operator value)
        (.indexAssign token target' operator value')
  | propertyAssign {object object' value value' : Expr} (token dot : Token) (name : Identifier)
      (operator : String) (hobject : Alike object object') (hvalue : Alike value value') :
      Alike (Expr.propertyAssign token dot object name operator value)
        (.propertyAssign token dot object' name operator value')
  | call {function function' : Expr} {values values' : List Expr} (token : Token)
      (hfunction : Alike function function') (hvalues : Alike values values') :
      Alike (Expr.call token function values) (.call token function' values')
  | index {left left' position position' : Expr} (token : Token) (hleft : Alike left left')
      (hposition : Alike position position') :
      Alike (Expr.index token left position) (.index token left' position')
  | slice {left left' : Expr} {start start' stop stop' : Option Expr} (token : Token)
      (hleft : Alike left left') (hstart : Alike start start') (hstop : Alike stop stop') :
      Alike (Expr.slice token left start stop) (.slice token left' start' stop')
  | property {object object' : Expr} (token : Token) (name : Identifier)
      (h : Alike object object') :
      Alike (Expr.property token object name) (.property token object' name)
  | method {object object' : Expr} {values values' : List Expr} (token : Token) (name : Identifier)
      (hobject : Alike object object') (hvalues : Alike values values') :
      Alike (Expr.method token object name values) (.method token object' name values')
  | conditional {condition condition' : Expr} {consequence consequence' : Block}
      {alternative alternative' : Option Block} (token : Token)
      (hcondition : Alike condition condition') (hconsequence : Alike consequence consequence')
      (halternative : Alike alternative alternative') :
      Alike (Expr.conditional token condition consequence alternative)
        (.conditional token condition' consequence' alternative')
  | whileLoop {condition condition' : Expr} {body body' : Block} (token : Token)
      (hcondition : Alike condition condition') (hbody : Alike body body') :
      Alike (Expr.whileLoop token condition body) (.whileLoop token condition' body')
  | forLoop {iterable iterable' : Expr} {body body' : Block} (token : Token)
      (key : Option Identifier) (value : Identifier) (hiterable : Alike iterable iterable')
      (hbody : Alike body body') :
      Alike (Expr.forLoop token key value iterable body) (.forLoop token key value iterable' body')
  | repeatLoop {count count' : Expr} {body body' : Block} (token : Token) (counter : String)
      (hcount : Alike count count') (hbody : Alike body body') :
      Alike (Expr.repeatLoop token counter count body) (.repeatLoop token counter count' body')
  | switch {subject subject' : Expr} {clauses clauses' : List CaseClause} (token : Token)
      (hsubject : Alike subject subject') (hclauses : Alike clauses clauses') :
      Alike (Expr.switch token subject clauses) (.switch token subject' clauses')
  | matching {subject subject' : Expr} {cases cases' : List MatchCase} (token : Token)
      (hsubject : Alike subject subject') (hcases : Alike cases cases') :
      Alike (Expr.matching token subject cases) (.matching token subject' cases')
  | function {defaults defaults' : List (String × Expr)} {body body' : Block} (async : Bool)
      (token : Token) (name : Option Identifier) (parameters : List Identifier)
      (hdefaults : Alike defaults defaults') (hbody : Alike body body') :
      Alike (Expr.function async token name parameters defaults body)
        (.function async token name parameters defaults' body')
  | await {value value' : Expr} (token : Token) (h : Alike value value') :
      Alike (Expr.await token value) (.await token value')
  | channel {size size' : Option Expr} (token : Token) (h : Alike size size') :
      Alike (Expr.channel token size) (.channel token size')
  | package {body body' : Block} (token : Token) (name : Identifier) (h : Alike body body') :
      Alike (Expr.package token name body) (.package token name body')
  | item {item item' : Expr} {rest rest' : List Expr} (hitem : Alike item item')
      (hrest : Alike rest rest') : Alike (item :: rest) (item' :: rest')
  | pair {key key' value value' : Expr} {rest rest' : List (Expr × Expr)} (hkey : Alike key key')
      (hvalue : Alike value value') (hrest : Alike rest rest') :
      Alike ((key, value) :: rest) ((key', value') :: rest')
  | defaultValue {value value' : Expr} {rest rest' : List (String × Expr)} (name : String)
      (hvalue : Alike value value') (hrest : Alike rest rest') :
      Alike ((name, value) :: rest) ((name, value') :: rest')
  | present {tree tree' : Expr} (h : Alike tree tree') : Alike (some tree) (some tree')
  | block {body body' : List Stmt} (token : Token) (h : Alike body body') :
      Alike (Block.mk token body) (Block.mk token body')
  | presentBlock {block block' : Block} (h : Alike block block') : Alike (some block) (some block')
  | clause {values values' : List Expr} {body body' : Block} (token : Token) (isDefault : Bool)
      (hvalues : Alike values values') (hbody : Alike body body') :
      Alike (CaseClause.mk token isDefault values body)
        (CaseClause.mk token isDefault values' body')
  | clauses {clause clause' : CaseClause} {rest rest' : List CaseClause}
      (hclause : Alike clause clause') (hrest : Alike rest rest') :
      Alike (clause :: rest) (clause' :: rest')
  | matchCase {pattern pattern' : Expr} {guard guard' : Option Expr} {body body' : Block}
      (token : Token) (hpattern : Alike pattern pattern') (hguard : Alike guard guard')
      (hbody : Alike body body') :
      Alike (MatchCase.mk token pattern guard body) (MatchCase.mk token pattern' guard' body')
  | matchCases {each each' : MatchCase} {rest rest' : List MatchCase} (heach : Alike each each')
      (hrest : Alike rest rest') : Alike (each :: rest) (each' :: rest')
  | declaration {value value' : Expr} (token : Token) (name : Identifier) (constant : Bool)
      (h : Alike value value') :
      Alike (Stmt.declaration token name constant value) (.declaration token name constant value')
  | returning {value value' : Option Expr} (token : Token) (h : Alike value value') :
      Alike (Stmt.returning token value) (.returning token value')
  | blockStmt {inner inner' : Block} (h : Alike inner inner') :
      Alike (Stmt.block inner) (.block inner')
  | enumeration {members members' : List (Identifier × Expr)} (token : Token) (name : Identifier)
      (h : Alike members members') :
      Alike (Stmt.enumeration token name members) (.enumeration token name members')
  | declarative {value value' : Expr} (token : Token) (word : Declarative)
      (h : Alike value value') :
      Alike (Stmt.declarative token word value) (.declarative token word value')
  | go {value value' : Expr} (token : Token) (h : Alike value value') :
      Alike (Stmt.go token value) (.go token value')
  | expression {value value' : Expr} (token : Token) (h : Alike value value') :
      Alike (Stmt.expression token value) (.expression token value')
  | statements {statement statement' : Stmt} {rest rest' : List Stmt}
      (hstatement : Alike statement statement') (hrest : Alike rest rest') :
      Alike (statement :: rest) (statement' :: rest')
  | member {value value' : Expr} {rest rest' : List (Identifier × Expr)} (name : Identifier)
      (hvalue : Alike value value') (hrest : Alike rest rest') :
      Alike ((name, value) :: rest) ((name, value') :: rest')

namespace Expr

/-- In a list, an expression is alike to its items. -/
theorem alike_items (e : Expr) (rest : List Expr) : Alike (e :: rest) (e.items ++ rest) := by
  rcases items_eq e with ⟨-, hitems⟩ | ⟨token, first, next, names, himport, hitems⟩
  · rw [hitems]
    exact .refl _
  · have hsplit := (List.dropLast_append_getLast (List.cons_ne_nil next names)).symm
    rw [hsplit] at himport
    rw [hitems, itemsBehind_eq _ _ _ hsplit, List.cons_append, List.append_assoc]
    exact .names rest himport

/-- A call is alike to the expression with the arguments behind it. -/
theorem alike_applied (e : Expr) (values : List Expr) :
    Alike (call default e values) (e.applied values) := by
  fun_cases applied values e with
  | case1 dot object name => exact .callee ..
  | case2 word size => exact .sized ..
  | case3 => exact .refl _
  | case4 => exact .refl _

end Expr

/-! ## Regrouping forgets the changes -/

mutual

/-- Without tokens, an expression is alike to what is shown of it. -/
theorem Expr.alike_shown : (e : Expr) → Alike e.erase e.shown
  | .identifier _ | .integer _ _ | .float _ _ | .string _ _ | .boolean _ _ | .null _ | .receiver _
  | .spread _ _ | .step _ _ | .channel _ none | .importing _ _ => .refl _
  | .array _ elements => .array default (Expr.alike_shownEach elements)
  | .dict _ pairs => .dict default (Expr.alike_shownPairs pairs)
  | .arrayPattern _ elements rest =>
    (Alike.arrayPattern default _ (Expr.alike_shownEach elements)).trans (.pattern default _ _)
  | .unary _ operator right => .unary default operator right.alike_shown
  | .binary _ left operator right => .binary default operator left.alike_shown right.alike_shown
  | .range _ start stop => .range default start.alike_shown stop.alike_shown
  | .assign _ _ value => .assign default _ value.alike_shown
  | .compoundAssign _ _ operator value => .compoundAssign default _ operator value.alike_shown
  | .indexAssign _ target operator value =>
    .indexAssign default operator target.alike_shown value.alike_shown
  | .propertyAssign _ _ object _ operator value =>
    .propertyAssign default default _ operator object.alike_shown value.alike_shown
  | .call _ function arguments =>
    (Alike.call default function.alike_shown (Expr.alike_shownEach arguments)).trans
      (Expr.alike_applied _ _)
  | .index _ left position => .index default left.alike_shown position.alike_shown
  | .slice _ left start stop =>
    .slice default left.alike_shown (Expr.alike_shown? start) (Expr.alike_shown? stop)
  | .property _ object _ => .property default _ object.alike_shown
  | .method _ object _ arguments =>
    .method default _ object.alike_shown (Expr.alike_shownEach arguments)
  | .conditional _ condition consequence alternative =>
    .conditional default condition.alike_shown consequence.alike_shown
      (Block.alike_shown? alternative)
  | .whileLoop _ condition body => .whileLoop default condition.alike_shown body.alike_shown
  | .forLoop _ _ _ iterable body => .forLoop default _ _ iterable.alike_shown body.alike_shown
  | .repeatLoop _ counter count body =>
    .repeatLoop default counter count.alike_shown body.alike_shown
  | .switch _ subject clauses =>
    .switch default subject.alike_shown (CaseClause.alike_shownEach clauses)
  | .matching _ subject cases =>
    .matching default subject.alike_shown (MatchCase.alike_shownEach cases)
  | .function async _ _ _ defaults body =>
    .function async default _ _ (Expr.alike_shownDefaults defaults) body.alike_shown
  | .await _ value => .await default value.alike_shown
  | .channel _ (some size) => by
    have hsize : Alike (Expr.channel default (some size.erase))
      (.channel default (some size.shown)) :=
      .channel default (.present size.alike_shown)
    have hcall : Alike (Expr.call default (.channel default none) [size.shown])
        (.call default (.channel default none) size.shown.items) := by
      have hitems := size.shown.alike_items []
      rw [List.append_nil] at hitems
      exact .call default (.refl _) hitems
    exact hsize.trans ((Alike.sized default default _).symm.trans
      (hcall.trans (Expr.alike_applied _ _)))
  | .package _ _ body => .package default _ body.alike_shown
termination_by structural tree => tree

/-- Expressions are alike to what is shown of them. -/
theorem Expr.alike_shownEach : (es : List Expr) → Alike (Expr.eraseEach es) (Expr.shownEach es)
  | [] => .refl _
  | e :: es =>
    (Alike.item e.alike_shown (Expr.alike_shownEach es)).trans (Expr.alike_items _ _)
termination_by structural trees => trees

/-- Pairs are alike to what is shown of them. -/
theorem Expr.alike_shownPairs : (pairs : List (Expr × Expr)) →
    Alike (Expr.mapTokensPairs (fun _ => default) pairs)
      (Expr.regroupPairs (Expr.mapTokensPairs (fun _ => default) pairs))
  | [] => .refl _
  | (key, value) :: pairs => .pair key.alike_shown value.alike_shown (Expr.alike_shownPairs pairs)
termination_by structural trees => trees

/-- Defaults are alike to what is shown of them. -/
theorem Expr.alike_shownDefaults : (defaults : List (String × Expr)) →
    Alike (Expr.mapTokensDefaults (fun _ => default) defaults)
      (Expr.regroupDefaults (Expr.mapTokensDefaults (fun _ => default) defaults))
  | [] => .refl _
  | (name, value) :: defaults =>
    .defaultValue name value.alike_shown (Expr.alike_shownDefaults defaults)
termination_by structural trees => trees

/-- An expression that may be missing is alike to what is shown of it. -/
theorem Expr.alike_shown? : (e : Option Expr) → Alike (Expr.erase? e) (Expr.shown? e)
  | none => .refl _
  | some e => .present e.alike_shown
termination_by structural tree => tree

/-- A block is alike to what is shown of it. -/
theorem Block.alike_shown : (b : Block) → Alike (b.mapTokens fun _ => default) b.shown
  | ⟨_, body⟩ => .block default (Stmt.alike_shownEach body)
termination_by structural tree => tree

/-- A block that may be missing is alike to what is shown of it. -/
theorem Block.alike_shown? : (b : Option Block) →
    Alike (Block.mapTokens? (fun _ => default) b)
      (Block.regroup? (Block.mapTokens? (fun _ => default) b))
  | none => .refl _
  | some b => .presentBlock b.alike_shown
termination_by structural tree => tree

/-- A clause is alike to what is shown of it. -/
theorem CaseClause.alike_shown : (c : CaseClause) → Alike (c.mapTokens fun _ => default) c.shown
  | ⟨_, isDefault, values, body⟩ =>
    .clause default isDefault (Expr.alike_shownEach values) body.alike_shown
termination_by structural tree => tree

/-- Clauses are alike to what is shown of them. -/
theorem CaseClause.alike_shownEach : (clauses : List CaseClause) →
    Alike (CaseClause.mapTokensEach (fun _ => default) clauses)
      (CaseClause.regroupEach (CaseClause.mapTokensEach (fun _ => default) clauses))
  | [] => .refl _
  | c :: clauses => .clauses c.alike_shown (CaseClause.alike_shownEach clauses)
termination_by structural trees => trees

/-- A case is alike to what is shown of it. -/
theorem MatchCase.alike_shown : (c : MatchCase) → Alike (c.mapTokens fun _ => default) c.shown
  | ⟨_, pattern, guard, body⟩ =>
    .matchCase default pattern.alike_shown (Expr.alike_shown? guard) body.alike_shown
termination_by structural tree => tree

/-- Cases are alike to what is shown of them. -/
theorem MatchCase.alike_shownEach : (cases : List MatchCase) →
    Alike (MatchCase.mapTokensEach (fun _ => default) cases)
      (MatchCase.regroupEach (MatchCase.mapTokensEach (fun _ => default) cases))
  | [] => .refl _
  | c :: cases => .matchCases c.alike_shown (MatchCase.alike_shownEach cases)
termination_by structural trees => trees

/-- A statement is alike to what is shown of it. -/
theorem Stmt.alike_shown : (s : Stmt) → Alike (s.mapTokens fun _ => default) s.shown
  | .breaking _ | .continuing _ | .including _ _ _ | .errorDeclaration _ _ _ => .refl _
  | .declaration _ _ constant value => .declaration default _ constant value.alike_shown
  | .returning _ value => .returning default (Expr.alike_shown? value)
  | .block inner => .blockStmt inner.alike_shown
  | .enumeration _ _ members => .enumeration default _ (Stmt.alike_shownMembers members)
  | .declarative _ word value => .declarative default word value.alike_shown
  | .go _ expression => .go default expression.alike_shown
  | .expression _ expression => .expression default expression.alike_shown
termination_by structural tree => tree

/-- Statements are alike to what is shown of them. -/
theorem Stmt.alike_shownEach : (body : List Stmt) →
    Alike (Stmt.mapTokensEach (fun _ => default) body)
      (Stmt.regroupEach (Stmt.mapTokensEach (fun _ => default) body))
  | [] => .refl _
  | s :: body => .statements s.alike_shown (Stmt.alike_shownEach body)
termination_by structural trees => trees

/-- The members of an enumeration are alike to what is shown of them. -/
theorem Stmt.alike_shownMembers : (members : List (Identifier × Expr)) →
    Alike (Stmt.mapTokensMembers (fun _ => default) members)
      (Stmt.regroupMembers (Stmt.mapTokensMembers (fun _ => default) members))
  | [] => .refl _
  | (_, value) :: members => .member _ value.alike_shown (Stmt.alike_shownMembers members)
termination_by structural trees => trees

end

end ScriptFront
