import ScriptFront.Proofs.Parser.Calls
import ScriptFront.Proofs.Tree.Leaves

/-!
# What a step applies to

`x++` is read as two expressions: the operator is an expression of its own, and of what it applies
to it keeps the token before it. The rule looks at the kind of that token only. What the token ends
is known from the calls: behind the last token of an expression that is no step it is asked how the
expression goes on.

* `Expr.isPlace`, `Expr.resemblesPlace` — what a step can apply to, and what ends like it;
  `Expr.EndsOn` says on which token.
* `Parser.Stepped`, `Parser.Supported` — a step is read on the token at hand; an expression of these
  forms ends right before it.
* `Backed` — all steps among the nodes and the calls are supported, but those that are excused.
* `Standing`, `Complete` — so would be one on the next token.
* `support` — the promise that the answers to all goals are backed.
* `Rule.Backs`, `Rule.Stands` — what a plan gives while the promise is kept.
-/

namespace ScriptFront

/-- Tokens of the kind may stand before an operator that applies to the token before it. -/
def Kind.EndsPlace (kind : Kind) : Prop :=
  kind = .identifier ∨ kind = .closeBracket

instance : DecidablePred Kind.EndsPlace :=
  fun kind => inferInstanceAs (Decidable (kind = .identifier ∨ kind = .closeBracket))

namespace Expr

/-- A step. -/
def isStep : Expr → Bool
  | .step _ _ => true
  | _ => false

/-- A name, an index or a member access. -/
def isPlace : Expr → Bool
  | .identifier _ | .index _ _ _ | .property _ _ _ => true
  | _ => false

/-- The other expressions that end on a closing bracket or a name of their own. -/
def resemblesPlace : Expr → Bool
  | .array _ _ | .slice _ _ _ _ | .spread _ _ | .importing _ _ => true
  | _ => false

/-- The expression has one of these forms, and the token is its last one. The tree keeps no closing
brackets, and of the names of an import each once only, so that these are told by their kind. -/
def EndsOn (token : Token) : Expr → Prop
  | .identifier id | .property _ _ id | .spread _ id => token = id.token
  | .array _ _ | .index _ _ _ | .slice _ _ _ _ => token.kind = .closeBracket
  | .importing _ _ => token.kind = .identifier
  | _ => False

/-- What ends on a name or a closing bracket is a place or resembles one. -/
theorem EndsOn.isPlace_or {token : Token} {e : Expr} (h : e.EndsOn token) :
    e.isPlace = true ∨ e.resemblesPlace = true := by
  cases e with
  | identifier | index | property => exact .inl rfl
  | array | slice | spread | importing => exact .inr rfl
  | _ => exact False.elim h

/-- An expression is one of its nodes. -/
theorem mem_nodes_self (e : Expr) : e ∈ e.nodes := by
  cases e <;> exact List.mem_cons_self

end Expr

/-! ## Steps and what supports them -/

namespace Parser

/-- The step that the operator at hand makes. -/
def step (p : Parser) : Expr :=
  .step p.window.previous p.window.current.value

/-- A call asks for an expression on an operator that applies to the token before it. -/
def Stepped (calls : List Call) (r : Parser) : Prop :=
  ∃ power, ⟨.expr power, r⟩ ∈ calls ∧ Grammar.standard.trailing r.kind = true

/-- Among the calls, it is asked right before the token at hand how an expression goes on, which is
among the nodes and ends there. -/
def Supported (nodes : List Expr) (calls : List Call) (r : Parser) : Prop :=
  ∃ power e q, ⟨.links power e, q⟩ ∈ calls ∧ q.advance = r ∧ e.EndsOn q.window.current ∧ e ∈ nodes

/-- A step on the token at hand of the parser applies to what lies before it. -/
def At (p r : Parser) : Prop :=
  r = p ∧ p.window.previous.kind.EndsPlace

/-- No step is excused. -/
def Never (_ : Parser) : Prop :=
  False

variable {nodes others : List Expr} {calls more : List Call} {r : Parser}

/-- A step that is among the calls stays among more of them. -/
theorem Stepped.mono (h : Stepped calls r) (hcalls : calls ⊆ more) : Stepped more r := by
  obtain ⟨power, hcall, hkind⟩ := h
  exact ⟨power, hcalls hcall, hkind⟩

/-- What is supported stays so with more nodes and more calls. -/
theorem Supported.mono (h : Supported nodes calls r) (hnodes : nodes ⊆ others)
    (hcalls : calls ⊆ more) : Supported others more r := by
  obtain ⟨power, e, q, hcall, hnext, hends, hmem⟩ := h
  exact ⟨power, e, q, hcalls hcall, hnext, hends, hnodes hmem⟩

/-- An expression of another form supports no step. -/
theorem Supported.of_cons {e : Expr} (h : Supported (e :: nodes) calls r)
    (he : ∀ token, ¬ e.EndsOn token) : Supported nodes calls r := by
  obtain ⟨power, other, q, hcall, hnext, hends, hmem⟩ := h
  rcases List.mem_cons.1 hmem with rfl | hmem
  · exact absurd hends (he _)
  · exact ⟨power, other, q, hcall, hnext, hends, hmem⟩

/-- A step that is among calls is among the first ones or among the others. -/
theorem stepped_append :
    Stepped (calls ++ more) r ↔ Stepped calls r ∨ Stepped more r := by
  simp only [Stepped, List.mem_append, or_and_right, exists_or]

end Parser

open ScriptFront.Parser

/-- All steps among the nodes were read, and all that were read are supported or excused; a step
among the nodes is supported by one of them. -/
structure Backed (excused : Parser → Prop) (nodes : List Expr) (calls : List Call) : Prop where
  node : ∀ e ∈ nodes, e.isStep = true →
    ∃ r, Stepped calls r ∧ e = r.step ∧ (excused r ∨ Supported nodes calls r)
  call : ∀ r, Stepped calls r → excused r ∨ ∃ others, Supported others calls r

/-- A step on the next token would be supported too. -/
structure Standing (excused : Parser → Prop) (nodes : List Expr) (calls : List Call)
    (p : Parser) : Prop extends Backed excused nodes calls where
  ends : p.kind.EndsPlace → excused p.advance ∨ Supported nodes calls p.advance

/-- The same of a single expression, which may itself be what supports the step. -/
structure Complete (excused : Parser → Prop) (e : Expr) (calls : List Call) (p : Parser) : Prop
    extends Backed excused e.nodes calls where
  ends : p.kind.EndsPlace →
    e.EndsOn p.window.current ∨ excused p.advance ∨ Supported e.nodes calls p.advance

variable {excused excused' : Parser → Prop} {nodes others : List Expr} {calls more : List Call}
  {p q : Parser} {e : Expr}

namespace Backed

/-- Without nodes and calls, there is no step to support. -/
theorem nil : Backed excused [] [] where
  node _ hmem := absurd hmem List.not_mem_nil
  call _ h := by
    obtain ⟨_, hcall, -⟩ := h
    exact absurd hcall List.not_mem_nil

/-- Without nodes and calls, nothing needs an excuse. -/
theorem none : Backed Never [] [] :=
  nil

/-- One part after another: what the second part excuses is excused before, or supported. -/
theorem append (h₁ : Backed excused nodes calls) (h₂ : Backed excused' others more)
    (hmeet : ∀ r, excused' r → excused r ∨ Supported nodes calls r) :
    Backed excused (nodes ++ others) (calls ++ more) := by
  have hleft := List.subset_append_left calls more
  have hright := List.subset_append_right calls more
  have hfirst := List.subset_append_left nodes others
  constructor
  · intro e hmem hstep
    rcases List.mem_append.1 hmem with hmem | hmem
    · obtain ⟨r, hr, he, h⟩ := h₁.node e hmem hstep
      exact ⟨r, hr.mono hleft, he, h.imp_right fun h => h.mono hfirst hleft⟩
    · obtain ⟨r, hr, he, h⟩ := h₂.node e hmem hstep
      refine ⟨r, hr.mono hright, he, ?_⟩
      rcases h with h | h
      · exact (hmeet r h).imp_right fun h => h.mono hfirst hleft
      · exact .inr (h.mono (List.subset_append_right _ _) hright)
  · intro r hr
    rcases stepped_append.1 hr with hr | hr
    · exact (h₁.call r hr).imp_right fun ⟨others, h⟩ => ⟨others, h.mono (List.Subset.refl _) hleft⟩
    · rcases h₂.call r hr with h | ⟨others, h⟩
      · exact (hmeet r h).imp_right fun h => ⟨nodes, h.mono (List.Subset.refl _) hleft⟩
      · exact .inr ⟨others, h.mono (List.Subset.refl _) hright⟩

/-- The second part excuses nothing. -/
theorem both (h₁ : Backed excused nodes calls) (h₂ : Backed Never others more) :
    Backed excused (nodes ++ others) (calls ++ more) :=
  h₁.append h₂ fun _ hr => False.elim hr

/-- Further nodes, none of them a step. -/
theorem of_nodes (h : Backed excused nodes calls) (hnodes : nodes ⊆ others)
    (hsteps : ∀ e ∈ others, e.isStep = true → e ∈ nodes) : Backed excused others calls := by
  refine ⟨fun e hmem hstep => ?_, h.call⟩
  obtain ⟨r, hr, he, hsupported⟩ := h.node e (hsteps e hmem hstep) hstep
  exact ⟨r, hr, he, hsupported.imp_right fun h => h.mono hnodes (List.Subset.refl _)⟩

/-- A further node that is no step is backed with the others. -/
theorem cons (h : Backed excused nodes calls) (he : e.isStep = false) :
    Backed excused (e :: nodes) calls := by
  refine h.of_nodes (List.subset_cons_self _ _) fun other hmem hstep => ?_
  rcases List.mem_cons.1 hmem with rfl | hmem
  · rw [he] at hstep
    cases hstep
  · exact hmem

/-- A node on which nothing ends is needed for no support. -/
theorem of_cons (h : Backed excused (e :: nodes) calls) (he : ∀ token, ¬ e.EndsOn token) :
    Backed excused nodes calls := by
  refine ⟨fun other hmem hstep => ?_, h.call⟩
  obtain ⟨r, hr, hother, hsupported⟩ := h.node other (List.mem_cons_of_mem _ hmem) hstep
  exact ⟨r, hr, hother, hsupported.imp_right fun h => h.of_cons he⟩

/-- A call that is not for an expression. -/
theorem calling {goal : Goal} (hgoal : ∀ power, goal ≠ .expr power) :
    Backed excused [] [⟨goal, p⟩] where
  node _ hmem := absurd hmem List.not_mem_nil
  call r h := by
    obtain ⟨power, hcall, -⟩ := h
    cases List.mem_singleton.1 hcall
    exact absurd rfl (hgoal power)

/-- Behind such a call. -/
theorem behind {goal : Goal} (hgoal : ∀ power, goal ≠ .expr power)
    (h : Backed excused nodes calls) : Backed excused nodes (⟨goal, p⟩ :: calls) :=
  (calling hgoal).append h fun _ => .inl

/-- On a token that no place ends on, nothing is excused. -/
theorem of_kind (h : Backed (At p.advance) nodes calls) (hkind : ¬ p.kind.EndsPlace) :
    Backed excused nodes calls := by
  have hnever : ∀ r, ¬ At p.advance r := fun r hr => hkind hr.2
  refine ⟨fun e hmem hstep => ?_, fun r hr => ?_⟩
  · obtain ⟨r, hr, he, h⟩ := h.node e hmem hstep
    exact ⟨r, hr, he, .inr (h.resolve_left (hnever r))⟩
  · exact .inr ((h.call r hr).resolve_left (hnever r))

/-- Where no place ends on the token at hand, no step can follow. -/
theorem standing (h : Backed excused nodes calls) (hkind : ¬ p.kind.EndsPlace) :
    Standing excused nodes calls p :=
  ⟨h, fun hends => absurd hends hkind⟩

/-- Calls that are backed for themselves, behind other ones or before them. -/
theorem calls_append (h : Backed excused nodes calls) (hmore : Backed Never [] more) :
    Backed excused nodes (calls ++ more) := by
  have hall := h.both hmore
  rwa [List.append_nil] at hall

/-- Calls are backed whatever becomes of the nodes. -/
theorem calls_only (h : Backed excused nodes calls) : Backed excused [] calls :=
  ⟨fun _ hmem => absurd hmem List.not_mem_nil, h.call⟩

end Backed

namespace Standing

/-- The beginning of a part behind the token at hand. -/
theorem start : Standing (At p.advance) [] [] p :=
  ⟨.nil, fun hends => .inl ⟨rfl, hends⟩⟩

/-- A step that the next part excuses is excused before, or supported. -/
theorem meets (h : Standing excused nodes calls p) (r : Parser) (hr : At p.advance r) :
    excused r ∨ Supported nodes calls r := by
  obtain ⟨rfl, hkind⟩ := hr
  exact h.ends hkind

/-- Two parts one after the other stand: what the second excuses, the first supports. -/
theorem append (h₁ : Standing excused nodes calls p) (h₂ : Standing (At p.advance) others more q) :
    Standing excused (nodes ++ others) (calls ++ more) q := by
  refine ⟨h₁.toBacked.append h₂.toBacked h₁.meets, fun hends => ?_⟩
  rcases h₂.ends hends with hat | hsupported
  · exact (h₁.meets _ hat).imp_right fun h =>
      h.mono (List.subset_append_left _ _) (List.subset_append_left _ _)
  · exact .inr (hsupported.mono (List.subset_append_right _ _) (List.subset_append_right _ _))

/-- Putting a node that is no step in front changes nothing. -/
theorem cons (h : Standing excused nodes calls p) (he : e.isStep = false) :
    Standing excused (e :: nodes) calls p :=
  ⟨h.toBacked.cons he, fun hends =>
    (h.ends hends).imp_right fun h => h.mono (List.subset_cons_self _ _) (List.Subset.refl _)⟩

/-- Nothing that ends on a token is lost with a node on which nothing ends. -/
theorem of_cons (h : Standing excused (e :: nodes) calls p) (he : ∀ token, ¬ e.EndsOn token) :
    Standing excused nodes calls p :=
  ⟨h.toBacked.of_cons he, fun hends => (h.ends hends).imp_right fun h => h.of_cons he⟩

/-- A call that is not for an expression may stand in front. -/
theorem behind {goal : Goal} (hgoal : ∀ power, goal ≠ .expr power)
    (h : Standing excused nodes calls q) : Standing excused nodes (⟨goal, p⟩ :: calls) q :=
  ⟨h.toBacked.behind hgoal, fun hends => (h.ends hends).imp_right fun h =>
    h.mono (List.Subset.refl _) (List.subset_cons_self _ _)⟩

/-- On a token that no place ends on, nothing is excused. -/
theorem of_kind (h : Standing (At p.advance) nodes calls q) (hkind : ¬ p.kind.EndsPlace) :
    Standing excused nodes calls q :=
  ⟨h.toBacked.of_kind hkind, fun hends => .inr ((h.ends hends).resolve_left fun hat => hkind hat.2)⟩

/-- What supports a step on the next token among its nodes is complete. -/
theorem complete (h : Standing excused e.nodes calls p) : Complete excused e calls p :=
  ⟨h.toBacked, fun hends => .inr (h.ends hends)⟩

end Standing

namespace Complete

/-- An expression that supports a step itself, unless none can be read behind it. -/
theorem of_backed (h : Backed excused e.nodes calls)
    (hends : p.kind.EndsPlace → e.EndsOn p.window.current) :
    Complete excused e calls p :=
  ⟨h, fun hkind => .inl (hends hkind)⟩

/-- A complete expression stays so behind calls that are backed. -/
theorem append (h₁ : Backed excused [] calls) (h₂ : Complete Never e more q) :
    Complete excused e (calls ++ more) q := by
  refine ⟨h₁.both h₂.toBacked, fun hends => ?_⟩
  rcases h₂.ends hends with hends | hnever | hsupported
  · exact .inl hends
  · exact False.elim hnever
  · exact .inr (.inr (hsupported.mono (List.Subset.refl _) (List.subset_append_right _ _)))

/-- Asked how it goes on, the expression supports a step on the next token. -/
theorem standing {power : Power} (h : Complete excused e calls p) :
    Standing excused e.nodes (calls ++ [⟨.links power e, p⟩]) p := by
  have hcall : Backed excused [] [⟨.links power e, p⟩] := .calling (by simp)
  have hall := h.toBacked.append hcall fun _ => .inl
  rw [List.append_nil] at hall
  refine ⟨hall, fun hends => ?_⟩
  rcases h.ends hends with hends | hexcused | hsupported
  · exact .inr ⟨power, e, p, by simp, rfl, hends, e.mem_nodes_self⟩
  · exact .inl hexcused
  · exact .inr (hsupported.mono (List.Subset.refl _) (List.subset_append_left _ _))

end Complete

/-! ## The promise -/

/-- The calls are backed, and so is each default for itself: a function drops some of them. -/
def DefaultsBacked (parameters : List Parameter) (calls : List Call) : Prop :=
  Backed Never [] calls ∧
    ∀ parameter ∈ parameters, ∀ value ∈ parameter.2, Backed Never value.nodes calls

/-- What is promised of the answer to each goal. An expression, a pattern, a statement and the
statements of a block take in the token at hand, so that a step there is excused; all other parts
begin behind it. Behind a rest element no items of a pattern are found. -/
def support : Promise
  | .expr _, p, e, q, calls => Standing (At p) e.nodes calls q
  | .links _ left, p, whole, q, calls =>
    ∀ excused before, Complete excused left before p →
      Standing excused whole.nodes (before ++ calls) q
  | .list close, p, elements, q, calls =>
    Backed (At p.advance) (Leafy.nodes elements) calls ∧ q.kind = close
  | .listTail _, p, elements, q, calls => Standing (At p.advance) (Leafy.nodes elements) calls q
  | .pairs, p, entries, q, calls =>
    Backed (At p.advance) (Leafy.nodes entries) calls ∧ q.window.peek.kind = .closeCurly
  | .conditional, p, e, q, calls => Standing (At p.advance) e.nodes calls q
  | .clauses, p, cases, q, calls =>
    Backed (At p.advance) (Leafy.nodes cases) calls ∧ q.window.peek.kind = .closeCurly
  | .caseValues, p, values, q, calls => Standing (At p.advance) (Leafy.nodes values) calls q
  | .matchCases, p, cases, q, calls =>
    Backed (At p.advance) (Leafy.nodes cases) calls ∧ q.window.peek.kind = .closeCurly
  | .pattern, p, e, _, calls => Backed (At p) e.nodes calls
  | .patternItems restSeen, p, items, _, calls =>
    restSeen = false ∧ Backed (At p.advance) (Leafy.nodes items) calls
  | .parameters _, _, declared, _, calls => DefaultsBacked declared calls
  | .names, _, _, q, calls => Backed Never [] calls ∧ q.kind = .identifier
  | .members, p, entries, q, calls =>
    Backed (At p.advance) (Leafy.nodes entries) calls ∧ q.window.peek.kind = .closeCurly
  | .stmt, p, statement, q, calls => Standing (At p) statement.nodes calls q
  | .statements, p, body, q, calls =>
    Backed (At p) (Leafy.nodes body) calls ∧ q.kind = .closeCurly

namespace Rule

variable {α β : Type} {before : List Call} {post : α → Parser → List Call → Prop}

/-- Wherever it starts, the plan begins behind a token that no place ends on, and its value is
backed. -/
def Backs [Leafy α] (rule : Rule α) : Prop :=
  ∀ p, rule.Delivers support (fun value _ calls => Backed Never (Leafy.nodes value) calls)
    [] p

/-- Wherever it starts, the value of the plan is backed, and a step behind it would be. -/
def Stands [Leafy α] (rule : Rule α) : Prop :=
  ∀ p, rule.Delivers support
    (fun value q calls => Standing (At p.advance) (Leafy.nodes value) calls q) [] p

/-! ### Plans one after another -/

section Sequence

variable [Leafy β] {rule : Rule β} {f : β → Rule α}

/-- A plan that stands is put behind what stands. -/
theorem Stands.bind (h : rule.Stands) (hbefore : Standing excused nodes before p)
    (hnext : ∀ value q calls, Standing excused (nodes ++ Leafy.nodes value) calls q →
      (f value).Delivers support post calls q) :
    (rule >>= f).Delivers support post before p :=
  (h p).seq fun value q _ hvalue => hnext value q _ (hbefore.append hvalue)

/-- A plan that needs no excuse is put behind what is backed. -/
theorem Backs.bind (h : rule.Backs) (hbefore : Backed excused nodes before)
    (hnext : ∀ value q calls, Backed excused (nodes ++ Leafy.nodes value) calls →
      (f value).Delivers support post calls q) :
    (rule >>= f).Delivers support post before p :=
  (h p).seq fun value q _ hvalue => hnext value q _ (hbefore.both hvalue)

/-- A plan that is the last one. -/
theorem Stands.last {post : β → Parser → List Call → Prop} (h : rule.Stands)
    (hbefore : Standing excused nodes before p)
    (hpost : ∀ value q calls, Standing excused (nodes ++ Leafy.nodes value) calls q →
      post value q calls) : rule.Delivers support post before p :=
  (h p).behind fun value q _ hvalue => hpost value q _ (hbefore.append hvalue)

/-- A plan without a value leaves the nodes as they are. -/
theorem Stands.andThen {rule : Rule Unit} {f : Unit → Rule α} (h : rule.Stands)
    (hbefore : Standing excused nodes before p)
    (hnext : ∀ q calls, Standing excused nodes calls q → (f ()).Delivers support post calls q) :
    (rule >>= f).Delivers support post before p := by
  refine h.bind hbefore fun _ q calls hq => hnext q calls ?_
  simpa [Leafy.nodes] using hq

end Sequence

/-! ### Small plans -/

section Small

variable {kind : Kind}

/-- Behind a token that no place ends on, the plan goes on with all that was backed. -/
theorem delivers_next {next : Unit → Rule α} (h : Backed excused nodes before)
    (hpeek : p.window.peek.kind = kind) (hkind : ¬ kind.EndsPlace)
    (hnext : ∀ q, q.kind = kind → Standing excused nodes before q →
      (next ()).Delivers support post before q) :
    (advance >>= next).Delivers support post before p := by
  subst hpeek
  exact delivers_advance (hnext _ rfl (h.standing hkind))

/-- A token that no place ends on is taken, and a step may follow. -/
theorem delivers_thenExpect {next : Unit → Rule α} (h : Backed excused nodes before)
    (hkind : ¬ kind.EndsPlace)
    (hnext : ∀ q, q.kind = kind → Standing excused nodes before q →
      (next ()).Delivers support post before q) :
    (expect kind >>= next).Delivers support post before p := by
  refine delivers_expect fun hpeek => ?_
  subst hpeek
  exact hnext _ rfl (h.standing hkind)

/-- A step onto the next token if it is of the kind, and otherwise something else. -/
theorem delivers_ifNext {next : Unit → Rule α} {other : Rule α} (h : Backed excused nodes before)
    (hkind : ¬ kind.EndsPlace)
    (hnext : ∀ q, q.kind = kind → Standing excused nodes before q →
      (next ()).Delivers support post before q)
    (hother : other.Delivers support post before p) :
    (peekIs kind >>= fun is => if is = true then advance >>= next else other).Delivers support post
      before p :=
  delivers_ifPeek (fun hpeek => delivers_next h hpeek hkind hnext) hother

/-- A token that is asked for by kind stands, if no place ends on it. -/
theorem stands_expect (hkind : ¬ kind.EndsPlace) : (expect kind).Stands := by
  intro p
  change Delivers support _ (if _ then _ else _) [] p
  split
  · next hpeek =>
    subst hpeek
    exact Backed.standing .nil hkind
  · exact delivers_fail _

/-- A name is at hand when it is taken. -/
theorem delivers_name :
    expectIdentifier.Delivers support
      (fun name q calls => Backed Never (Leafy.nodes name) calls ∧ q.window.current = name.token ∧
        q.kind = .identifier) [] p :=
  delivers_expect fun hpeek => ⟨Backed.cons .nil rfl, rfl, hpeek⟩

/-- A name that is asked for is no step. -/
theorem backs_expectIdentifier : expectIdentifier.Backs :=
  fun _ => delivers_name.imp fun _ _ _ h => h.1

/-- A semicolon that may be taken stands. -/
theorem stands_skipSemicolon : skipSemicolon.Stands :=
  fun _ => delivers_ifNext .nil (by decide) (fun _ _ h => h) .start

/-- An expression that starts on the token at hand may be a step itself. -/
theorem delivers_expr {power : Power} {f : Expr → Rule α}
    (h : ∀ e q calls, Standing (At p) e.nodes calls q →
      (f e).Delivers support post (before ++ calls) q) :
    (expr power >>= f).Delivers support post before p :=
  h

/-- An expression that starts on the next token stands. -/
theorem stands_nextExpr : nextExpr.Stands :=
  fun _ => delivers_advance fun _ _ _ h => h

/-- The steps in a list are backed, and it ends on its closing bracket. -/
theorem delivers_list {close : Kind} :
    (list close).Delivers support
      (fun elements q calls => Backed (At p.advance) (Leafy.nodes elements) calls ∧ q.kind = close)
      [] p :=
  fun _ _ _ h => h

/-- A list stands, if no place ends on its closing bracket. -/
theorem stands_list {close : Kind} (hclose : ¬ close.EndsPlace) : (list close).Stands :=
  fun _ => delivers_list.imp fun _ _ _ h => h.1.standing (by rwa [h.2])

/-- A block ends on its closing brace. -/
theorem delivers_block :
    block.Delivers support
      (fun block q calls => Backed (At p.advance) block.nodes calls ∧ q.kind = .closeCurly) [] p :=
  fun _ _ _ h => h

/-- A block stands. -/
theorem stands_block : block.Stands :=
  fun _ => delivers_block.imp fun _ _ _ h => h.1.standing (by rw [h.2]; decide)

/-- The body of something stands behind its own brace, wherever that comes from. -/
theorem delivers_thenBody {f : Block → Rule α} (h : Backed excused nodes before)
    (hnext : ∀ body q calls, Standing excused (nodes ++ body.nodes) calls q →
      (f body).Delivers support post calls q) :
    (body >>= f).Delivers support post before p := by
  have hbody : body.Delivers support
      (fun body q calls => Backed Never body.nodes calls ∧ q.kind = .closeCurly) [] p := by
    refine delivers_expect fun hpeek => delivers_block.imp fun _ _ _ h => ⟨h.1.of_kind ?_, h.2⟩
    rw [show p.advance.kind = .openCurly from hpeek]
    decide
  refine hbody.seq fun body q _ hbody => hnext body q _ ((h.both hbody.1).standing ?_)
  rw [hbody.2]
  decide

end Small

end Rule

end ScriptFront
