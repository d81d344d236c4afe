import ScriptFront.Proofs.Parser.EndOfInput
import ScriptFront.Proofs.Parser.Gives
import ScriptFront.Proofs.Tree.Leaves

/-!
# Chains of operators

A chain is an operand and, behind it, any number of operators with an operand each. An operand is a
name with operators before it. The parser groups a chain by the powers of its operators, and to the
left where powers are equal.

* `Expr.ReadsAs` — from left to right, the tree is a given chain.
* `Expr.Grouped` — a node between two operands holds nothing weaker on its left, and only what is
  stronger on its right.
* `Operand.reads_tree` — an operand is read up to where the loop over operators goes on with it.
* `reads_links_of_grouped` — what the loop makes of the operations in front of it: it takes those
  that are stronger than its power and leaves the first one that is not.
* `chain_grouped` — the tree of every chain.
-/

namespace ScriptFront

open ScriptFront.Parser

/-! ## Chains -/

/-- A name with operators before it. -/
structure Operand where
  /-- The operators, in order. -/
  marks : List Token
  /-- The name. -/
  name : Token
  marks_kind : ∀ mark ∈ marks, mark.kind ∈ [Kind.not, .dash, .plus, .ampersand, .star]
  name_kind : name.kind = .identifier

/-- An operator between two operands, and the one behind it. -/
structure Operation where
  /-- The operator. -/
  operator : Token
  /-- What stands behind it. -/
  operand : Operand
  linking : Grammar.standard.linking operator.kind = some .binary ∨
    Grammar.standard.linking operator.kind = some .range

/-- An operand and the operations on it. -/
structure Chain where
  /-- The first operand. -/
  first : Operand
  /-- The operations, in order. -/
  operations : List Operation

/-- The tokens of an operand. -/
def Operand.tokens (operand : Operand) : List Token :=
  operand.marks ++ [operand.name]

/-- The tokens of operations. -/
def Operation.tokensEach (operations : List Operation) : List Token :=
  operations.flatMap fun operation => operation.operator :: operation.operand.tokens

/-- The tokens of a chain. -/
def Chain.tokens (chain : Chain) : List Token :=
  chain.first.tokens ++ Operation.tokensEach chain.operations

/-- The power of the operator. -/
def Operation.power (operation : Operation) : Power :=
  Grammar.standard.powerOf operation.operator.kind

/-! ## Trees -/

/-- Each operator applied to all that stands behind it. -/
def tower (name : Token) : List Token → Expr
  | [] => .identifier (.ofToken name)
  | mark :: marks => .unary mark mark.value (tower name marks)

/-- The tree of an operand. -/
def Operand.tree (operand : Operand) : Expr :=
  tower operand.name operand.marks

/-- From left to right, the tree is the operand and the operations behind it. -/
inductive Expr.ReadsAs : Expr → Operand → List Operation → Prop
  | operand (first : Operand) : ReadsAs first.tree first []
  | binary {left right : Expr} {first : Operand} {operation : Operation}
      {before after : List Operation} (hleft : ReadsAs left first before)
      (hright : ReadsAs right operation.operand after)
      (hrule : Grammar.standard.linking operation.operator.kind = some .binary) :
      ReadsAs (.binary operation.operator left operation.operator.value right) first
        (before ++ operation :: after)
  | range {left right : Expr} {first : Operand} {operation : Operation}
      {before after : List Operation} (hleft : ReadsAs left first before)
      (hright : ReadsAs right operation.operand after)
      (hrule : Grammar.standard.linking operation.operator.kind = some .range) :
      ReadsAs (.range operation.operator left right) first (before ++ operation :: after)

/-- The power of a node between two operands. -/
def Expr.power? : Expr → Option Power
  | .binary token _ _ _ | .range token _ _ => some (Grammar.standard.powerOf token.kind)
  | _ => none

/-- A node between two operands holds nothing weaker than itself on its left, and only what is
stronger than itself on its right. -/
def Expr.Grouped : Expr → Prop
  | .binary token left _ right | .range token left right =>
    (∀ power ∈ left.power?, Grammar.standard.powerOf token.kind ≤ power) ∧
      ∀ power ∈ right.power?, Grammar.standard.powerOf token.kind < power
  | _ => True

/-- The tree of a part of a chain. -/
structure Expr.Groups (e : Expr) (first : Operand) (operations : List Operation) : Prop where
  readsAs : e.ReadsAs first operations
  grouped : ∀ node ∈ e.nodes, node.Grouped

variable {p q : Parser} {t u last : Token} {rest : List Token} {power : Power}
  {left right e : Expr} {first operand : Operand} {operation : Operation}
  {operations before after : List Operation}

/-- Operators in front of a name make no node between two operands. -/
@[simp] theorem power?_tower (name : Token) (marks : List Token) :
    (tower name marks).power? = none := by
  cases marks <;> rfl

/-- Every node of an operand is grouped. -/
theorem grouped_tower (name : Token) (marks : List Token) :
    ∀ node ∈ (tower name marks).nodes, node.Grouped := by
  induction marks with
  | nil =>
    intro node hnode
    rw [tower, Expr.nodes, List.mem_singleton] at hnode
    rw [hnode]
    trivial
  | cons mark marks ih =>
    intro node hnode
    rw [tower, Expr.nodes, List.mem_cons] at hnode
    obtain rfl | hnode := hnode
    · trivial
    · exact ih node hnode

/-- The tree of an operand is that of a chain without operations. -/
theorem Operand.groups (operand : Operand) : operand.tree.Groups operand [] :=
  ⟨.operand operand, grouped_tower operand.name operand.marks⟩

/-- An operator of a chain is stronger than nothing, and weaker than one before its operand. -/
theorem Operation.power_bounds (operation : Operation) :
    Power.default < operation.power ∧ ¬ Power.unary < operation.power := by
  have hall : ∀ kind : Kind, Grammar.standard.linking kind = some .binary ∨
      Grammar.standard.linking kind = some .range →
      Power.default < Grammar.standard.powerOf kind ∧
        ¬ Power.unary < Grammar.standard.powerOf kind := by
    intro kind
    cases kind <;> decide
  exact hall _ operation.linking

/-! ## Operands -/

/-- An operand is read up to where the loop over operators goes on with it. -/
theorem reads_tower {name : Token} (hname : name.kind = .identifier)
    (hstop : ¬ Power.unary < Grammar.standard.powerOf t.kind) {marks : List Token}
    (hmarks : ∀ mark ∈ marks, mark.kind ∈ [Kind.not, .dash, .plus, .ampersand, .star])
    (hp : p.Faces (marks ++ name :: t :: rest)) :
    ∃ q, q.Faces (name :: t :: rest) ∧ ∀ power value r,
      Reads (.links power (tower name marks)) q value r → Reads (.expr power) p value r := by
  induction marks generalizing p with
  | nil =>
    have htrailing : Grammar.standard.trailing name.kind = false := by rw [hname]; rfl
    have hrule : Grammar.standard.leading name.kind = some .name := by rw [hname]; rfl
    refine ⟨p, hp, fun power value r hlinks => ?_⟩
    exact reads_expr hp htrailing hrule (gives_name hp) hlinks
  | cons mark marks ih =>
    have hkind := hmarks mark List.mem_cons_self
    have hleading : ∀ kind ∈ [Kind.not, .dash, .plus, .ampersand, .star],
        Grammar.standard.trailing kind = false ∧
          Grammar.standard.leading kind = some .unary := by decide
    obtain ⟨htrailing, hrule⟩ := hleading mark.kind hkind
    have hnext : p.advance.Faces (marks ++ name :: t :: rest) :=
      Parser.Faces.advance hp (by simp; omega)
    obtain ⟨q, hq, hreads⟩ := ih (fun other h => hmarks other (List.mem_cons_of_mem _ h)) hnext
    -- what stands behind the name is too weak for the operator before it
    have hright := hreads .unary _ q (reads_links_stop hq hstop)
    refine ⟨q, hq, fun power value r hlinks => ?_⟩
    apply reads_expr hp htrailing hrule _ hlinks
    rw [tower, ← show p.window.current = mark from hp.current_eq]
    exact .look (.shift (.need hright .done))

/-- An operand is read up to where the loop over operators goes on with it. -/
theorem Operand.reads_tree (operand : Operand)
    (hstop : ¬ Power.unary < Grammar.standard.powerOf t.kind)
    (hp : p.Faces (operand.tokens ++ t :: rest)) :
    ∃ q, q.Faces (operand.name :: t :: rest) ∧ ∀ power value r,
      Reads (.links power operand.tree) q value r → Reads (.expr power) p value r := by
  rw [Operand.tokens, List.append_assoc, List.singleton_append] at hp
  exact reads_tower operand.name_kind hstop operand.marks_kind hp

/-! ## The loop over operators -/

/-- The node of an operation on two trees. -/
theorem Operation.reads_node (operation : Operation)
    (hp : p.Faces (last :: operation.operator :: rest)) (hpower : power < operation.power)
    (hright : Reads (.expr operation.power) p.advance.advance right q)
    (hleft : left.Groups first before) (hoperand : right.Groups operation.operand after)
    (hstronger : ∀ held ∈ left.power?, operation.power ≤ held)
    (hstrictly : ∀ held ∈ right.power?, operation.power < held) :
    ∃ whole : Expr, whole.Groups first (before ++ operation :: after) ∧
      whole.power? = some operation.power ∧
      ∀ value r, Reads (.links power whole) q value r → Reads (.links power left) p value r := by
  have hcurrent : p.advance.window.current = operation.operator := hp.peek_eq
  rw [Operation.power] at hright
  have hnodes : ∀ node ∈ left.nodes ++ right.nodes, node.Grouped := by
    intro node hnode
    rcases List.mem_append.1 hnode with h | h
    · exact hleft.grouped node h
    · exact hoperand.grouped node h
  rcases operation.linking with hrule | hrule
  · refine ⟨_, ⟨.binary hleft.readsAs hoperand.readsAs hrule, ?_⟩, rfl, fun value r hlinks => ?_⟩
    · rw [Expr.nodes]
      exact List.forall_mem_cons.2 ⟨⟨hstronger, hstrictly⟩, hnodes⟩
    · apply reads_links hp hpower hrule _ hlinks
      rw [← hcurrent] at hright ⊢
      exact .look (.shift (.need hright .done))
  · refine ⟨_, ⟨.range hleft.readsAs hoperand.readsAs hrule, ?_⟩, rfl, fun value r hlinks => ?_⟩
    · rw [Expr.nodes]
      exact List.forall_mem_cons.2 ⟨⟨hstronger, hstrictly⟩, hnodes⟩
    · apply reads_links hp hpower hrule _ hlinks
      rw [← hcurrent] at hright ⊢
      exact .look (.shift (.need hright .done))

/-- Behind an operand there is an operator of the chain, or what ends the chain. -/
theorem exists_tokensEach (hend : ¬ Power.default < Grammar.standard.powerOf t.kind)
    (operations : List Operation) (rest : List Token) :
    ∃ u more, Operation.tokensEach operations ++ t :: rest = u :: more ∧
      ¬ Power.unary < Grammar.standard.powerOf u.kind := by
  cases operations with
  | nil =>
    refine ⟨t, rest, rfl, fun hlt => hend ?_⟩
    exact Nat.lt_trans (show Power.default.rank < Power.unary.rank by decide) hlt
  | cons operation later => exact ⟨_, _, rfl, operation.power_bounds.2⟩

/-- What the loop over operators makes of the operations in front of it. Behind a tree that holds no
less than the first of them, it takes operations as long as they are stronger than the power, and
what it has made of them is stronger than the power too. -/
theorem reads_links_of_grouped (power : Power)
    (hend : ¬ Power.default < Grammar.standard.powerOf t.kind)
    (hp : p.Faces (last :: (Operation.tokensEach operations ++ t :: rest)))
    (hleft : left.Groups first before)
    (hfirst : ∀ operation ∈ operations.head?, ∀ held ∈ left.power?, operation.power ≤ held) :
    ∃ e taken remaining last' q, operations = taken ++ remaining ∧
      (∀ operation ∈ remaining.head?, operation.power ≤ power) ∧
      e.Groups first (before ++ taken) ∧ (e = left ∨ ∃ held, e.power? = some held ∧ power < held) ∧
      q.Faces (last' :: (Operation.tokensEach remaining ++ t :: rest)) ∧
      Reads (.links power left) p e q := by
  -- the right operand takes some of the later operations, and the loop goes on with the others
  induction hlength : operations.length using Nat.strong_induction_on
    generalizing operations power left first before p last with
  | _ length ih =>
    subst hlength
    cases operations with
    | nil =>
      have hstop : ¬ power < Grammar.standard.powerOf t.kind := fun hlt =>
        hend (Nat.lt_of_le_of_lt (Nat.zero_le power.rank) hlt)
      refine ⟨left, [], [], last, p, rfl, by simp, ?_, .inl rfl, hp, reads_links_stop hp hstop⟩
      rwa [List.append_nil]
    | cons operation later =>
      by_cases hpower : power < operation.power
      · obtain ⟨u, more, htail, hstop⟩ := exists_tokensEach hend later rest
        have htokens : Operation.tokensEach (operation :: later) ++ t :: rest =
            operation.operator :: (operation.operand.tokens ++ u :: more) := by
          rw [← htail, Operation.tokensEach, List.flatMap_cons, List.cons_append, List.cons_append,
            List.append_assoc]
          rfl
        rw [htokens] at hp
        have hoperator := hp.advance (by simp [Operand.tokens]; omega)
        have hoperand := hoperator.advance (by simp [Operand.tokens]; omega)
        obtain ⟨r, hr, hexpr⟩ := operation.operand.reads_tree hstop hoperand
        rw [← htail] at hr
        obtain ⟨right, taken, remaining, last', r', hlater, hweaker, hright, hstrictly, hr',
          hreads⟩ := ih later.length (by simp) operation.power hr
            operation.operand.groups (by simp [Operand.tree]) rfl
        have hheld : ∀ held ∈ right.power?, operation.power < held := by
          intro held hmem
          rcases hstrictly with rfl | ⟨_, hsome, hlt⟩
          · simp [Operand.tree] at hmem
          · rw [hsome] at hmem
            exact Option.some.inj hmem ▸ hlt
        obtain ⟨whole, hwhole, hwholePower, hlinks⟩ := operation.reads_node hp hpower
          (hexpr _ _ _ hreads) hleft hright (hfirst operation rfl) hheld
        have hshorter : remaining.length < (operation :: later).length := by
          rw [hlater]
          simp only [List.length_cons, List.length_append]
          omega
        obtain ⟨e, taken', remaining', last'', s, hremaining, hstops, he, hgrown, hs, hreads'⟩ :=
          ih remaining.length hshorter power hr' hwhole (by
            intro next hnext held hmem
            rw [hwholePower] at hmem
            exact Option.some.inj hmem ▸ hweaker next hnext) rfl
        refine ⟨e, operation :: (taken ++ taken'), remaining', last'', s, ?_, hstops, ?_, .inr ?_,
          hs, hlinks e s hreads'⟩
        · rw [hlater, hremaining, List.cons_append, List.append_assoc]
        · simpa using he
        · rcases hgrown with rfl | hgrown
          · exact ⟨_, hwholePower, hpower⟩
          · exact hgrown
      · refine ⟨left, [], operation :: later, last, p, rfl, ?_, ?_, .inl rfl, hp, ?_⟩
        · rintro next ⟨⟩
          exact Nat.not_lt.1 hpower
        · rwa [List.append_nil]
        · exact reads_links_stop hp hpower

/-! ## Programs -/

/-- The first token of an operand starts an expression statement. -/
theorem Operand.exists_tokens (operand : Operand) :
    ∃ t more, operand.tokens = t :: more ∧ t.kind ≠ .eof ∧
      Grammar.standard.statement t.kind = none := by
  obtain ⟨marks, name, hmarks, hname⟩ := operand
  cases marks with
  | nil =>
    refine ⟨name, [], rfl, ?_⟩
    rw [hname]
    decide
  | cons mark marks =>
    have hall : ∀ kind ∈ [Kind.not, .dash, .plus, .ampersand, .star],
        kind ≠ .eof ∧ Grammar.standard.statement kind = none := by decide
    exact ⟨mark, marks ++ [name], rfl, hall _ (hmarks mark List.mem_cons_self)⟩

/-- A chain up to an end of input is a program of one statement. -/
theorem Chain.parseTokens_eq (chain : Chain) (ht : t.kind = .eof) (rest : List Token) :
    ∃ token e, parseTokens (chain.tokens ++ t :: rest) = (⟨[some (.expression token e)]⟩, []) ∧
      e.Groups chain.first chain.operations := by
  obtain ⟨first, operations⟩ := chain
  have hend : ¬ Power.default < Grammar.standard.powerOf t.kind := by
    rw [ht]
    decide
  obtain ⟨u, more, htail, hstop⟩ := exists_tokensEach hend operations rest
  obtain ⟨token, later, hfirst, hstart, hstatement⟩ := first.exists_tokens
  have htokens : Chain.tokens ⟨first, operations⟩ ++ t :: rest = first.tokens ++ u :: more := by
    rw [Chain.tokens, List.append_assoc, htail]
  rw [htokens]
  have hp : (ofTokens (first.tokens ++ u :: more)).Faces (first.tokens ++ u :: more) :=
    faces_ofTokens (by simp [hfirst]; omega)
  obtain ⟨q, hq, hexpr⟩ := first.reads_tree hstop hp
  rw [← htail] at hq
  obtain ⟨e, taken, remaining, last, r, hoperations, hweaker, he, -, hr, hreads⟩ :=
    reads_links_of_grouped .default hend hq first.groups (by simp [Operand.tree])
  -- an operation that is left over would be weaker than nothing
  have hall : remaining = [] := by
    cases remaining with
    | nil => rfl
    | cons operation remaining =>
      exact absurd operation.power_bounds.1 (Nat.not_lt.2 (hweaker operation rfl))
  rw [hall, List.append_nil] at hoperations
  rw [hall] at hr
  have hpeek : r.window.peek.kind = .eof := (congrArg Token.kind hr.peek_eq).trans ht
  rw [hfirst, List.cons_append] at hp hexpr ⊢
  refine ⟨token, e, ?_, hoperations ▸ he⟩
  exact parseTokens_eq_of_reads_expr hp hstart hstatement (hexpr _ _ _ hreads) hpeek

/-- **Chains of operators are grouped by power, and to the left.** A chain of any length, at the end
of the list or up to an end of input, is parsed without a problem and gives one expression
statement. From left to right its tree is the chain, and each node between two operands holds
nothing weaker than itself on its left, and only what is stronger than itself on its right. -/
theorem chain_grouped (chain : Chain) (ending : List Token)
    (hending : ∀ t ∈ ending.head?, t.kind = .eof) :
    ∃ token e, parseTokens (chain.tokens ++ ending) = (⟨[some (.expression token e)]⟩, []) ∧
      e.ReadsAs chain.first chain.operations ∧ ∀ node ∈ e.nodes, node.Grouped := by
  obtain ⟨t, rest, ht, hparse⟩ := exists_parseTokens_eof chain.tokens hending
  rw [hparse]
  obtain ⟨token, e, hparse, he⟩ := chain.parseTokens_eq ht rest
  exact ⟨token, e, hparse, he.readsAs, he.grouped⟩

/-- The chain `-a .. b - !c * d - e`, with operators that may stand before an operand and between
two. -/
def mixedChain : Chain where
  first := ⟨[⟨.dash, "-", 1⟩], ⟨.identifier, "a", 1⟩, by decide, rfl⟩
  operations :=
    [⟨⟨.dotDot, "..", 1⟩, ⟨[], ⟨.identifier, "b", 1⟩, by decide, rfl⟩, .inr rfl⟩,
     ⟨⟨.dash, "-", 1⟩, ⟨[⟨.not, "!", 1⟩], ⟨.identifier, "c", 1⟩, by decide, rfl⟩, .inl rfl⟩,
     ⟨⟨.star, "*", 1⟩, ⟨[], ⟨.identifier, "d", 1⟩, by decide, rfl⟩, .inl rfl⟩,
     ⟨⟨.dash, "-", 1⟩, ⟨[], ⟨.identifier, "e", 1⟩, by decide, rfl⟩, .inl rfl⟩]

/-- The law at that chain, up to an end of input. -/
theorem chain_grouped_mixed :
    (∀ t ∈ [Token.eof 1].head?, t.kind = .eof) ∧
      ∃ token e, parseTokens (mixedChain.tokens ++ [Token.eof 1]) =
          (⟨[some (.expression token e)]⟩, []) ∧
        e.ReadsAs mixedChain.first mixedChain.operations ∧ ∀ node ∈ e.nodes, node.Grouped :=
  ⟨by decide, chain_grouped mixedChain [Token.eof 1] (by decide)⟩

end ScriptFront
