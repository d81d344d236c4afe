import ScriptFront.Proofs.Parser.Completion
import ScriptFront.Proofs.Tree.Leaves

/-!
# What a reading takes and what it keeps

A reading that succeeds moves over tokens and gives a part of a tree. This file says how the two
belong together.

* `Kind.nestAll`, `Kind.WellNested` — brackets of the three sorts, each closed by its own partner.
* `LeavesAmong` — leaves that a run of tokens leaves behind: they come in the order of the tokens,
  and they are all the names and literals among them unless one of two words is there that drop
  names.
* `TokensFor` — tokens that nest, are words all of them, and leave behind the given leaves. It grows
  token by token and part by part (`TokensFor.shift`, `TokensFor.append`).
* `Parser.Steps`, `Parser.ahead` — the tokens that a parser moves onto.
* `leafContract` — the contract that every goal leaves behind the leaves of its answer.
* `Rule.Collects`, `Rule.TakesTokens` — what a plan that keeps to the contract has taken when it is
  done, with one lemma for each way of putting plans together.
-/

namespace ScriptFront

/-! ## Brackets -/

namespace Kind

/-- What a closing bracket needs to find as the innermost open bracket, by the closing kind. -/
def popped : Kind → List Kind
  | .closeParen => [.closeParen]
  | .closeBracket => [.closeBracket]
  | .closeCurly => [.closeCurly]
  | _ => []

/-- What an opening bracket makes the innermost open bracket, by the kind that closes it. -/
def pushed : Kind → List Kind
  | .openParen => [.closeParen]
  | .openBracket => [.closeBracket]
  | .openCurly => [.closeCurly]
  | _ => []

/-- The open brackets, innermost first and each by the kind that closes it, after a token of the
kind; none when the token closes another bracket than the innermost. -/
def nest (pending : List Kind) (kind : Kind) : Option (List Kind) :=
  if kind.popped <+: pending then some (kind.pushed ++ pending.drop kind.popped.length) else none

/-- The same after tokens of several kinds. -/
def nestAll (pending : List Kind) (kinds : List Kind) : Option (List Kind) :=
  kinds.foldlM nest pending

/-- Every bracket is closed by its partner, and none is closed that was not opened. -/
def WellNested (kinds : List Kind) : Prop :=
  nestAll [] kinds = some []

instance (kinds : List Kind) : Decidable (WellNested kinds) :=
  inferInstanceAs (Decidable (_ = _))

variable {kind : Kind} {kinds pending after : List Kind}

/-- A kind fits the open brackets if what it closes is open innermost; what it opens takes that
place. -/
theorem nest_eq_some_iff :
    nest pending kind = some after ↔
      ∃ rest, pending = kind.popped ++ rest ∧ after = kind.pushed ++ rest := by
  unfold nest
  constructor
  · intro h
    split_ifs at h with hfront
    obtain ⟨rest, rfl⟩ := hfront
    refine ⟨rest, rfl, ?_⟩
    simpa using (Option.some.inj h).symm
  · rintro ⟨rest, rfl, rfl⟩
    simp

/-- No kinds leave the open brackets as they are. -/
@[simp] theorem nestAll_nil : nestAll pending [] = some pending := rfl

/-- Kinds nest one after the other. -/
@[simp] theorem nestAll_cons :
    nestAll pending (kind :: kinds) = (nest pending kind).bind fun next => nestAll next kinds := rfl

/-- What nests behind other kinds starts from the brackets that they leave open. -/
@[simp] theorem nestAll_append {more : List Kind} :
    nestAll pending (kinds ++ more) = (nestAll pending kinds).bind fun next =>
      nestAll next more := by
  unfold nestAll
  rw [List.foldlM_append]
  rfl

/-- Brackets that are open further out make no difference. -/
theorem nestAll_outer (h : nestAll pending kinds = some after) (outer : List Kind) :
    nestAll (pending ++ outer) kinds = some (after ++ outer) := by
  induction kinds generalizing pending with
  | nil =>
    cases h
    rfl
  | cons kind kinds ih =>
    rw [nestAll_cons] at h ⊢
    obtain ⟨next, hnext, hrest⟩ := Option.bind_eq_some_iff.1 h
    obtain ⟨rest, rfl, rfl⟩ := nest_eq_some_iff.1 hnext
    have hmore := ih hrest
    rw [List.append_assoc] at hmore
    rw [nest_eq_some_iff.2 ⟨rest ++ outer, List.append_assoc _ _ _, rfl⟩]
    exact hmore

/-- The depth counts the braces among the open brackets. -/
theorem depthAfter_of_nest (h : nest pending kind = some after) (depth : Nat) :
    Parser.depthAfter kind (depth + pending.count .closeCurly) =
      depth + after.count .closeCurly := by
  obtain ⟨rest, rfl, rfl⟩ := nest_eq_some_iff.1 h
  unfold Parser.depthAfter
  split
  · simp [popped, pushed, Nat.add_assoc]
  · simp [popped, pushed, ← Nat.add_assoc]
  · next hopen hclose =>
    have hpopped : kind.popped.count .closeCurly = 0 := by
      unfold popped
      split <;> first | rfl | exact absurd rfl hclose
    have hpushed : kind.pushed.count .closeCurly = 0 := by
      unfold pushed
      split <;> first | rfl | exact absurd rfl hopen
    simp [hpopped, hpushed]

/-- Where kinds nest, the depth behind them counts the braces that are still open. -/
theorem foldl_depthAfter (h : nestAll pending kinds = some after) (depth : Nat) :
    kinds.foldl (fun depth kind => Parser.depthAfter kind depth)
      (depth + pending.count .closeCurly) = depth + after.count .closeCurly := by
  induction kinds generalizing pending with
  | nil =>
    cases h
    rfl
  | cons kind kinds ih =>
    rw [nestAll_cons] at h
    obtain ⟨next, hnext, hrest⟩ := Option.bind_eq_some_iff.1 h
    rw [List.foldl_cons, depthAfter_of_nest hnext]
    exact ih hrest

/-! ## Names and literals -/

/-- Tokens of the kind are names or literals, or the receiver. -/
def isOperand : Kind → Bool
  | .identifier | .integer | .float | .string | .trueWord | .falseWord | .nullWord | .atSign => true
  | _ => false

/-- Tokens of the kind are words of the language: neither illegal nor the end of input. -/
def IsLegal (kind : Kind) : Prop :=
  kind ≠ .illegal ∧ kind ≠ .eof

/-- Tokens of the kind are words of the language and no leaves. -/
def isMark (kind : Kind) : Bool :=
  !kind.isOperand && kind != .illegal && kind != .eof

/-- A token of the kind is no leaf, and it opens the given brackets. -/
def Opens (kind : Kind) (pending : List Kind) : Prop :=
  kind.isMark = true ∧ kind.popped = [] ∧ kind.pushed = pending

instance (kind : Kind) (pending : List Kind) : Decidable (kind.Opens pending) :=
  inferInstanceAs (Decidable (_ ∧ _ ∧ _))

/-- A mark is a word of the language that is no leaf. -/
theorem isMark_iff : kind.isMark = true ↔ kind.isOperand = false ∧ kind.IsLegal := by
  simp [isMark, IsLegal, and_assoc]

/-- Names, literals and the receiver are words of the language. -/
theorem IsLegal.of_isOperand (h : kind.isOperand = true) : kind.IsLegal := by
  constructor <;> rintro rfl <;> cases h

end Kind

/-- The leaves are among the tokens, in their order, and they are all the names and literals among
them unless names are imported or a loop counts its rounds, both of which drop names. -/
structure LeavesAmong (leaves tokens : List Token) : Prop where
  sublist : leaves.Sublist tokens
  eq_filter : (∀ token ∈ tokens, token.kind ≠ .importWord ∧ token.kind ≠ .repeatWord) →
    leaves = tokens.filter fun token => token.kind.isOperand

/-- Leaves among tokens are put together as the tokens are. -/
theorem LeavesAmong.append {leaves more tokens rest : List Token} (h₁ : LeavesAmong leaves tokens)
    (h₂ : LeavesAmong more rest) : LeavesAmong (leaves ++ more) (tokens ++ rest) := by
  refine ⟨h₁.sublist.append h₂.sublist, fun hwords => ?_⟩
  rw [List.filter_append, ← h₁.eq_filter fun token hmem =>
    hwords token (List.mem_append_left _ hmem),
    ← h₂.eq_filter fun token hmem => hwords token (List.mem_append_right _ hmem)]

/-! ## Tokens and their leaves -/

/-- The tokens lead from the one list of open brackets to the other, all of them are words, and
unless a function among the nodes has two parameters of one name, they leave behind the leaves. -/
structure TokensFor (pending after : List Kind) (leaves : List Token) (nodes : List Expr)
    (tokens : List Token) : Prop where
  nested : Kind.nestAll pending (tokens.map Token.kind) = some after
  legal : ∀ token ∈ tokens, token.kind.IsLegal
  leavesAmong : (∀ node ∈ nodes, node.ParametersDistinct) → LeavesAmong leaves tokens

namespace TokensFor

variable {pending after last : List Kind} {leaves more tokens rest : List Token}
  {nodes others : List Expr} {token : Token}

/-- No tokens leave nothing behind and leave the open brackets as they are. -/
theorem nil (pending : List Kind) : TokensFor pending pending [] [] [] :=
  ⟨rfl, by simp, fun _ => ⟨List.Sublist.refl _, fun _ => rfl⟩⟩

/-- Brackets that are open further out stay open. -/
theorem outer (h : TokensFor pending after leaves nodes tokens) (outer : List Kind) :
    TokensFor (pending ++ outer) (after ++ outer) leaves nodes tokens :=
  ⟨Kind.nestAll_outer h.nested outer, h.legal, h.leavesAmong⟩

/-- Tokens behind others leave behind the leaves of both. -/
theorem append (h₁ : TokensFor pending after leaves nodes tokens)
    (h₂ : TokensFor after last more others rest) :
    TokensFor pending last (leaves ++ more) (nodes ++ others) (tokens ++ rest) := by
  constructor
  · rw [List.map_append, Kind.nestAll_append, h₁.nested]
    exact h₂.nested
  · intro token hmem
    rcases List.mem_append.1 hmem with hmem | hmem
    · exact h₁.legal token hmem
    · exact h₂.legal token hmem
  · intro hnodes
    rw [List.forall_mem_append] at hnodes
    exact (h₁.leavesAmong hnodes.1).append (h₂.leavesAmong hnodes.2)

/-- One token that is no leaf. -/
theorem mark (h : token.kind.isMark = true) :
    TokensFor token.kind.popped token.kind.pushed [] [] [token] := by
  obtain ⟨hoperand, hlegal⟩ := Kind.isMark_iff.1 h
  have hnest : Kind.nest token.kind.popped token.kind = some token.kind.pushed :=
    Kind.nest_eq_some_iff.2 ⟨[], by simp, by simp⟩
  exact ⟨by simp [hnest], by simpa using hlegal, fun _ => ⟨by simp, fun _ => by simp [hoperand]⟩⟩

/-- One token that is a leaf. -/
theorem leaf (h : token.kind.isOperand = true) : TokensFor [] [] [token] nodes [token] := by
  have hnest : Kind.nest [] token.kind = some [] := by
    revert h
    cases token.kind <;> decide
  exact ⟨by simp [hnest], by simpa using Kind.IsLegal.of_isOperand h,
    fun _ => ⟨List.Sublist.refl _, fun _ => by simp [h]⟩⟩

/-- Nodes may be exchanged as long as the functions among them stay. -/
theorem of_nodes (h : TokensFor pending after leaves nodes tokens)
    (hnodes : ∀ node ∈ nodes, node ∈ others ∨ node.ParametersDistinct) :
    TokensFor pending after leaves others tokens := by
  refine ⟨h.nested, h.legal, fun hothers => h.leavesAmong fun node hmem => ?_⟩
  rcases hnodes node hmem with hmem | hdistinct
  · exact hothers node hmem
  · exact hdistinct

/-- A further node asks for less. -/
theorem node (h : TokensFor pending after leaves nodes tokens) (node : Expr) :
    TokensFor pending after leaves (node :: nodes) tokens :=
  h.of_nodes fun _ hmem => .inl (List.mem_cons_of_mem _ hmem)

/-- One token that opens brackets. -/
theorem opening (h : token.kind.Opens pending) : TokensFor [] pending [] [] [token] := by
  obtain ⟨hmark, hpopped, rfl⟩ := h
  rw [← hpopped]
  exact mark hmark

/-- A token that is no leaf, behind the others. -/
theorem shift {outer : List Kind} {kind : Kind}
    (h : TokensFor pending (kind.popped ++ outer) leaves nodes tokens) (hkind : token.kind = kind)
    (hmark : kind.isMark = true) :
    TokensFor pending (kind.pushed ++ outer) leaves nodes (tokens ++ [token]) := by
  subst hkind
  simpa using h.append ((mark hmark).outer outer)

end TokensFor

/-- The tokens leave behind the leaves of the value. -/
abbrev TokensOf {α : Type} [Leafy α] (pending after : List Kind) (value : α) (tokens : List Token) :
    Prop :=
  TokensFor pending after (Leafy.leaves value) (Leafy.nodes value) tokens

/-- A token that is a name leaves behind the name. -/
theorem tokensOf_ofToken {token : Token} (h : token.kind = .identifier) :
    TokensOf [] [] (Identifier.ofToken token) [token] := by
  refine TokensFor.leaf ?_
  change token.kind.isOperand = true
  rw [h]
  rfl

/-- The tokens close the open brackets, and they leave behind the leaves that the second expression
has and the first, with which it begins, has not. -/
def Extends (pending : List Kind) (left whole : Expr) (tokens : List Token) : Prop :=
  ∃ leaves nodes, TokensFor pending [] leaves nodes tokens ∧ whole.leaves = left.leaves ++ leaves ∧
    left.nodes ++ nodes ⊆ whole.nodes

namespace Extends

variable {left middle whole : Expr} {tokens more : List Token}

/-- Without tokens, an expression goes on with nothing. -/
theorem refl : Extends [] left left [] :=
  ⟨[], [], .nil [], (List.append_nil _).symm, by simp⟩

/-- What goes on from an expression that goes on extends the first. -/
theorem trans (h₁ : Extends [] left middle tokens) (h₂ : Extends [] middle whole more) :
    Extends [] left whole (tokens ++ more) := by
  obtain ⟨leaves₁, nodes₁, htokensFor₁, hleaves₁, hnodes₁⟩ := h₁
  obtain ⟨leaves₂, nodes₂, htokensFor₂, hleaves₂, hnodes₂⟩ := h₂
  refine ⟨leaves₁ ++ leaves₂, nodes₁ ++ nodes₂, htokensFor₁.append htokensFor₂, ?_, ?_⟩
  · rw [hleaves₂, hleaves₁, List.append_assoc]
  · rw [← List.append_assoc]
    have hmiddle : left.nodes ++ nodes₁ ++ nodes₂ ⊆ middle.nodes ++ nodes₂ :=
      List.append_subset.2 ⟨List.subset_append_of_subset_left _ hnodes₁,
        List.subset_append_right _ _⟩
    exact List.Subset.trans hmiddle hnodes₂

/-- The operator itself is no leaf. -/
theorem operator {pending : List Kind} {token : Token} (h : Extends pending left whole tokens)
    (htoken : token.kind.Opens pending) : Extends [] left whole (token :: tokens) := by
  obtain ⟨leaves, nodes, htokensFor, hwhole⟩ := h
  exact ⟨leaves, nodes, (TokensFor.opening htoken).append htokensFor, hwhole⟩

/-- The tokens of the left operand and of what goes on leave behind the leaves of the whole. -/
theorem tokensOf (h : Extends [] left whole more) (hleft : TokensOf [] [] left tokens) :
    TokensOf [] [] whole (tokens ++ more) := by
  obtain ⟨leaves, nodes, htokensFor, hleaves, hnodes⟩ := h
  have hwhole := (hleft.append htokensFor).of_nodes fun node hmem => .inl (hnodes hmem)
  change TokensFor [] [] (left.leaves ++ leaves) _ _ at hwhole
  rwa [← hleaves] at hwhole

end Extends

/-! ## The tokens that a parser moves onto -/

namespace Parser

variable {p q r : Parser}

/-- The tokens that come to hand, the one at hand first. -/
def ahead : Nat → Parser → List Token
  | 0, _ => []
  | count + 1, p => p.window.current :: p.advance.ahead count

/-- What comes to hand in more shifts comes to hand in the first ones or behind them. -/
theorem ahead_add (count more : Nat) (p : Parser) :
    p.ahead (count + more) = p.ahead count ++ (advance^[count] p).ahead more := by
  induction count generalizing p with
  | zero => simp [ahead]
  | succ count ih =>
    rw [Nat.add_right_comm, ahead, ahead, ih, Function.iterate_succ_apply, List.cons_append]

/-- As many shifts as there are tokens bring these to hand, one after the other. -/
def Steps (p : Parser) (tokens : List Token) (q : Parser) : Prop :=
  q = advance^[tokens.length] p ∧ p.advance.ahead tokens.length = tokens

/-- No shift moves onto no token. -/
theorem Steps.refl : Steps p [] p :=
  ⟨rfl, rfl⟩

/-- One shift moves onto the next token. -/
theorem Steps.advance : Steps p [p.window.peek] p.advance :=
  ⟨rfl, rfl⟩

/-- Shifts after shifts move onto the tokens of both. -/
theorem Steps.trans {tokens more : List Token} (h₁ : Steps p tokens q) (h₂ : Steps q more r) :
    Steps p (tokens ++ more) r := by
  obtain ⟨rfl, htokens⟩ := h₁
  obtain ⟨rfl, hmore⟩ := h₂
  constructor
  · rw [List.length_append, Nat.add_comm, Function.iterate_add_apply]
  · rw [List.length_append, ahead_add, htokens, ← Function.iterate_succ_apply,
      Function.iterate_succ_apply', hmore]

end Parser

open ScriptFront.Parser

/-! ## The contract -/

/-- The last token is a closing brace and at hand; those before it leave behind the leaves of the
value. -/
def Enclosed {α : Type} [Leafy α] (value : α) (tokens : List Token) (q : Parser) : Prop :=
  ∃ inner, tokens = inner ++ [q.window.current] ∧ q.kind = .closeCurly ∧ TokensOf [] [] value inner

/-- Tokens up to a closing brace, with the brace, close one open brace. -/
theorem Enclosed.tokensOf {α : Type} [Leafy α] {value : α} {tokens : List Token} {q : Parser}
    (h : Enclosed value tokens q) : TokensOf [.closeCurly] [] value tokens := by
  obtain ⟨inner, rfl, hclose, hinner⟩ := h
  exact (hinner.outer [.closeCurly]).shift hclose rfl

/-- What the tokens behind the one at hand leave behind when a goal was found. An expression, a
pattern or a statement takes in the token at hand, and so do the statements of a block, which end on
the closing brace; the goals for what is left of something in braces end before it. Behind a rest
element no items of a pattern are found. -/
def Goal.Yields : (goal : Goal) → Parser → goal.Answer → List Token → Parser → Prop
  | .expr _, p, e, tokens, _ => TokensOf [] [] e (p.window.current :: tokens)
  | .links _ left, _, e, tokens, _ => Extends [] left e tokens
  | .list close, _, elements, tokens, _ => TokensOf [close] [] elements tokens
  | .listTail _, _, elements, tokens, _ => TokensOf [] [] elements tokens
  | .pairs, _, entries, tokens, q =>
    TokensOf [] [] entries tokens ∧ q.window.peek.kind = .closeCurly
  | .conditional, _, e, tokens, _ => TokensOf [] [] e tokens
  | .clauses, _, cases, tokens, q =>
    TokensOf [] [] cases tokens ∧ q.window.peek.kind = .closeCurly
  | .caseValues, _, values, tokens, _ => TokensOf [] [] values tokens
  | .matchCases, _, cases, tokens, q =>
    TokensOf [] [] cases tokens ∧ q.window.peek.kind = .closeCurly
  | .pattern, p, e, tokens, _ => TokensOf [] [] e (p.window.current :: tokens)
  | .patternItems restSeen, _, items, tokens, _ => restSeen = false ∧ TokensOf [] [] items tokens
  | .parameters _, _, declared, tokens, _ => TokensOf [] [] declared tokens
  | .names, _, ids, tokens, _ => TokensOf [] [] ids tokens
  | .members, _, entries, tokens, q =>
    TokensOf [] [] entries tokens ∧ q.window.peek.kind = .closeCurly
  | .stmt, p, statement, tokens, _ => TokensOf [] [] statement (p.window.current :: tokens)
  | .statements, p, body, tokens, q => Enclosed body (p.window.current :: tokens) q

/-- Every goal that is found leaves behind the leaves of its answer. Nothing is promised about one
that is not, and a list is asked for up to a kind that closes brackets. -/
def leafContract : Contract where
  free _ := True
  alike p w := w = p.window
  asked
    | .list close, _ => close.popped = [close]
    | _, _ => True
  found goal p answer q := ∃ tokens, Steps p tokens q ∧ goal.Yields p answer tokens q
  absent _ _ _ := True

namespace Rule

variable {α β : Type} {p : Parser} {before : List Token} {post : α → List Token → Parser → Prop}

/-- When the plan is done, its value, the tokens from the given ones on and the state have the
property. -/
def Collects (rule : Rule α) (before : List Token) (p : Parser)
    (post : α → List Token → Parser → Prop) : Prop :=
  rule.Ensures leafContract
    (fun value q => ∃ tokens, Steps p tokens q ∧ post value (before ++ tokens) q) (fun _ => True) p

/-- Wherever it starts, the plan moves onto tokens that leave behind the leaves of its value. -/
def TakesTokens [Leafy α] (pending after : List Kind) (rule : Rule α) : Prop :=
  ∀ p, rule.Collects [] p fun value tokens _ => TokensOf pending after value tokens

/-- The same for a plan that takes in the token at hand. -/
def TakesTokensHere [Leafy α] (pending after : List Kind) (rule : Rule α) : Prop :=
  ∀ p, rule.Collects [p.window.current] p fun value tokens _ => TokensOf pending after value tokens

/-! ### Single steps -/

/-- A plan that is done moves onto no further tokens. -/
theorem collects_pure {value : α} (h : post value before p) :
    (pure value : Rule α).Collects before p post :=
  ⟨[], .refl, by rwa [List.append_nil]⟩

/-- Nothing is said of a plan that fails. -/
theorem collects_fail (cause : Cause) : (fail cause : Rule α).Collects before p post :=
  trivial

/-- A plan may look at the window. -/
theorem collects_look {next : Window → Rule α} (h : (next p.window).Collects before p post) :
    (look next).Collects before p post :=
  ⟨fun _ hw => congrArg next hw, h⟩

/-- A plan may look at the token at hand. -/
theorem collects_current {next : Token → Rule α}
    (h : (next p.window.current).Collects before p post) :
    (current >>= next).Collects before p post :=
  collects_look h

/-- What is collected behind some steps is collected from where they started. -/
theorem Collects.of_steps {rule : Rule α} {tokens : List Token} {q : Parser}
    (hsteps : Steps p tokens q) (h : rule.Collects (before ++ tokens) q post) :
    rule.Ensures leafContract
      (fun value r => ∃ more, Steps p more r ∧ post value (before ++ more) r)
        (fun _ => True) q := by
  refine h.imp ?_ fun _ _ => trivial
  rintro value r ⟨more, hmore, hpost⟩
  exact ⟨tokens ++ more, hsteps.trans hmore, by rwa [← List.append_assoc]⟩

/-- A shift adds the token that comes to hand. -/
theorem collects_advance {next : Unit → Rule α}
    (h : (next ()).Collects (before ++ [p.advance.window.current]) p.advance post) :
    (advance >>= next).Collects before p post :=
  ⟨trivial, h.of_steps .advance⟩

/-- A goal that is asked for adds the tokens that it yields. -/
theorem collects_need {goal : Goal} {next : goal.Answer → Rule α}
    (hasked : leafContract.asked goal p)
    (h : ∀ answer tokens q, goal.Yields p answer tokens q →
      (next answer).Collects (before ++ tokens) q post) :
    (need goal next).Collects before p post := by
  refine ⟨hasked, ?_, fun _ _ _ => trivial⟩
  rintro answer q - ⟨tokens, hsteps, hyields⟩
  exact (h answer tokens q hyields).of_steps hsteps

/-- A goal that is asked for with a fresh start behind it adds the tokens that it yields. -/
theorem collects_salvage {goal rest : Goal} {next : goal.Answer → Rule α}
    (hasked : leafContract.asked goal p) (hrest : ∀ q, leafContract.asked rest q)
    (h : ∀ answer tokens q, goal.Yields p answer tokens q →
      (next answer).Collects (before ++ tokens) q post) :
    (salvage goal next rest).Collects before p post := by
  refine ⟨trivial, hasked, ?_, fun _ _ _ => ⟨hrest _, fun _ _ _ => trivial, fun _ _ => trivial⟩⟩
  rintro answer q - ⟨tokens, hsteps, hyields⟩
  exact (h answer tokens q hyields).of_steps hsteps

/-- Less may be said of what was collected. -/
theorem Collects.imp {rule : Rule α} {first : α → List Token → Parser → Prop}
    (h : rule.Collects before p first)
    (hpost : ∀ value tokens q, first value tokens q → post value tokens q) :
    rule.Collects before p post := by
  refine Ensures.imp h ?_ fun _ _ => trivial
  rintro value q ⟨tokens, hsteps, hfirst⟩
  exact ⟨tokens, hsteps, hpost value _ q hfirst⟩

/-- Further tokens in front stay there. -/
theorem Collects.frame {rule : Rule α} {middle : List Token} (h : rule.Collects middle p post) :
    rule.Collects (before ++ middle) p fun value tokens q =>
      ∃ rest, tokens = before ++ rest ∧ post value rest q := by
  refine Ensures.imp h ?_ fun _ _ => trivial
  rintro value q ⟨tokens, hsteps, hpost⟩
  exact ⟨tokens, hsteps, _, List.append_assoc _ _ _, hpost⟩

/-- A plan goes on with the tokens that the plan before it has collected. -/
theorem Collects.bind {rule : Rule β} {f : β → Rule α} {first : β → List Token → Parser → Prop}
    (h : rule.Collects before p first)
    (hnext : ∀ value tokens q, first value tokens q → (f value).Collects tokens q post) :
    (rule >>= f).Collects before p post := by
  refine Ensures.bind (Ensures.imp h ?_ fun _ _ => trivial)
  rintro value q ⟨tokens, hsteps, hfirst⟩
  exact (hnext value _ q hfirst).of_steps hsteps

/-! ### Plans one after another -/

section Sequence

variable [Leafy β] {rule : Rule β} {f : β → Rule α} {start pending after outer : List Kind}
  {leaves : List Token} {nodes : List Expr}

/-- A plan that takes tokens adds them and their leaves to those before. -/
theorem TakesTokens.bind (h : rule.TakesTokens pending after)
    (hbefore : TokensFor start (pending ++ outer) leaves nodes before)
    (hnext : ∀ value tokens q,
      TokensFor start (after ++ outer) (leaves ++ Leafy.leaves value) (nodes ++ Leafy.nodes value)
        tokens → (f value).Collects tokens q post) :
    (rule >>= f).Collects before p post := by
  rw [← List.append_nil before]
  refine (h p).frame.bind ?_
  rintro value _ q ⟨rest, rfl, hvalue⟩
  exact hnext value _ q (hbefore.append (hvalue.outer outer))

/-- A plan that is the last one. -/
theorem TakesTokens.last {post : β → List Token → Parser → Prop}
    (h : rule.TakesTokens pending after)
    (hbefore : TokensFor start (pending ++ outer) leaves nodes before)
    (hpost : ∀ value tokens q,
      TokensFor start (after ++ outer) (leaves ++ Leafy.leaves value) (nodes ++ Leafy.nodes value)
        tokens → post value tokens q) :
    rule.Collects before p post := by
  rw [← List.append_nil before]
  refine (h p).frame.imp ?_
  rintro value _ q ⟨rest, rfl, hvalue⟩
  exact hpost value _ q (hbefore.append (hvalue.outer outer))

/-- A plan that takes in the token at hand adds it with the others. -/
theorem TakesTokensHere.bind (h : rule.TakesTokensHere pending after)
    (hbefore : TokensFor start (pending ++ outer) leaves nodes before)
    (hnext : ∀ value tokens q,
      TokensFor start (after ++ outer) (leaves ++ Leafy.leaves value) (nodes ++ Leafy.nodes value)
        tokens → (f value).Collects tokens q post) :
    (rule >>= f).Collects (before ++ [p.window.current]) p post := by
  refine (h p).frame.bind ?_
  rintro value _ q ⟨rest, rfl, hvalue⟩
  exact hnext value _ q (hbefore.append (hvalue.outer outer))

/-- A plan without a value leaves the leaves as they are. -/
theorem TakesTokens.andThen {rule : Rule Unit} {f : Unit → Rule α}
    (h : rule.TakesTokens pending after)
    (hbefore : TokensFor start (pending ++ outer) leaves nodes before)
    (hnext : ∀ tokens q, TokensFor start (after ++ outer) leaves nodes tokens →
      (f ()).Collects tokens q post) :
    (rule >>= f).Collects before p post := by
  refine h.bind hbefore fun _ tokens q htokens => hnext tokens q ?_
  simpa [Leafy.leaves, Leafy.nodes] using htokens

/-- A plan that takes in the token at hand, started on the next one. -/
theorem TakesTokensHere.next (h : rule.TakesTokensHere pending after) :
    (advance >>= fun _ => rule).TakesTokens pending after :=
  fun p => collects_advance (h p.advance)

/-- A plan behind a token that is no leaf takes that token in. -/
theorem TakesTokens.here {kind : Kind} (h : rule.TakesTokens pending []) (hkind : p.kind = kind)
    (hopens : kind.Opens pending) :
    rule.Collects [p.window.current] p fun value tokens _ => TokensOf [] [] value tokens := by
  subst hkind
  have hfirst := TokensFor.opening hopens
  rw [← List.append_nil pending] at hfirst
  exact h.last hfirst fun _ _ _ h => h

end Sequence

/-! ### Small plans -/

section Small

variable {kind : Kind} {start pending after outer : List Kind} {leaves : List Token}
  {nodes : List Expr}

/-- A choice by the kind of the next token collects what both plans collect. -/
theorem collects_ifPeek {yes no : Rule α}
    (hyes : p.window.peek.kind = kind → yes.Collects before p post)
    (hno : no.Collects before p post) :
    (peekIs kind >>= fun is => if is = true then yes else no).Collects before p post := by
  refine collects_look ?_
  change Collects (if decide _ = true then _ else _) before p post
  split
  · next hpeek => exact hyes (of_decide_eq_true hpeek)
  · exact hno

/-- A step onto the next token if it is of the kind, and otherwise something else. -/
theorem collects_ifNext {next : Unit → Rule α} {other : Rule α} (hkind : kind.isMark = true)
    (hbefore : TokensFor start (kind.popped ++ outer) leaves nodes before)
    (hnext : ∀ tokens q, TokensFor start (kind.pushed ++ outer) leaves nodes tokens →
      (next ()).Collects tokens q post)
    (hother : other.Collects before p post) :
    (peekIs kind >>= fun is => if is = true then advance >>= next else other).Collects before p
      post := by
  refine collects_ifPeek (fun hpeek => ?_) hother
  exact collects_advance (hnext _ _ (hbefore.shift hpeek hkind))

/-- A step onto a token asked for by kind adds that token. -/
theorem collects_expect {next : Unit → Rule α}
    (h : p.window.peek.kind = kind →
      (next ()).Collects (before ++ [p.advance.window.current]) p.advance post) :
    (expect kind >>= next).Collects before p post := by
  refine collects_look ?_
  change Collects (Rule.bind (if _ then _ else _) next) before p post
  split
  · next hpeek => exact collects_advance (h hpeek)
  · exact collects_fail _

/-- A mark asked for by kind closes and opens brackets and leaves nothing behind. -/
theorem takes_expect (hkind : kind.isMark = true) :
    (expect kind).TakesTokens kind.popped kind.pushed := by
  intro p
  refine collects_look ?_
  change Collects (if _ then _ else _) [] p _
  split
  · next hpeek =>
    subst hpeek
    exact collects_advance (collects_pure (TokensFor.mark hkind))
  · exact collects_fail _

/-- A name that is asked for is a leaf. -/
theorem takes_expectIdentifier : expectIdentifier.TakesTokens [] [] := by
  intro p
  exact collects_expect fun hpeek => collects_current (collects_pure (tokensOf_ofToken hpeek))

/-- A semicolon leaves nothing behind, taken or not. -/
theorem takes_skipSemicolon : skipSemicolon.TakesTokens [] [] :=
  fun _ => collects_ifNext rfl (.nil []) (fun _ _ h => collects_pure h) (collects_pure (.nil []))

/-- The tokens of an expression leave behind its leaves. -/
theorem takesHere_expr (power : Power) : (expr power).TakesTokensHere [] [] :=
  fun _ => collects_need trivial fun _ _ _ h => collects_pure h

/-- The tokens of a pattern leave behind its leaves. -/
theorem takesHere_pattern : pattern.TakesTokensHere [] [] :=
  fun _ => collects_need trivial fun _ _ _ h => collects_pure h

/-- The tokens of a statement leave behind its leaves. -/
theorem takesHere_stmt : stmt.TakesTokensHere [] [] :=
  fun _ => collects_need trivial fun _ _ _ h => collects_pure h

/-- The tokens of an expression that starts on the next one leave behind its leaves. -/
theorem takes_nextExpr : nextExpr.TakesTokens [] [] :=
  (takesHere_expr .default).next

/-- Behind an opening bracket, the tokens of a list leave behind its leaves and close the
bracket. -/
theorem takes_list {close : Kind} (hclose : close.popped = [close]) :
    (list close).TakesTokens [close] [] :=
  fun _ => collects_need hclose fun _ _ _ h => collects_pure h

/-- A block ends on its closing brace. -/
theorem collects_block : block.Collects [] p fun block tokens q => Enclosed block tokens q :=
  collects_current <| collects_advance <| collects_need trivial fun _ _ _ h => collects_pure h

/-- Behind its opening brace, the tokens of a block leave behind its leaves and close the brace. -/
theorem takes_block : block.TakesTokens [.closeCurly] [] :=
  fun _ => collects_block.imp fun _ _ _ h => h.tokensOf

/-- The tokens of a block that starts on the next one leave behind its leaves. -/
theorem takes_body : body.TakesTokens [] [] := by
  intro p
  refine (takes_expect rfl).andThen (.nil []) fun _ _ h => ?_
  exact takes_block.last h fun _ _ _ h => h

end Small

end Rule

end ScriptFront
