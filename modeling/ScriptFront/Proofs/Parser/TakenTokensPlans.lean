import ScriptFront.Proofs.Parser.TakenTokens

/-!
# Expressions and patterns leave behind their leaves

One lemma for each rule for expressions and patterns, in the order of the grammar's modules: the
tokens that the rule moves onto nest, and they leave behind the leaves of what the rule gives. Each
is put together as the rule itself is.

Three rules keep less than they read, and their lemmas say what is lost: an import drops names that
come again and a loop over a count drops the name of its counter (`DropsNames`), and a function with
two parameters of one name keeps one of their defaults (`TokensFor.function`).
-/

namespace ScriptFront

open ScriptFront.Parser

/-! ## Parts that keep less than was read -/

/-- The tokens leave behind the leaves of the value and perhaps others, but no other functions. -/
def DropsNames {α : Type} [Leafy α] (value : α) (tokens : List Token) : Prop :=
  ∃ leaves nodes, TokensFor [] [] leaves nodes tokens ∧ (Leafy.leaves value).Sublist leaves ∧
    ∀ node ∈ nodes, node ∈ Leafy.nodes value ∨ node.ParametersDistinct

/-- Behind one of the two words that drop names, nothing more is asked of the leaves. -/
theorem DropsNames.tokensOf {α : Type} [Leafy α] {value : α} {tokens : List Token} {token : Token}
    (h : DropsNames value tokens) (hword : token.kind = .importWord ∨ token.kind = .repeatWord) :
    TokensOf [] [] value (token :: tokens) := by
  obtain ⟨leaves, nodes, htokensFor, hleaves, hnodes⟩ := h
  have hfirst : TokensFor [] [] [] [] [token] := by
    rcases hword with hword | hword
    · exact (TokensFor.nil []).shift hword rfl
    · exact (TokensFor.nil []).shift hword rfl
  have hall := (hfirst.append htokensFor).of_nodes hnodes
  refine ⟨hall.nested, hall.legal, fun hdistinct => ?_⟩
  have hleavesAmong := hall.leavesAmong hdistinct
  refine ⟨hleaves.trans hleavesAmong.sublist, fun hwords => ?_⟩
  obtain ⟨himport, hrepeat⟩ := hwords token List.mem_cons_self
  rcases hword with hword | hword
  · exact absurd hword himport
  · exact absurd hword hrepeat

/-- A function has the leaves that were read unless it has two parameters of one name. -/
theorem TokensFor.function {pending after : List Kind} {async : Bool} {token : Token}
    {name : Option Identifier} {parameters : List Parameter} {body : Block} {tokens : List Token}
    (h : TokensFor pending after (Leafy.leaves name ++ Leafy.leaves parameters ++ Leafy.leaves body)
      (Leafy.nodes name ++ Leafy.nodes parameters ++ Leafy.nodes body) tokens) :
    TokensOf pending after (Expr.function async token name (parameters.map Prod.fst)
      (Defaults.ofParameters parameters) body) tokens := by
  refine ⟨h.nested, h.legal, fun hnodes => ?_⟩
  have hself := hnodes _ List.mem_cons_self
  have hnodup : (parameters.map fun parameter => parameter.1.name).Nodup := by
    simpa [Expr.ParametersDistinct, Expr.parameters, Function.comp_def] using hself
  have hleaves : Leafy.leaves (Expr.function async token name (parameters.map Prod.fst)
      (Defaults.ofParameters parameters) body) =
        Leafy.leaves name ++ Leafy.leaves parameters ++ Leafy.leaves body := by
    rw [← leaves_ofParameters hnodup]
    rfl
  rw [hleaves]
  refine h.leavesAmong fun node hmem => hnodes node (List.mem_cons_of_mem _ ?_)
  rw [List.append_assoc (Identifier.nodes? name)]
  rcases List.mem_append.1 hmem with hmem | hmem
  · rcases List.mem_append.1 hmem with hmem | hmem
    · exact List.mem_append_left _ (List.mem_append_left _ hmem)
    · exact List.mem_append_left _ (List.mem_append_right _ (nodes_subset_ofParameters hnodup hmem))
  · exact List.mem_append_right _ hmem

namespace Rule

variable {α : Type} {p : Parser} {before : List Token}

/-! ## Operands -/

/-- A spread leaves behind its name. -/
theorem takes_spread : spread.TakesTokens [] [] := by
  intro p
  refine collects_current ?_
  refine takes_expectIdentifier.bind (.nil []) fun name _ _ h => ?_
  exact collects_pure (h.node _)

/-- Parentheses leave behind what stands in them, and close. -/
theorem takes_grouping : grouping.TakesTokens [.closeParen] [] := by
  intro p
  refine takes_nextExpr.bind (.nil [.closeParen]) fun inner _ _ h => ?_
  refine (takes_expect rfl).andThen h fun _ _ h => ?_
  exact collects_pure h

/-- The rest of a list leaves behind its expressions; the commas are no leaves. -/
theorem takes_listTail (close : Kind) : (listTail close).TakesTokens [] [] := by
  intro p
  refine collects_ifNext rfl (.nil []) (fun _ _ h => ?_) (collects_pure (.nil []))
  refine collects_ifPeek (fun _ => collects_pure h) ?_
  refine takes_nextExpr.bind h fun first _ _ h => ?_
  refine collects_need trivial fun rest _ _ hrest => ?_
  exact collects_pure (h.append hrest)

/-- A list leaves behind its expressions and closes its bracket. -/
theorem takes_listBody {close : Kind} (hclose : close.popped = [close]) :
    (listBody close).TakesTokens [close] [] := by
  have hmark : close.isMark = true ∧ close.pushed = [] := by
    revert hclose
    cases close <;> decide
  have hexpect : (expect close).TakesTokens [close] [] := by
    have h := takes_expect hmark.1
    rwa [hclose, hmark.2] at h
  intro p
  refine collects_ifPeek (fun hpeek => ?_) ?_
  · subst hpeek
    refine collects_advance (collects_pure ?_)
    have h := TokensFor.mark hmark.1
    rwa [hclose, hmark.2] at h
  · refine takes_nextExpr.bind (.nil [close]) fun first _ _ h => ?_
    refine collects_need trivial fun rest _ _ hrest => ?_
    refine hexpect.andThen (h.append (hrest.outer [close])) fun _ _ h => ?_
    exact collects_pure h

/-- An array leaves behind its elements and closes its bracket. -/
theorem takes_array : array.TakesTokens [.closeBracket] [] := by
  intro p
  refine collects_current ?_
  refine (takes_list rfl).bind (.nil [.closeBracket]) fun elements _ _ h => ?_
  exact collects_pure (h.node _)

/-- The comma after a member leaves nothing behind. -/
theorem takes_memberComma : memberComma.TakesTokens [] [] :=
  fun p => collects_ifPeek (fun _ => collects_pure (.nil [])) (takes_expect rfl p)

/-- A pair leaves behind its key and its value. -/
theorem takes_pair : pair.TakesTokens [] [] := by
  intro p
  refine takes_nextExpr.bind (.nil []) fun key _ _ h => ?_
  refine (takes_expect rfl).andThen h fun _ _ h => ?_
  refine takes_nextExpr.bind h fun value _ _ h => ?_
  refine takes_memberComma.andThen h fun _ _ h => ?_
  exact collects_pure h

/-! ### Members in braces -/

/-- The plan leaves behind its leaves and ends before a closing brace. -/
def TakesTokensInside [Leafy α] (rule : Rule α) : Prop :=
  ∀ p, rule.Collects [] p fun value tokens q =>
    TokensOf [] [] value tokens ∧ q.window.peek.kind = .closeCurly

/-- The members that are left of something in braces leave behind their leaves, one member after the
other. -/
theorem takesInside_untilBrace [Leafy α] [Leafy (List α)] (construct : String) {member : Rule α}
    {more : Rule (List α)} (hnil : TokensOf [] [] ([] : List α) [])
    (hcons : ∀ (first : α) (rest : List α),
      Leafy.leaves (first :: rest) = Leafy.leaves first ++ Leafy.leaves rest ∧
        Leafy.nodes (first :: rest) = Leafy.nodes first ++ Leafy.nodes rest)
    (hmember : member.TakesTokens [] []) (hmore : more.TakesTokensInside) :
    (untilBrace construct member more).TakesTokensInside := by
  intro p
  refine collects_look ?_
  change Collects (if _ then _ else if _ then _ else _) [] p _
  split
  · next hpeek => exact collects_pure ⟨hnil, hpeek⟩
  · split
    · exact collects_fail _
    · refine hmember.bind (.nil []) fun first tokens q h => ?_
      rw [← List.append_nil tokens]
      refine (hmore q).frame.bind ?_
      rintro rest _ _ ⟨_, rfl, hrest, hpeek⟩
      refine collects_pure ⟨?_, hpeek⟩
      rw [TokensOf, (hcons first rest).1, (hcons first rest).2]
      exact h.append hrest

/-- Something in braces, asked for behind the opening one. -/
theorem collects_braces {goal : Goal} [Leafy goal.Answer] {next : goal.Answer → Rule α}
    {post : α → List Token → Parser → Prop} {start outer : List Kind} {leaves : List Token}
    {nodes : List Expr} (hasked : leafContract.asked goal p)
    (hgoal : ∀ p answer tokens q, goal.Yields p answer tokens q →
      TokensOf [] [] answer tokens ∧ q.window.peek.kind = .closeCurly)
    (hbefore : TokensFor start (.closeCurly :: outer) leaves nodes before)
    (hnext : ∀ answer tokens q,
      TokensFor start outer (leaves ++ Leafy.leaves answer) (nodes ++ Leafy.nodes answer) tokens →
        (next answer).Collects tokens q post) :
    (need goal fun answer => advance >>= fun _ => next answer).Collects before p post := by
  refine collects_need hasked fun answer tokens q hyields => ?_
  obtain ⟨htokensOf, hpeek⟩ := hgoal p answer tokens q hyields
  have hmembers := hbefore.append (htokensOf.outer (.closeCurly :: outer))
  exact collects_advance (hnext answer _ _ (hmembers.shift hpeek rfl))

/-- The pairs that are left of a dict leave behind their keys and values. -/
theorem takesInside_pairs : pairs.TakesTokensInside :=
  takesInside_untilBrace _ (.nil []) (fun _ _ => ⟨rfl, rfl⟩) takes_pair
    fun _ => collects_need trivial fun _ _ _ h => collects_pure h

/-- A dict leaves behind its pairs and closes its brace. -/
theorem takes_dict : dict.TakesTokens [.closeCurly] [] := by
  intro p
  refine collects_current ?_
  refine collects_braces trivial (fun _ _ _ _ h => h) (.nil [.closeCurly]) fun pairs _ _ h => ?_
  exact collects_pure (h.node _)

/-! ## Operators -/

/-- An operator in front of its operand leaves behind the operand. -/
theorem takes_unary : unary.TakesTokens [] [] := by
  intro p
  refine collects_current (collects_advance ?_)
  refine (takesHere_expr .unary).bind (.nil []) fun right _ _ h => ?_
  exact collects_pure (h.node _)

/-- An `await` leaves behind its operand. -/
theorem takes_await : await.TakesTokens [] [] := by
  intro p
  refine collects_current (collects_advance ?_)
  refine (takesHere_expr .unary).bind (.nil []) fun value _ _ h => ?_
  exact collects_pure (h.node _)

/-- Behind an operator, the plan reads what the whole has more than its left operand. -/
def Prolongs (left : Expr) (pending : List Kind) (rule : Rule Expr) : Prop :=
  ∀ p, rule.Collects [] p fun whole tokens _ => Extends pending left whole tokens

variable (left : Expr)

/-- An operator between its operands adds the leaves of the right one. -/
theorem prolongs_binary (power : Power) : (binary left power).Prolongs left [] := by
  intro p
  refine collects_current (collects_advance ?_)
  refine (takesHere_expr power).bind (.nil []) fun right _ _ h => ?_
  exact collects_pure ⟨_, _, h, rfl, List.subset_cons_self _ _⟩

/-- A range adds the leaves of its upper bound. -/
theorem prolongs_range (power : Power) : (range left power).Prolongs left [] := by
  intro p
  refine collects_current (collects_advance ?_)
  refine (takesHere_expr power).bind (.nil []) fun stop _ _ h => ?_
  exact collects_pure ⟨_, _, h, rfl, List.subset_cons_self _ _⟩

/-- An assignment has the leaves of its target and of its value. -/
theorem extends_assignment {token : Token} {node : Expr → Expr} {value : Expr} {tokens : List Token}
    (hnode : assignmentNode? token left = some node) (h : TokensOf [] [] value tokens) :
    Extends [] left (node value) tokens := by
  refine ⟨_, _, h, ?_⟩
  unfold assignmentNode? at hnode
  split at hnode
  · split_ifs at hnode <;> cases hnode <;> exact ⟨rfl, List.subset_cons_self _ _⟩
  · cases hnode
    exact ⟨rfl, List.subset_cons_self _ _⟩
  · cases hnode
    exact ⟨rfl, List.subset_cons_self _ _⟩
  · cases hnode

/-- An assignment adds the leaves of its value. -/
theorem prolongs_assignment : (assignment left).Prolongs left [] := by
  intro p
  refine collects_current ?_
  split
  · next node hnode =>
    refine takes_nextExpr.bind (.nil []) fun value _ _ h => ?_
    exact collects_pure (extends_assignment left hnode h)
  · exact collects_fail _

/-- A call adds the leaves of its arguments and closes its parenthesis. -/
theorem prolongs_call : (call left).Prolongs left [.closeParen] := by
  intro p
  refine collects_current ?_
  refine (takes_list rfl).bind (.nil [.closeParen]) fun arguments _ _ h => ?_
  exact collects_pure ⟨_, _, h, rfl, List.subset_cons_self _ _⟩

/-- A slice extends what is sliced by the leaves of its bounds. -/
theorem extends_slice {token : Token} {start stop : Option Expr} {pending : List Kind}
    {tokens : List Token}
    (h : TokensFor pending [] (Leafy.leaves start ++ Leafy.leaves stop)
      (Leafy.nodes start ++ Leafy.nodes stop) tokens) :
    Extends pending left (.slice token left start stop) tokens := by
  refine ⟨_, _, h, List.append_assoc _ _ _, ?_⟩
  rw [← List.append_assoc]
  exact List.subset_cons_self _ _

/-- The rest of a slice adds the leaves of its end and closes the bracket. -/
theorem collects_sliceStop {token : Token} {start : Option Expr} {pending : List Kind}
    (h : TokensFor pending [.closeBracket] (Leafy.leaves start) (Leafy.nodes start) before) :
    (sliceStop token left start).Collects before p fun whole tokens _ =>
      Extends pending left whole tokens := by
  refine collects_ifNext rfl h (fun _ _ h => ?_) ?_
  · refine collects_pure (extends_slice left ?_)
    simpa [Leafy.leaves, Leafy.nodes, Expr.leaves?, Expr.nodes?, Kind.pushed] using h
  · refine takes_nextExpr.bind h fun stop _ _ h => ?_
    refine (takes_expect rfl).andThen h fun _ _ h => ?_
    exact collects_pure (extends_slice left h)

/-- An index or a slice adds the leaves between its brackets and closes them. -/
theorem prolongs_index : (index left).Prolongs left [.closeBracket] := by
  intro p
  refine collects_current ?_
  refine collects_ifNext rfl (.nil _) (fun _ _ h => collects_sliceStop left h) ?_
  refine takes_nextExpr.bind (.nil [.closeBracket]) fun first _ _ h => ?_
  refine collects_ifNext rfl h (fun _ _ h => collects_sliceStop left h) ?_
  refine (takes_expect rfl).andThen h fun _ _ h => ?_
  exact collects_pure ⟨_, _, h, rfl, List.subset_cons_self _ _⟩

/-- A property adds its name, and a method the leaves of its arguments too. -/
theorem prolongs_member : (member left).Prolongs left [] := by
  intro p
  refine collects_current ?_
  refine takes_expectIdentifier.bind (.nil []) fun name _ _ h => ?_
  refine collects_ifNext rfl h (fun _ _ h => ?_) ?_
  · refine (takes_list rfl).bind h fun arguments _ _ h => ?_
    refine collects_pure ⟨_, _, h, List.append_assoc _ _ _, ?_⟩
    change left.nodes ++ ([Expr.identifier name] ++ Expr.nodesEach arguments) ⊆ _
    rw [← List.append_assoc]
    exact List.subset_cons_self _ _
  · exact collects_pure ⟨_, _, h, rfl, List.subset_cons_self _ _⟩

/-! ## Control flow -/

/-- A condition leaves behind the expression in the parentheses. -/
theorem takes_condition : condition.TakesTokens [] [] := by
  intro p
  refine (takes_expect rfl).andThen (.nil []) fun _ _ h => ?_
  exact takes_grouping.last h fun _ _ _ h => h

/-- A block of one expression has its leaves. -/
theorem tokensOf_ofExpr {e : Expr} {tokens : List Token} (h : TokensOf [] [] e tokens) :
    TokensOf [] [] (Block.ofExpr e) tokens := by
  simpa [TokensOf, Leafy.leaves, Leafy.nodes, Block.ofExpr, Block.leaves, Block.nodes,
    Stmt.leavesEach,
    Stmt.nodesEach, Stmt.leaves, Stmt.nodes] using h

/-- The part after the consequence leaves behind its block. -/
theorem takes_alternative : alternative.TakesTokens [] [] := by
  intro p
  refine collects_ifNext rfl (.nil []) (fun _ _ h => ?_) (collects_pure (.nil []))
  refine collects_ifNext rfl h (fun _ _ h => ?_) ?_
  · refine collects_need trivial fun nested _ _ hnested => ?_
    exact collects_pure (h.append (tokensOf_ofExpr hnested))
  · refine takes_body.bind h fun body _ _ h => ?_
    exact collects_pure h

/-- A conditional leaves behind its condition and its blocks. -/
theorem takes_conditionalBody : conditionalBody.TakesTokens [] [] := by
  intro p
  refine collects_current ?_
  refine takes_condition.bind (.nil []) fun condition _ _ h => ?_
  refine takes_body.bind h fun consequence _ _ h => ?_
  refine takes_alternative.bind h fun alternative _ _ h => ?_
  exact collects_pure (h.node _)

/-- A conditional leaves behind what its body does. -/
theorem takes_conditional : conditional.TakesTokens [] [] :=
  fun _ => collects_need trivial fun _ _ _ h => collects_pure h

/-- A `while` loop leaves behind its condition and its block. -/
theorem takes_whileLoop : whileLoop.TakesTokens [] [] := by
  intro p
  refine collects_current ?_
  refine takes_condition.bind (.nil []) fun condition _ _ h => ?_
  refine takes_body.bind h fun body _ _ h => ?_
  exact collects_pure (h.node _)

/-- The names of a `for` loop are leaves, the key first. -/
theorem takes_loopNames : loopNames.TakesTokens [] [] := by
  intro p
  refine takes_expectIdentifier.bind (.nil []) fun first _ _ h => ?_
  refine collects_ifNext rfl h (fun _ _ h => ?_) (collects_pure h)
  refine takes_expectIdentifier.bind h fun second _ _ h => ?_
  exact collects_pure h

/-- A `for` loop leaves behind its names, what it runs over and its block. -/
theorem takes_forLoop : forLoop.TakesTokens [] [] := by
  intro p
  refine collects_current ?_
  refine takes_loopNames.bind (.nil []) fun names _ _ h => ?_
  refine (takes_expect rfl).andThen h fun _ _ h => ?_
  refine takes_nextExpr.bind h fun iterable _ _ h => ?_
  refine takes_body.bind h fun body _ _ h => ?_
  exact collects_pure (h.node _)

/-- The name of a counter is read and dropped. -/
theorem collects_loopCounter :
    loopCounter.Collects [] p fun _ tokens _ => DropsNames () tokens := by
  refine collects_ifNext rfl (.nil []) (fun _ _ h => ?_) ?_
  · refine takes_expectIdentifier.bind h fun counter _ _ h => ?_
    refine (takes_expect rfl).andThen h fun _ _ h => ?_
    refine collects_pure ⟨_, _, h, List.nil_sublist _, fun node hmem => .inr ?_⟩
    rw [List.mem_singleton.1 hmem]
    exact List.nodup_nil
  · exact collects_pure ⟨[], [], .nil [], List.Sublist.refl _, by simp⟩

/-- A `repeat` loop drops the name of the round and leaves behind its count and its block. -/
theorem collects_repeatLoop : repeatLoop.Collects [] p fun e tokens _ => DropsNames e tokens := by
  refine collects_current ?_
  refine collects_loopCounter.bind ?_
  rintro counter tokens q ⟨leaves, nodes, h, -, hnodes⟩
  refine takes_nextExpr.bind h fun count _ _ h => ?_
  refine takes_body.bind h fun body _ _ h => ?_
  rw [List.append_assoc, List.append_assoc] at h
  refine collects_pure ⟨_, _, h, List.sublist_append_right _ _, fun node hmem => ?_⟩
  rcases List.mem_append.1 hmem with hmem | hmem
  · exact .inr ((hnodes node hmem).resolve_left (List.not_mem_nil))
  · exact .inl (List.mem_cons_of_mem _ hmem)

/-! ## Switch and match -/

/-- The other values of a clause leave behind their leaves. -/
theorem takes_caseValues : caseValues.TakesTokens [] [] := by
  intro p
  refine collects_ifNext rfl (.nil []) (fun _ _ h => ?_) (collects_pure (.nil []))
  refine takes_nextExpr.bind h fun value _ _ h => ?_
  refine collects_need trivial fun rest _ _ hrest => ?_
  exact collects_pure (h.append hrest)

/-- The selection of a clause leaves behind its values, and the default nothing. -/
theorem takesHere_selection : selection.TakesTokensHere [] [] := by
  intro p
  refine collects_look ?_
  change Collects (if _ then _ else if _ then _ else _) _ p _
  split
  · next hdefault => exact collects_pure ((TokensFor.nil []).shift hdefault rfl)
  · split
    · next hcase =>
      have hword := (TokensFor.nil []).shift hcase rfl
      refine collects_advance (collects_look ?_)
      change Collects (if _ then _ else _) _ p.advance _
      split
      · next hdefault => exact collects_pure (hword.shift hdefault rfl)
      · refine (takesHere_expr .default).bind hword fun first _ _ h => ?_
        refine collects_need trivial fun rest _ _ hrest => ?_
        exact collects_pure (h.append hrest)
    · exact collects_fail _

/-- A clause leaves behind its values and its block. -/
theorem takes_clause : clause.TakesTokens [] [] := by
  intro p
  refine collects_advance (collects_current ?_)
  refine takesHere_selection.bind (.nil []) fun values _ _ h => ?_
  refine takes_body.bind h fun body _ _ h => ?_
  exact collects_pure h

/-- The clauses that are left of a switch leave behind their leaves. -/
theorem takesInside_clauses : clauses.TakesTokensInside :=
  takesInside_untilBrace _ (.nil []) (fun _ _ => ⟨rfl, rfl⟩) takes_clause
    fun _ => collects_need trivial fun _ _ _ h => collects_pure h

/-- A switch leaves behind its subject and its clauses. -/
theorem takes_switch : switch.TakesTokens [] [] := by
  intro p
  refine collects_current ?_
  refine takes_condition.bind (.nil []) fun subject _ _ h => ?_
  refine (takes_expect rfl).andThen h fun _ _ h => ?_
  refine collects_braces trivial (fun _ _ _ _ h => h) h fun clauses _ _ h => ?_
  dsimp only
  split
  · exact collects_fail _
  · exact collects_pure (h.node _)

/-- The condition behind a pattern leaves behind its leaves, if it is there. -/
theorem takes_guard : guard.TakesTokens [] [] := by
  intro p
  refine collects_ifNext rfl (.nil []) (fun _ _ h => ?_) (collects_pure (.nil []))
  refine takes_nextExpr.bind h fun condition _ _ h => ?_
  exact collects_pure h

/-- What a case does leaves behind its leaves, as a block or as one expression. -/
theorem takes_caseBody : caseBody.TakesTokens [] [] := by
  intro p
  refine collects_ifNext rfl (.nil []) (fun _ _ h => ?_) ?_
  · exact takes_block.last h fun _ _ _ h => h
  · refine takes_nextExpr.bind (.nil []) fun e _ _ h => ?_
    exact collects_pure (tokensOf_ofExpr h)

/-- A case leaves behind its pattern, its condition and what it does. -/
theorem takes_matchCase : matchCase.TakesTokens [] [] := by
  intro p
  refine collects_advance (collects_current ?_)
  refine takesHere_pattern.bind (.nil []) fun pattern _ _ h => ?_
  refine takes_guard.bind h fun guard _ _ h => ?_
  refine (takes_expect rfl).andThen h fun _ _ h => ?_
  refine takes_caseBody.bind h fun body _ _ h => ?_
  exact collects_ifNext rfl h (fun _ _ h => collects_pure h) (collects_pure h)

/-- The cases that are left of a match leave behind their leaves. -/
theorem takesInside_matchCases : matchCases.TakesTokensInside :=
  takesInside_untilBrace _ (.nil []) (fun _ _ => ⟨rfl, rfl⟩) takes_matchCase
    fun _ => collects_need trivial fun _ _ _ h => collects_pure h

/-- A match leaves behind its subject and its cases. -/
theorem takes_matching : matching.TakesTokens [] [] := by
  intro p
  refine collects_current ?_
  refine takes_nextExpr.bind (.nil []) fun subject _ _ h => ?_
  refine (takes_expect rfl).andThen h fun _ _ h => ?_
  refine collects_braces trivial (fun _ _ _ _ h => h) h fun cases _ _ h => ?_
  exact collects_pure (h.node _)

/-! ## Patterns -/

/-- The items behind a comma leave behind their leaves; behind a rest element there are none. -/
theorem collects_patternTail (restSeen : Bool) :
    (patternTail restSeen).Collects [] p fun items tokens _ =>
      TokensOf [] [] items tokens ∧ (restSeen = true → items = ([], none)) := by
  refine collects_ifNext rfl (.nil []) (fun _ _ h => ?_) (collects_pure ⟨.nil [], fun _ => rfl⟩)
  refine collects_need trivial ?_
  rintro items tokens q ⟨hrest, hitems⟩
  exact collects_pure ⟨h.append hitems, fun hseen => absurd hseen (by simp [hrest])⟩

/-- The items of a pattern leave behind their leaves, the rest element last. -/
theorem collects_patternItems (restSeen : Bool) :
    (patternItems restSeen).Collects [] p fun items tokens _ =>
      restSeen = false ∧ TokensOf [] [] items tokens := by
  refine collects_advance (collects_look ?_)
  change Collects (if _ then _ else _) _ p.advance _
  split
  · next hellipsis =>
    have hmark := (TokensFor.nil []).shift hellipsis rfl
    split
    · exact collects_fail _
    · next hseen =>
      split
      · next hpeek =>
        refine collects_advance (collects_current ?_)
        have hname := hmark.append (tokensOf_ofToken hpeek)
        rw [← List.append_nil (_ ++ _)]
        refine (collects_patternTail true).frame.bind ?_
        -- nothing is found behind the rest element, so that it is the last leaf
        rintro items _ _ ⟨_, rfl, hitems, hnone⟩
        obtain rfl := hnone rfl
        refine collects_pure ⟨by simpa using hseen, ?_⟩
        exact hname.append hitems
      · exact collects_fail _
  · split
    · exact collects_fail _
    · next hseen =>
      refine takesHere_pattern.bind (.nil []) fun element tokens q h => ?_
      rw [← List.append_nil tokens]
      refine (collects_patternTail false).frame.bind ?_
      rintro items _ _ ⟨_, rfl, hitems, -⟩
      refine collects_pure ⟨by simpa using hseen, ?_⟩
      have hall := h.append hitems
      change TokensFor [] [] (element.leaves ++ (Expr.leavesEach items.1 ++
        Identifier.leaves? items.2))
        (element.nodes ++ (Expr.nodesEach items.1 ++ Identifier.nodes? items.2)) _ at hall
      rw [← List.append_assoc, ← List.append_assoc] at hall
      exact hall

/-- An array pattern leaves behind its items and closes its bracket. -/
theorem takes_arrayPattern : arrayPattern.TakesTokens [.closeBracket] [] := by
  intro p
  refine collects_current ?_
  refine collects_ifNext rfl (.nil [.closeBracket]) (fun _ _ h => collects_pure (h.node _)) ?_
  refine collects_need trivial ?_
  rintro items tokens q ⟨-, hitems⟩
  refine (takes_expect rfl).andThen (hitems.outer [.closeBracket]) fun _ _ h => ?_
  exact collects_pure (h.node _)

/-- The pattern of a case leaves behind its leaves. -/
theorem takesHere_patternBody : patternBody.TakesTokensHere [] [] := by
  intro p
  refine collects_look ?_
  change Collects (if _ then _ else if _ then _ else _) _ p _
  split
  · next hbracket => exact takes_arrayPattern.here hbracket (by decide)
  · split
    · next hcurly => exact takes_dict.here hcurly (by decide)
    · exact takesHere_expr _ p

/-! ## Functions -/

/-- The parameters behind a comma leave behind their names and defaults. -/
theorem takes_parameterTail (defaultSeen : Bool) :
    (parameterTail defaultSeen).TakesTokens [] [] := by
  intro p
  refine collects_ifNext rfl (.nil []) (fun _ _ h => ?_) (collects_pure (.nil []))
  refine collects_need trivial fun rest _ _ hrest => ?_
  exact collects_pure (h.append hrest)

/-- Parameters leave behind their names, each with its default behind it. -/
theorem takes_parameters (defaultSeen : Bool) : (parameters defaultSeen).TakesTokens [] [] := by
  intro p
  refine takes_expectIdentifier.bind (.nil []) fun id _ _ h => ?_
  refine collects_ifNext rfl h (fun _ _ h => ?_) ?_
  · refine takes_nextExpr.bind h fun value _ _ h => ?_
    refine (takes_parameterTail true).bind h fun rest _ _ h => ?_
    exact collects_pure h
  · split
    · exact collects_fail _
    · refine (takes_parameterTail false).bind h fun rest _ _ h => ?_
      exact collects_pure h

/-- A parameter list leaves behind its parameters and closes its parenthesis. -/
theorem takes_parameterList : parameterList.TakesTokens [.closeParen] [] := by
  intro p
  refine collects_ifNext rfl (.nil [.closeParen]) (fun _ _ h => collects_pure h) ?_
  refine collects_need trivial fun parameters _ _ hparameters => ?_
  refine (takes_expect rfl).andThen (hparameters.outer [.closeParen]) fun _ _ h => ?_
  exact collects_pure h

/-- A name that may be missing is a leaf, if it is there. -/
theorem takes_optionalName : optionalName.TakesTokens [] [] := by
  intro p
  refine collects_ifPeek (fun hpeek => ?_) (collects_pure (.nil []))
  exact collects_advance (collects_current (collects_pure (tokensOf_ofToken hpeek)))

/-- A function leaves behind its name, its parameters with their defaults and its block. -/
theorem takes_functionFrom (async : Bool) (token : Token) :
    (functionFrom async token).TakesTokens [] [] := by
  intro p
  refine takes_optionalName.bind (.nil []) fun name _ _ h => ?_
  refine (takes_expect rfl).andThen h fun _ _ h => ?_
  refine takes_parameterList.bind h fun parameters _ _ h => ?_
  refine takes_body.bind h fun body _ _ h => ?_
  exact collects_pure h.function

/-- A function leaves behind what follows its word. -/
theorem takes_function : function.TakesTokens [] [] :=
  fun p => collects_current (takes_functionFrom false _ p)

/-- The word `async` leaves nothing behind in front of a function. -/
theorem takes_asyncFunction : asyncFunction.TakesTokens [] [] := by
  intro p
  refine collects_current ?_
  refine (takes_expect rfl).andThen (.nil []) fun _ _ h => ?_
  exact (takes_functionFrom true _).last h fun _ _ _ h => h

/-! ## Channels, imports, packages -/

/-- A channel leaves behind its size, if it has one. -/
theorem takes_channel : channel.TakesTokens [] [] := by
  intro p
  refine collects_current ?_
  refine collects_ifNext rfl (.nil []) (fun _ _ h => ?_) (collects_pure ((TokensFor.nil []).node _))
  refine takes_grouping.bind h fun size _ _ h => ?_
  exact collects_pure (h.node _)

/-- The names of an import are leaves, before any is dropped. -/
theorem takes_names : names.TakesTokens [] [] := by
  intro p
  refine takes_expectIdentifier.bind (.nil []) fun id _ _ h => ?_
  refine collects_ifNext rfl h (fun _ _ h => ?_) (collects_pure h)
  refine collects_need trivial fun rest _ _ hrest => ?_
  exact collects_pure (h.append hrest)

/-- The names that are kept come in their order. -/
theorem distinctNames_sublist (seen : List String) (ids : List Identifier) :
    (distinctNames seen ids).Sublist ids := by
  fun_induction distinctNames seen ids with
  | case1 => exact List.Sublist.refl _
  | case2 seen id rest _ ih => exact ih.cons id
  | case3 seen id rest _ ih => exact ih.cons_cons id

/-- A name that comes again is read and dropped. -/
theorem collects_importing : importing.Collects [] p fun e tokens _ => DropsNames e tokens := by
  refine collects_current (collects_need trivial fun names _ _ h => ?_)
  refine collects_pure ⟨_, _, h, (distinctNames_sublist [] names).map _, fun node hmem => .inr ?_⟩
  obtain ⟨name, -, rfl⟩ := List.mem_map.1 hmem
  exact List.nodup_nil

/-- A package leaves behind its name and its block. -/
theorem takes_package : package.TakesTokens [] [] := by
  intro p
  refine collects_current ?_
  refine takes_expectIdentifier.bind (.nil []) fun name _ _ h => ?_
  refine takes_body.bind h fun body _ _ h => ?_
  exact collects_pure (h.node _)

end Rule

end ScriptFront
