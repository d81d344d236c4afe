import ScriptFront.Proofs.Parser.Support

/-!
# Expressions and patterns support their steps

One lemma for each rule for expressions and patterns, in the order of the grammar's modules: the
steps in what the rule gives are supported. Each is put together as the rule itself is. What comes
behind an expression is either asked for on a token of a known kind, or the expression supports it.
-/

namespace ScriptFront

open ScriptFront.Parser

/-! ## The defaults of a function -/

namespace Defaults

/-- A default among others with one put in is that one or was there before. -/
theorem mem_insert {name : String} {value : Expr} {defaults : Defaults} {entry : String × Expr}
    (h : entry ∈ insert name value defaults) : entry.2 = value ∨ entry ∈ defaults := by
  fun_induction insert name value defaults with
  | case1 => exact .inl (congrArg Prod.snd (List.mem_singleton.1 h))
  | case2 current rest =>
    rcases List.mem_cons.1 h with rfl | h
    · exact .inl rfl
    · exact .inr (List.mem_cons_of_mem _ h)
  | case3 other current rest =>
    rcases List.mem_cons.1 h with rfl | h
    · exact .inl rfl
    · exact .inr h
  | case4 other current rest _ _ ih =>
    rcases List.mem_cons.1 h with rfl | h
    · exact .inr List.mem_cons_self
    · exact (ih h).imp_right (List.mem_cons_of_mem _)

/-- A default that a function keeps was declared by some parameter. -/
theorem declared_of_mem_foldl {parameters : List Parameter} {defaults : Defaults}
    {entry : String × Expr} (h : entry ∈ parameters.foldl declare defaults) :
    entry ∈ defaults ∨ ∃ parameter ∈ parameters, entry.2 ∈ parameter.2 := by
  induction parameters generalizing defaults with
  | nil => exact .inl h
  | cons first rest ih =>
    obtain ⟨id, default⟩ := first
    rw [List.foldl_cons] at h
    rcases ih h with h | ⟨parameter, hmem, hentry⟩
    · cases default with
      | none => exact .inl h
      | some value =>
        refine (mem_insert h).symm.imp_right fun hentry => ?_
        exact ⟨(id, some value), List.mem_cons_self, congrArg some hentry.symm⟩
    · exact .inr ⟨parameter, List.mem_cons_of_mem _ hmem, hentry⟩

/-- Every default was declared with a parameter. -/
theorem declared_of_mem_ofParameters {parameters : List Parameter} {entry : String × Expr}
    (h : entry ∈ ofParameters parameters) : ∃ parameter ∈ parameters, entry.2 ∈ parameter.2 :=
  (declared_of_mem_foldl h).resolve_left List.not_mem_nil

/-- The nodes of defaults are those of each of them. -/
theorem mem_nodesDefaults {defaults : Defaults} {e : Expr} :
    e ∈ Expr.nodesDefaults defaults ↔ ∃ entry ∈ defaults, e ∈ entry.2.nodes := by
  induction defaults with
  | nil => simp [Expr.nodesDefaults]
  | cons entry rest ih => simp [Expr.nodesDefaults, ih]

end Defaults

namespace DefaultsBacked

variable {parameters : List Parameter} {calls more : List Call}

/-- Without parameters there is no default to back. -/
theorem nil : DefaultsBacked [] [] :=
  ⟨.nil, fun _ hmem => absurd hmem List.not_mem_nil⟩

/-- One more parameter, without a default or with one that is backed. -/
theorem cons {id : Identifier} {default : Option Expr} (hcalls : Backed Never [] calls)
    (hdefault : ∀ value ∈ default, Backed Never value.nodes calls)
    (hrest : DefaultsBacked parameters more) :
    DefaultsBacked ((id, default) :: parameters) (calls ++ more) := by
  refine ⟨hcalls.calls_append hrest.1, fun parameter hmem value hvalue => ?_⟩
  rcases List.mem_cons.1 hmem with rfl | hmem
  · exact (hdefault value hvalue).calls_append hrest.1
  · exact hcalls.both (hrest.2 parameter hmem value hvalue)

/-- The defaults that a function keeps are backed together. -/
theorem backed (h : DefaultsBacked parameters calls) :
    Backed Never (Identifier.nodesEach (parameters.map Prod.fst) ++
      Expr.nodesDefaults (Defaults.ofParameters parameters)) calls := by
  refine ⟨fun e hmem hstep => ?_, h.1.call⟩
  rcases List.mem_append.1 hmem with hmem | hmem
  · obtain ⟨id, -, rfl⟩ := List.mem_map.1 hmem
    cases hstep
  · obtain ⟨entry, hentry, hmem⟩ := Defaults.mem_nodesDefaults.1 hmem
    obtain ⟨parameter, hparameter, hvalue⟩ := Defaults.declared_of_mem_ofParameters hentry
    obtain ⟨r, hr, he, hsupported⟩ := (h.2 parameter hparameter _ hvalue).node e hmem hstep
    refine ⟨r, hr, he, hsupported.imp_right fun h => h.mono ?_ (List.Subset.refl _)⟩
    intro other hother
    exact List.mem_append_right _ (Defaults.mem_nodesDefaults.2 ⟨entry, hentry, hother⟩)

end DefaultsBacked

namespace Rule

variable {α : Type} {p : Parser} {excused : Parser → Prop} {nodes : List Expr} {before : List Call}
  {post : α → Parser → List Call → Prop}

/-! ## Operands -/

/-- A spread has no steps and ends on its name. -/
theorem delivers_spread :
    spread.Delivers support
      (fun e q calls => Backed Never e.nodes calls ∧ e.EndsOn q.window.current) [] p := by
  refine delivers_current ?_
  refine delivers_name.bind fun name _ _ h => ?_
  exact delivers_pure ⟨h.1.cons rfl, h.2.1⟩

/-- The steps in parentheses are supported there. -/
theorem stands_grouping : grouping.Stands := by
  intro p
  refine stands_nextExpr.bind .start fun inner _ _ h => ?_
  refine delivers_thenExpect h.toBacked (by decide) fun _ _ h => ?_
  exact delivers_pure h

/-- The steps in the rest of a list are supported there. -/
theorem stands_listTail (close : Kind) : (listTail close).Stands := by
  intro p
  have hstart : Standing (At p.advance) [] [] p := .start
  refine delivers_ifNext hstart.toBacked (by decide) (fun _ _ h => ?_) (delivers_pure hstart)
  refine delivers_ifPeek (fun _ => delivers_pure h) ?_
  refine stands_nextExpr.bind h fun first _ _ h => ?_
  refine delivers_need fun rest _ _ hrest => ?_
  exact delivers_pure (h.append hrest)

/-- The steps in a list are supported there, and it ends on its closing bracket. -/
theorem delivers_listBody (close : Kind) :
    (listBody close).Delivers support
      (fun elements q calls => Backed (At p.advance) (Leafy.nodes elements) calls ∧ q.kind = close)
      [] p := by
  refine delivers_ifPeek (fun hpeek => delivers_advance (delivers_pure ⟨.nil, hpeek⟩)) ?_
  refine stands_nextExpr.bind .start fun first _ _ h => ?_
  refine delivers_need fun rest _ _ hrest => ?_
  exact delivers_expect fun hpeek => delivers_pure ⟨(h.append hrest).toBacked, hpeek⟩

/-- The steps in an array are supported there, and it ends on its closing bracket. -/
theorem delivers_array :
    array.Delivers support
      (fun e q calls => Backed (At p.advance) e.nodes calls ∧ e.EndsOn q.window.current) [] p := by
  refine delivers_current ?_
  refine delivers_list.bind fun elements _ _ h => ?_
  exact delivers_pure ⟨h.1.cons rfl, h.2⟩

/-- The comma after a member is no step. -/
theorem stands_memberComma : memberComma.Stands :=
  fun p => delivers_ifPeek (fun _ => delivers_pure .start) (stands_expect (by decide) p)

/-- The steps in a pair are supported there. -/
theorem stands_pair : pair.Stands := by
  intro p
  refine stands_nextExpr.bind .start fun key _ _ h => ?_
  refine delivers_thenExpect h.toBacked (by decide) fun _ _ h => ?_
  refine stands_nextExpr.bind h fun value _ _ h => ?_
  refine stands_memberComma.andThen h fun _ _ h => ?_
  exact delivers_pure h

/-! ### Members in braces -/

/-- The value of the plan is backed, and the plan ends before a closing brace. -/
def BacksInside [Leafy α] (rule : Rule α) : Prop :=
  ∀ p, rule.Delivers support
    (fun value q calls =>
      Backed (At p.advance) (Leafy.nodes value) calls ∧ q.window.peek.kind = .closeCurly) [] p

/-- The steps in what is left of something in braces are supported there, member by member. -/
theorem backsInside_untilBrace [Leafy α] [Leafy (List α)] (construct : String) {member : Rule α}
    {more : Rule (List α)} (hnil : Leafy.nodes ([] : List α) = [])
    (hcons : ∀ (first : α) (rest : List α),
      Leafy.nodes (first :: rest) = Leafy.nodes first ++ Leafy.nodes rest)
    (hmember : member.Stands) (hmore : more.BacksInside) :
    (untilBrace construct member more).BacksInside := by
  intro p
  refine delivers_look ?_
  change Delivers support _ (if _ then _ else if _ then _ else _) [] p
  split
  · next hpeek => exact delivers_pure ⟨by rw [hnil]; exact .nil, hpeek⟩
  · split
    · exact delivers_fail _
    · refine hmember.bind .start fun first q _ h => ?_
      refine (hmore q).seq fun rest _ _ hrest => ?_
      refine delivers_pure ⟨?_, hrest.2⟩
      rw [hcons first rest]
      exact h.toBacked.append hrest.1 h.meets

/-- Something in braces, asked for behind the opening one. -/
theorem delivers_braces {goal : Goal} [Leafy goal.Answer] {next : goal.Answer → Rule α}
    (hgoal : ∀ p answer q calls, support goal p answer q calls →
      Backed (At p.advance) (Leafy.nodes answer) calls ∧ q.window.peek.kind = .closeCurly)
    (hbefore : Standing excused nodes before p)
    (hnext : ∀ answer q calls, Standing excused (nodes ++ Leafy.nodes answer) calls q →
      (next answer).Delivers support post calls q) :
    (need goal fun answer => advance >>= fun _ => next answer).Delivers support post before p := by
  refine delivers_need fun answer q calls hanswer => ?_
  obtain ⟨hbacked, hpeek⟩ := hgoal p answer q calls hanswer
  have hall := hbefore.toBacked.append hbacked hbefore.meets
  exact delivers_next hall hpeek (by decide) fun r _ h => hnext answer r _ h

/-- The steps in the pairs that are left of a dict are supported there. -/
theorem backsInside_pairs : pairs.BacksInside :=
  backsInside_untilBrace _ rfl (fun _ _ => rfl) stands_pair fun _ => delivers_need fun _ _ _ h => h

/-- The steps in a dict are supported there. -/
theorem stands_dict : dict.Stands := by
  intro p
  refine delivers_current ?_
  refine delivers_braces (fun _ _ _ _ h => h) .start fun pairs _ _ h => ?_
  exact delivers_pure (h.cons rfl)

/-! ## Operators -/

/-- The steps in the operand of an operator are supported there. -/
theorem stands_unary : unary.Stands := by
  intro p
  refine delivers_current (delivers_advance ?_)
  refine delivers_expr fun right _ _ h => ?_
  exact delivers_pure (h.cons rfl)

/-- The steps in the operand of `await` are supported there. -/
theorem stands_await : await.Stands := by
  intro p
  refine delivers_current (delivers_advance ?_)
  refine delivers_expr fun value _ _ h => ?_
  exact delivers_pure (h.cons rfl)

/-- On an operator, the plan completes the whole that begins with the left operand. -/
def Completes (left : Expr) (rule : Rule Expr) : Prop :=
  ∀ p excused before, Standing excused left.nodes before p →
    rule.Delivers support (fun whole q calls => Complete excused whole calls q) before p

variable (left : Expr)

/-- An operator between its operands is complete with the right one. -/
theorem completes_binary (power : Power) : (binary left power).Completes left := by
  intro p excused before h
  refine delivers_current (delivers_advance ?_)
  refine delivers_expr fun right _ _ hright => ?_
  exact delivers_pure ((h.append hright).cons rfl).complete

/-- A range is complete with its upper bound. -/
theorem completes_range (power : Power) : (range left power).Completes left := by
  intro p excused before h
  refine delivers_current (delivers_advance ?_)
  refine delivers_expr fun stop _ _ hstop => ?_
  exact delivers_pure ((h.append hstop).cons rfl).complete

/-- An assignment has the steps of its target and of its value. -/
theorem standing_assignment {token : Token} {node : Expr → Expr} {value : Expr}
    {calls : List Call} (hnode : assignmentNode? token left = some node)
    (h : Standing excused (left.nodes ++ value.nodes) calls p) :
    Standing excused (node value).nodes calls p := by
  unfold assignmentNode? at hnode
  split at hnode
  · split_ifs at hnode <;> cases hnode <;> exact h.cons rfl
  · cases hnode
    exact h.cons rfl
  · cases hnode
    exact h.cons rfl
  · cases hnode

/-- An assignment is complete with its value. -/
theorem completes_assignment : (assignment left).Completes left := by
  intro p excused before h
  refine delivers_current ?_
  split
  · next node hnode =>
    refine stands_nextExpr.bind h fun value _ _ h => ?_
    exact delivers_pure (standing_assignment left hnode h).complete
  · exact delivers_fail _

/-- A call is complete with its closing parenthesis, on which no place ends. -/
theorem completes_call : (call left).Completes left := by
  intro p excused before h
  refine delivers_current ?_
  refine (stands_list (by decide)).bind h fun arguments _ _ h => ?_
  exact delivers_pure (h.cons rfl).complete

/-- A slice is complete with its closing bracket, on which it ends. -/
theorem delivers_sliceStop {token : Token} {start : Option Expr}
    (h : Standing excused (left.nodes ++ Leafy.nodes start) before p) :
    (sliceStop token left start).Delivers support
      (fun whole q calls => Complete excused whole calls q) before p := by
  refine delivers_ifPeek (fun hpeek => delivers_advance (delivers_pure ?_)) ?_
  · have hnodes : left.nodes ++ Leafy.nodes start =
        left.nodes ++ Expr.nodes? start ++ Expr.nodes? none := (List.append_nil _).symm
    rw [hnodes] at h
    exact .of_backed (h.toBacked.cons rfl) fun _ => hpeek
  · refine stands_nextExpr.bind h fun stop _ _ h => ?_
    exact delivers_expect fun hpeek =>
      delivers_pure (.of_backed (h.toBacked.cons rfl) fun _ => hpeek)

/-- An index or a slice is complete with its closing bracket, on which it ends. -/
theorem completes_index : (index left).Completes left := by
  intro p excused before h
  refine delivers_current ?_
  refine delivers_ifNext h.toBacked (by decide) (fun _ _ h => ?_) ?_
  · rw [← List.append_nil left.nodes] at h
    exact delivers_sliceStop left h
  · refine stands_nextExpr.bind h fun first _ _ h => ?_
    refine delivers_ifNext h.toBacked (by decide) (fun _ _ h => delivers_sliceStop left h) ?_
    exact delivers_expect fun hpeek =>
      delivers_pure (.of_backed (h.toBacked.cons rfl) fun _ => hpeek)

/-- A property is complete with its name, on which it ends. -/
theorem completes_member : (member left).Completes left := by
  intro p excused before h
  refine delivers_current ?_
  refine delivers_name.seq fun name _ _ hname => ?_
  have h := h.toBacked.both hname.1
  refine delivers_ifNext h (by decide) (fun _ _ h => ?_) ?_
  · refine (stands_list (by decide)).bind h fun arguments _ _ h => ?_
    exact delivers_pure (h.cons rfl).complete
  · exact delivers_pure (.of_backed (h.cons rfl) fun _ => hname.2.1)

/-! ## Control flow -/

/-- The steps in a condition are supported there. -/
theorem stands_condition : condition.Stands := by
  intro p
  have hstart : Standing (At p.advance) [] [] p := .start
  refine delivers_thenExpect hstart.toBacked (by decide) fun _ _ h => ?_
  exact stands_grouping.last h fun _ _ _ h => h

/-- A block of one expression has its nodes. -/
theorem standing_ofExpr {e : Expr} {calls : List Call} (h : Standing excused e.nodes calls p) :
    Standing excused (Block.ofExpr e).nodes calls p := by
  rwa [show (Block.ofExpr e).nodes = e.nodes from List.append_nil _]

/-- The steps in the part after the consequence are supported there. -/
theorem stands_alternative : alternative.Stands := by
  intro p
  have hstart : Standing (At p.advance) [] [] p := .start
  refine delivers_ifNext hstart.toBacked (by decide) (fun _ _ h => ?_) (delivers_pure hstart)
  refine delivers_ifNext h.toBacked (by decide) (fun _ _ h => ?_) ?_
  · refine delivers_need fun nested _ _ hnested => ?_
    exact delivers_pure (standing_ofExpr (h.append hnested))
  · refine delivers_thenBody h.toBacked fun body _ _ h => ?_
    exact delivers_pure h

/-- The steps behind the word of a conditional are supported there. -/
theorem stands_conditionalBody : conditionalBody.Stands := by
  intro p
  refine delivers_current ?_
  refine stands_condition.bind .start fun condition _ _ h => ?_
  refine delivers_thenBody h.toBacked fun consequence _ _ h => ?_
  refine stands_alternative.bind h fun alternative _ _ h => ?_
  exact delivers_pure (h.cons rfl)

/-- The steps in a conditional are supported there. -/
theorem stands_conditional : conditional.Stands :=
  fun _ => delivers_need fun _ _ _ h => h

/-- The steps in a `while` loop are supported there. -/
theorem stands_whileLoop : whileLoop.Stands := by
  intro p
  refine delivers_current ?_
  refine stands_condition.bind .start fun condition _ _ h => ?_
  refine delivers_thenBody h.toBacked fun body _ _ h => ?_
  exact delivers_pure (h.cons rfl)

/-- The names of a `for` loop are no steps. -/
theorem backs_loopNames : loopNames.Backs := by
  intro p
  refine backs_expectIdentifier.bind .none fun first _ _ h => ?_
  refine delivers_ifNext h (by decide) (fun _ _ h => ?_) (delivers_pure h)
  refine backs_expectIdentifier.bind h.toBacked fun second _ _ h => ?_
  exact delivers_pure h

/-- The steps in a `for` loop are supported there. -/
theorem stands_forLoop : forLoop.Stands := by
  intro p
  have hstart : Standing (At p.advance) [] [] p := .start
  refine delivers_current ?_
  refine backs_loopNames.bind hstart.toBacked fun names _ _ h => ?_
  refine delivers_thenExpect h (by decide) fun _ _ h => ?_
  refine stands_nextExpr.bind h fun iterable _ _ h => ?_
  refine delivers_thenBody h.toBacked fun body _ _ h => ?_
  exact delivers_pure (h.cons rfl)

/-- The name of the round is no node, and a step behind its parenthesis has no excuse. -/
theorem delivers_loopCounter :
    loopCounter.Delivers support (fun _ q calls => Standing (At p.advance) [] calls q) [] p := by
  have hstart : Standing (At p.advance) [] [] p := .start
  refine delivers_ifNext hstart.toBacked (by decide) (fun _ _ h => ?_) (delivers_pure hstart)
  refine delivers_expectIdentifier fun counter _ => ?_
  exact delivers_thenExpect h.toBacked (by decide) fun _ _ h => delivers_pure h

/-- The steps in a `repeat` loop are supported there. -/
theorem stands_repeatLoop : repeatLoop.Stands := by
  intro p
  refine delivers_current (delivers_loopCounter.seq fun counter _ _ h => ?_)
  refine stands_nextExpr.bind h fun count _ _ h => ?_
  refine delivers_thenBody h.toBacked fun body _ _ h => ?_
  exact delivers_pure (h.cons rfl)

/-! ## Switch and match -/

/-- The steps in the other values of a clause are supported there. -/
theorem stands_caseValues : caseValues.Stands := by
  intro p
  have hstart : Standing (At p.advance) [] [] p := .start
  refine delivers_ifNext hstart.toBacked (by decide) (fun _ _ h => ?_) (delivers_pure hstart)
  refine stands_nextExpr.bind h fun value _ _ h => ?_
  refine delivers_need fun rest _ _ hrest => ?_
  exact delivers_pure (h.append hrest)

/-- The values of a clause stand behind its first word. -/
theorem delivers_selection (excused : Parser → Prop) :
    selection.Delivers support (fun values q calls => Standing excused (Leafy.nodes values) calls q)
      [] p := by
  refine delivers_look ?_
  change Delivers support _ (if _ then _ else if _ then _ else _) [] p
  split
  · next hdefault =>
    exact delivers_pure (Backed.standing .nil (by rw [Parser.kind, hdefault]; decide))
  · split
    · next hcase =>
      have hword : Standing excused [] [] p :=
        Backed.standing .nil (by rw [Parser.kind, hcase]; decide)
      refine delivers_advance (delivers_look ?_)
      change Delivers support _ (if _ then _ else _) [] p.advance
      split
      · next hdefault =>
        exact delivers_pure (Backed.standing .nil (by rw [Parser.kind, hdefault]; decide))
      · refine delivers_expr fun first _ _ hfirst => ?_
        refine delivers_need fun rest _ _ hrest => ?_
        exact delivers_pure ((hword.append hfirst).append hrest)
    · exact delivers_fail _

/-- The steps in a clause are supported there. -/
theorem stands_clause : clause.Stands := by
  intro p
  refine delivers_advance (delivers_current ?_)
  refine (delivers_selection (At p.advance)).seq fun values _ _ h => ?_
  refine delivers_thenBody h.toBacked fun body _ _ h => ?_
  exact delivers_pure h

/-- The steps in the clauses that are left of a switch are supported there. -/
theorem backsInside_clauses : clauses.BacksInside :=
  backsInside_untilBrace _ rfl (fun _ _ => rfl) stands_clause fun _ =>
    delivers_need fun _ _ _ h => h

/-- The steps in a switch are supported there. -/
theorem stands_switch : switch.Stands := by
  intro p
  refine delivers_current ?_
  refine stands_condition.bind .start fun subject _ _ h => ?_
  refine delivers_thenExpect h.toBacked (by decide) fun _ _ h => ?_
  refine delivers_braces (fun _ _ _ _ h => h) h fun clauses _ _ h => ?_
  dsimp only
  split
  · exact delivers_fail _
  · exact delivers_pure (h.cons rfl)

/-- The steps in the condition behind a pattern are supported there. -/
theorem backs_guard : guard.Backs := by
  intro p
  refine delivers_ifNext .none (by decide) (fun _ _ h => ?_) (delivers_pure .nil)
  refine stands_nextExpr.bind h fun condition _ _ h => ?_
  exact delivers_pure h.toBacked

/-- The steps in what a case does are supported there. -/
theorem stands_caseBody : caseBody.Stands := by
  intro p
  have hstart : Standing (At p.advance) [] [] p := .start
  refine delivers_ifNext hstart.toBacked (by decide) (fun _ _ h => ?_) ?_
  · exact stands_block.last h fun _ _ _ h => h
  · refine stands_nextExpr.bind hstart fun e _ _ h => ?_
    exact delivers_pure (standing_ofExpr h)

/-- The steps in a case are supported there. -/
theorem stands_matchCase : matchCase.Stands := by
  intro p
  refine delivers_advance (delivers_current ?_)
  refine delivers_need fun pattern _ _ h => ?_
  refine backs_guard.bind h fun guard _ _ h => ?_
  refine delivers_thenExpect h (by decide) fun _ _ h => ?_
  refine stands_caseBody.bind h fun body _ _ h => ?_
  exact delivers_ifNext h.toBacked (by decide) (fun _ _ h => delivers_pure h) (delivers_pure h)

/-- The steps in the cases that are left of a match are supported there. -/
theorem backsInside_matchCases : matchCases.BacksInside :=
  backsInside_untilBrace _ rfl (fun _ _ => rfl) stands_matchCase
    fun _ => delivers_need fun _ _ _ h => h

/-- The steps in a match are supported there. -/
theorem stands_matching : matching.Stands := by
  intro p
  refine delivers_current ?_
  refine stands_nextExpr.bind .start fun subject _ _ h => ?_
  refine delivers_thenExpect h.toBacked (by decide) fun _ _ h => ?_
  refine delivers_braces (fun _ _ _ _ h => h) h fun cases _ _ h => ?_
  exact delivers_pure (h.cons rfl)

/-! ## Patterns -/

/-- Nothing but a comma leads to further items. -/
theorem delivers_patternTail (restSeen : Bool) :
    (patternTail restSeen).Delivers support
      (fun items _ calls => Backed Never (Leafy.nodes items) calls ∧
        (restSeen = true → items = ([], none))) [] p := by
  refine delivers_ifNext .none (by decide) (fun q _ h => ?_) (delivers_pure ⟨.nil, fun _ => rfl⟩)
  refine delivers_need ?_
  rintro items r calls ⟨hrest, hitems⟩
  refine delivers_pure ⟨h.toBacked.append hitems h.meets, fun hseen => absurd hseen ?_⟩
  simp [hrest]

/-- The steps in the items of a pattern are backed, and no rest element was seen before. -/
theorem delivers_patternItems (restSeen : Bool) :
    (patternItems restSeen).Delivers support
      (fun items _ calls => restSeen = false ∧ Backed (At p.advance) (Leafy.nodes items) calls)
      [] p := by
  refine delivers_advance (delivers_look ?_)
  change Delivers support _ (if _ then _ else _) [] p.advance
  split
  · split
    · exact delivers_fail _
    · next hseen =>
      split
      · refine delivers_advance (delivers_current ?_)
        refine (delivers_patternTail true).seq ?_
        -- nothing is found behind the rest element, so that it is the last item
        rintro items _ calls ⟨hitems, hnone⟩
        obtain rfl := hnone rfl
        exact delivers_pure ⟨by simpa using hseen, (Backed.nil.both hitems).cons rfl⟩
      · exact delivers_fail _
  · split
    · exact delivers_fail _
    · next hseen =>
      refine delivers_need fun element _ _ h => ?_
      refine (delivers_patternTail false).seq fun items _ calls hitems => ?_
      refine delivers_pure ⟨by simpa using hseen, ?_⟩
      have hall := h.both hitems.1
      change Backed _ (element.nodes ++ (Expr.nodesEach items.1 ++
        Identifier.nodes? items.2)) _ at hall
      rw [← List.append_assoc] at hall
      exact hall

/-- The steps in an array pattern are backed. -/
theorem delivers_arrayPattern :
    arrayPattern.Delivers support (fun e _ calls => Backed (At p.advance) e.nodes calls) [] p := by
  refine delivers_current ?_
  refine delivers_ifPeek (fun _ => delivers_advance (delivers_pure (Backed.cons .nil rfl))) ?_
  refine delivers_need fun items _ _ hitems => ?_
  exact delivers_expect fun _ => delivers_pure (hitems.2.cons rfl)

/-- The steps in the pattern of a case are backed, but for one on the token at hand. -/
theorem delivers_patternBody :
    patternBody.Delivers support (fun e _ calls => Backed (At p) e.nodes calls) [] p := by
  refine delivers_look ?_
  change Delivers support _ (if _ then _ else if _ then _ else _) [] p
  split
  · next hbracket =>
    refine delivers_arrayPattern.imp fun _ _ _ h => h.of_kind ?_
    rw [Parser.kind, hbracket]
    decide
  · split
    · next hcurly =>
      refine (stands_dict p).imp fun _ _ _ h => h.toBacked.of_kind ?_
      rw [Parser.kind, hcurly]
      decide
    · exact delivers_expr fun _ _ _ h => h.toBacked

/-! ## Functions -/

/-- The defaults behind a comma are backed, each for itself. -/
theorem delivers_parameterTail (defaultSeen : Bool) :
    (parameterTail defaultSeen).Delivers support
      (fun parameters _ calls => DefaultsBacked parameters calls) [] p := by
  refine delivers_ifNext .none (by decide) (fun _ _ _ => ?_) (delivers_pure .nil)
  exact delivers_need fun _ _ _ h => h

/-- The defaults of parameters are backed, each for itself. -/
theorem delivers_parameters (defaultSeen : Bool) :
    (parameters defaultSeen).Delivers support
      (fun parameters _ calls => DefaultsBacked parameters calls) [] p := by
  refine delivers_expectIdentifier fun id _ => ?_
  refine delivers_ifNext .none (by decide) (fun _ _ h => ?_) ?_
  · refine stands_nextExpr.bind h fun value _ _ h => ?_
    refine (delivers_parameterTail true).seq fun rest _ _ hrest => ?_
    refine delivers_pure (DefaultsBacked.cons h.toBacked.calls_only ?_ hrest)
    rintro _ ⟨⟩
    exact h.toBacked
  · split
    · exact delivers_fail _
    · refine (delivers_parameterTail false).seq fun rest _ _ hrest => ?_
      exact delivers_pure (DefaultsBacked.cons .nil nofun hrest)

/-- The defaults of a parameter list are backed, each for itself. -/
theorem delivers_parameterList :
    parameterList.Delivers support (fun parameters _ calls => DefaultsBacked parameters calls)
      [] p := by
  refine delivers_ifPeek (fun _ => delivers_advance (delivers_pure .nil)) ?_
  refine delivers_need fun parameters _ _ h => ?_
  exact delivers_expect fun _ => delivers_pure h

/-- A name that may be missing is no step. -/
theorem backs_optionalName : optionalName.Backs :=
  fun _ => delivers_ifPeek
    (fun _ => delivers_advance (delivers_current (delivers_pure (Backed.cons .nil rfl))))
    (delivers_pure .nil)

/-- The steps in a function are supported there. -/
theorem stands_functionFrom (async : Bool) (token : Token) :
    (functionFrom async token).Stands := by
  intro p
  have hstart : Standing (At p.advance) [] [] p := .start
  refine backs_optionalName.bind hstart.toBacked fun name _ _ h => ?_
  refine delivers_thenExpect h (by decide) fun _ _ h => ?_
  refine delivers_parameterList.seq fun parameters _ _ hparameters => ?_
  refine delivers_thenBody (h.toBacked.both hparameters.backed) fun body _ _ h => ?_
  have hall : Standing (At p.advance) (Identifier.nodes? name ++
      (Identifier.nodesEach (parameters.map Prod.fst) ++
        Expr.nodesDefaults (Defaults.ofParameters parameters)) ++ body.nodes) _ _ := h
  rw [← List.append_assoc] at hall
  exact delivers_pure (hall.cons rfl)

/-- The steps in a function with its own word are supported there. -/
theorem stands_function : function.Stands :=
  fun p => delivers_current (stands_functionFrom false _ p)

/-- The steps in a function announced by `async` are supported there. -/
theorem stands_asyncFunction : asyncFunction.Stands := by
  intro p
  have hstart : Standing (At p.advance) [] [] p := .start
  refine delivers_current ?_
  refine delivers_thenExpect hstart.toBacked (by decide) fun _ _ h => ?_
  exact (stands_functionFrom true _).last h fun _ _ _ h => h

/-! ## Channels, imports, packages -/

/-- The steps in the size of a channel are supported there. -/
theorem stands_channel : channel.Stands := by
  intro p
  have hstart : Standing (At p.advance) [] [] p := .start
  refine delivers_current ?_
  refine delivers_ifNext hstart.toBacked (by decide) (fun _ _ h => ?_)
    (delivers_pure (hstart.cons rfl))
  refine stands_grouping.bind h fun size _ _ h => ?_
  exact delivers_pure (h.cons rfl)

/-- The names of an import are no steps, and the last one is at hand. -/
theorem delivers_names :
    names.Delivers support (fun _ q calls => Backed Never [] calls ∧ q.kind = .identifier)
      [] p := by
  refine delivers_name.bind fun id _ _ h => ?_
  refine delivers_ifPeek (fun _ => delivers_advance ?_) (delivers_pure ⟨h.1.calls_only, h.2.2⟩)
  exact delivers_need fun _ _ _ hrest => ⟨h.1.calls_only.both hrest.1, hrest.2⟩

/-- An import has no steps and ends on a name. -/
theorem delivers_importing :
    importing.Delivers support
      (fun e q calls => Backed Never e.nodes calls ∧ e.EndsOn q.window.current) [] p := by
  refine delivers_current (delivers_need fun names _ calls h => delivers_pure ⟨?_, h.2⟩)
  refine h.1.of_nodes (List.nil_subset _) fun e hmem hstep => ?_
  -- neither an import nor a name is a step
  rcases List.mem_cons.1 hmem with rfl | hmem
  · cases hstep
  · obtain ⟨name, -, rfl⟩ := List.mem_map.1 hmem
    cases hstep

/-- The steps in a package are supported there. -/
theorem stands_package : package.Stands := by
  intro p
  have hstart : Standing (At p.advance) [] [] p := .start
  refine delivers_current ?_
  refine backs_expectIdentifier.bind hstart.toBacked fun name _ _ h => ?_
  refine delivers_thenBody h fun body _ _ h => ?_
  exact delivers_pure (h.cons rfl)

end Rule

end ScriptFront
