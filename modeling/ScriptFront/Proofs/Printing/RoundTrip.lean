import ScriptFront.Proofs.Lexer.Printed
import ScriptFront.Proofs.Parser.Gives
import ScriptFront.Proofs.Tree.Tokens

/-!
# Parsing undoes printing

An operand is read up to where the loop over operators goes on with it, so each kind of expression
is judged in front of any token, and the loop decides there.

* `Expr.Begins` — from the expression's tokens, reading comes to the loop with the expression as
  what was read so far.
* `Expr.Returns` — in front of a token that is no stronger than the power, the expression is read
  whole.
* `Begins.link` — the step from an operand over the operator behind it.
* `Expr.Operational.begins` — every expression of the operator fragment begins, by induction on it.
* `parse_render` — parsing the printed form gives the expression back, up to its tokens.
-/

namespace ScriptFront

open ScriptFront.Parser

variable {e left : Expr} {elements : List Expr} {p q : Parser} {t u last close : Token}
  {tokens rest : List Token} {power : Power}

/-! ## The first token -/

/-- The kinds of the tokens on which a printed expression starts. -/
def Kind.opening : List Kind :=
  [.identifier, .integer, .string, .trueWord, .falseWord, .nullWord, .atSign, .openBracket,
   .openParen]

/-- An expression of the fragment starts on a token that opens one. -/
theorem Expr.Operational.spell_eq (h : e.Operational) :
    ∃ t tokens, e.spell = t :: tokens ∧ t.kind ∈ Kind.opening := by
  induction h with
  | identifier hname => exact ⟨_, _, rfl, show Kind.identifier ∈ Kind.opening by decide⟩
  | integer htext => exact ⟨_, _, rfl, show Kind.integer ∈ Kind.opening by decide⟩
  | string htext => exact ⟨_, _, rfl, show Kind.string ∈ Kind.opening by decide⟩
  | boolean token value => exact ⟨_, _, rfl, by cases value <;> decide⟩
  | call _ _ _ ih _ =>
    obtain ⟨t, tokens, hspell, hkind⟩ := ih
    exact ⟨t, _, by rw [Expr.spell, hspell]; rfl, hkind⟩
  | property _ _ ih =>
    obtain ⟨t, tokens, hspell, hkind⟩ := ih
    exact ⟨t, _, by rw [Expr.spell, hspell]; rfl, hkind⟩
  | method _ _ _ ih _ =>
    obtain ⟨t, tokens, hspell, hkind⟩ := ih
    exact ⟨t, _, by rw [Expr.spell, hspell]; rfl, hkind⟩
  | _ => exact ⟨_, _, rfl, by decide⟩

/-- An expression of the fragment has a token at least. -/
theorem Expr.Operational.length_pos (h : e.Operational) : 0 < e.spell.length := by
  obtain ⟨t, tokens, hspell, -⟩ := h.spell_eq
  simp [hspell]

/-! ## Operands -/

/-- From the expression's tokens, reading comes to the loop over operators with the expression as
what was read so far. A property in front of an opening parenthesis would be a method. -/
def Expr.Begins (e : Expr) : Prop :=
  ∀ (power : Power) (p : Parser) (t : Token) (rest : List Token), power < .call →
    (e.IsProperty → t.kind ≠ .openParen) → p.Faces (e.spell ++ t :: rest) →
    ∃ e' last q, e'.erase = e.erase ∧ q.Faces (last :: t :: rest) ∧
      ∀ value r, Reads (.links power e') q value r → Reads (.expr power) p value r

/-- In front of a token that is no stronger than the power, the expression is read whole. -/
def Expr.Returns (e : Expr) : Prop :=
  ∀ (power : Power) (p : Parser) (t : Token) (rest : List Token), power < .call →
    ¬ power < Grammar.standard.powerOf t.kind → p.Faces (e.spell ++ t :: rest) →
    ∃ e' last q, e'.erase = e.erase ∧ q.Faces (last :: t :: rest) ∧ Reads (.expr power) p e' q

/-- What is read as an operand is read whole, in front of a token that is not stronger. -/
theorem Expr.Begins.returns (h : e.Begins) : e.Returns := by
  intro power p t rest hpower hstop hp
  -- a parenthesis is stronger than any power that is asked for here, so it does not stop
  have hcall : t.kind ≠ .openParen := by
    intro hkind
    rw [hkind] at hstop
    exact hstop hpower
  obtain ⟨e', last, q, herase, hq, hlinks⟩ := h power p t rest hpower (fun _ => hcall) hp
  exact ⟨e', last, q, herase, hq, hlinks e' q (reads_links_stop hq hstop)⟩

/-- From an operand over the token behind it, which holds it stronger than the power. -/
theorem Expr.Begins.link (h : left.Begins) (hpower : power < .call)
    (hmember : left.IsProperty → t.kind ≠ .openParen)
    (hlink : power < Grammar.standard.powerOf t.kind) {rule : LinkingRule}
    (hrule : Grammar.standard.linking t.kind = some rule)
    (hp : p.Faces (left.spell ++ t :: rest)) (hrest : rest ≠ []) :
    ∃ left' q, left'.erase = left.erase ∧ q.Faces (t :: rest) ∧
      ∀ whole r, (rule.plan left' (Grammar.standard.powerOf t.kind)).Gives q whole r →
        ∀ value s, Reads (.links power whole) r value s → Reads (.expr power) p value s := by
  obtain ⟨left', last, q, herase, hq, hlinks⟩ := h power p t rest hpower hmember hp
  have hlength : 1 ≤ rest.length := List.length_pos_iff.2 hrest
  refine ⟨left', q.advance, herase, hq.advance (by simpa using hlength), ?_⟩
  intro whole r hwhole value s hs
  exact hlinks value s (reads_links hq hlink hrule hwhole hs)

/-- An operand that is read from its first token on. -/
theorem begins_of_leading (hspell : e.spell = t :: tokens)
    (htrailing : Grammar.standard.trailing t.kind = false) {rule : ExpressionRule}
    (hrule : Grammar.standard.leading t.kind = some rule)
    (hplan : ∀ p u rest, p.Faces (t :: (tokens ++ u :: rest)) →
      ∃ e' last q, e'.erase = e.erase ∧ q.Faces (last :: u :: rest) ∧ rule.plan.Gives p e' q) :
    e.Begins := by
  intro power p u rest _ _ hp
  rw [hspell, List.cons_append] at hp
  obtain ⟨e', last, q, herase, hq, hgives⟩ := hplan p u rest hp
  exact ⟨e', last, q, herase, hq, fun value r => reads_expr hp htrailing hrule hgives⟩

/-- An operand of one token. -/
theorem begins_of_token (hspell : e.spell = [t])
    (htrailing : Grammar.standard.trailing t.kind = false) {rule : ExpressionRule}
    (hrule : Grammar.standard.leading t.kind = some rule)
    (hplan : ∀ p, p.window.current = t → ∃ e', e'.erase = e.erase ∧ rule.plan.Gives p e' p) :
    e.Begins := by
  apply begins_of_leading hspell htrailing hrule
  intro p u rest hp
  obtain ⟨e', herase, hgives⟩ := hplan p hp.current_eq
  exact ⟨e', t, p, herase, hp, hgives⟩

/-- An operand that goes on behind another one. -/
theorem Expr.Begins.extend (h : left.Begins) (hspell : e.spell = left.spell ++ t :: tokens)
    (hmember : left.IsProperty → t.kind ≠ .openParen)
    (hlink : Power.call ≤ Grammar.standard.powerOf t.kind) {rule : LinkingRule}
    (hrule : Grammar.standard.linking t.kind = some rule)
    (hplan : ∀ left' q v rest, left'.erase = left.erase → (e.IsProperty → v.kind ≠ .openParen) →
      q.Faces (t :: (tokens ++ v :: rest)) →
      ∃ e' last r, e'.erase = e.erase ∧ r.Faces (last :: v :: rest) ∧
        (rule.plan left' (Grammar.standard.powerOf t.kind)).Gives q e' r) :
    e.Begins := by
  intro power p v rest hpower hproperty hp
  rw [hspell, List.append_assoc, List.cons_append] at hp
  obtain ⟨left', q, hleft', hq, hlinks⟩ :=
    h.link hpower hmember (Nat.lt_of_lt_of_le hpower hlink) hrule hp (by simp)
  obtain ⟨e', last, r, herase, hr, hgives⟩ := hplan left' q v rest hleft' hproperty hq
  exact ⟨e', last, r, herase, hr, hlinks e' r hgives⟩

/-- In front of an expression, the token in sight is its first one. -/
theorem Expr.Operational.peek_mem (h : e.Operational) (hq : q.Faces (t :: (e.spell ++ rest))) :
    q.window.peek.kind ∈ Kind.opening := by
  obtain ⟨u, tokens, hspell, hkind⟩ := h.spell_eq
  rw [hspell] at hq
  rwa [hq.peek_eq]

/-- In front of an expression, the next token is none of the other kinds. -/
theorem Expr.Operational.peek_ne (h : e.Operational) (hq : q.Faces (t :: (e.spell ++ rest)))
    {kind : Kind} (hkind : kind ∉ Kind.opening) : q.window.peek.kind ≠ kind := by
  rintro rfl
  exact hkind (h.peek_mem hq)

/-- An expression that starts on the token in sight, up to one that does not go on with it. -/
theorem Expr.Begins.operand (h : e.Begins) (hoperational : e.Operational) (hpower : power < .call)
    (hstop : ¬ power < Grammar.standard.powerOf u.kind)
    (hq : q.Faces (t :: (e.spell ++ u :: rest))) :
    ∃ e' last r, e'.erase = e.erase ∧ r.Faces (last :: u :: rest) ∧
      Reads (.expr power) q.advance e' r := by
  have hlength := hoperational.length_pos
  exact h.returns power q.advance u rest hpower hstop (hq.advance (by simp; omega))

/-- The same with operators of every power. -/
theorem Expr.Begins.nextExpr (h : e.Begins) (hoperational : e.Operational)
    (hstop : ¬ Power.default < Grammar.standard.powerOf u.kind)
    (hq : q.Faces (t :: (e.spell ++ u :: rest))) :
    ∃ e' last r, e'.erase = e.erase ∧ r.Faces (last :: u :: rest) ∧ Rule.nextExpr.Gives q e' r := by
  obtain ⟨e', last, r, herase, hr, hreads⟩ := h.operand hoperational (by decide) hstop hq
  exact ⟨e', last, r, herase, hr, .nextExpr hreads⟩

/-! ## Parentheses -/

/-- In front of a closing parenthesis, the tokens are read as the expression. -/
def Expr.Within (e : Expr) (tokens : List Token) : Prop :=
  ∀ (p : Parser) (rest : List Token), p.Faces (tokens ++ .first .closeParen ")" :: rest) →
    ∃ e' last q, e'.erase = e.erase ∧ q.Faces (last :: .first .closeParen ")" :: rest) ∧
      Reads (.expr .default) p e' q

/-- What is read between parentheses is read with them as an operand. -/
theorem begins_of_within (hspell : e.spell = inParens tokens) (h : e.Within tokens) :
    e.Begins := by
  have hrule : Grammar.standard.leading .openParen = some .grouping := rfl
  apply begins_of_leading hspell rfl hrule
  intro p u rest hp
  rw [List.append_assoc, List.singleton_append] at hp
  obtain ⟨e', last, q, herase, hq, hreads⟩ := h p.advance _ (hp.advance (by simp; omega))
  refine ⟨e', _, q.advance, herase, hq.advance (by simp), ?_⟩
  exact (Rule.Gives.nextExpr hreads).bind ((Rule.Gives.expect (by rw [hq.peek_eq]; rfl)).bind .done)

/-- Whatever links operands is stronger than nothing. -/
theorem default_lt_powerOf {kind : Kind} {rule : LinkingRule}
    (h : Grammar.standard.linking kind = some rule) :
    Power.default < Grammar.standard.powerOf kind := by
  have hall : Grammar.standard.linking kind ≠ none →
      Power.default < Grammar.standard.powerOf kind := by
    cases kind <;> decide
  exact hall (by simp [h])

/-- An operand, and what links it to the closing parenthesis. -/
theorem Expr.Begins.within (h : left.Begins) {rule : LinkingRule}
    (hrule : Grammar.standard.linking t.kind = some rule) (hcall : rule ≠ .call)
    (hplan : ∀ left' q rest, left'.erase = left.erase →
      q.Faces (t :: (tokens ++ .first .closeParen ")" :: rest)) →
      ∃ e' last r, e'.erase = e.erase ∧ r.Faces (last :: .first .closeParen ")" :: rest) ∧
        (rule.plan left' (Grammar.standard.powerOf t.kind)).Gives q e' r) :
    e.Within (left.spell ++ t :: tokens) := by
  intro p rest hp
  rw [List.append_assoc, List.cons_append] at hp
  have hlink : Power.default < Grammar.standard.powerOf t.kind := default_lt_powerOf hrule
  have hparen : t.kind ≠ .openParen := by
    intro hkind
    rw [hkind] at hrule
    exact hcall (Option.some.inj hrule).symm
  obtain ⟨left', q, hleft', hq, hlinks⟩ :=
    h.link (by decide) (fun _ => hparen) hlink hrule hp (by simp)
  obtain ⟨e', last, r, herase, hr, hgives⟩ := hplan left' q rest hleft' hq
  exact ⟨e', last, r, herase, hr, hlinks e' r hgives e' r (reads_links_stop hr (by decide))⟩

/-! ## Lists -/

/-- The token closes a list. -/
def Token.Closes (t : Token) : Prop :=
  t.kind = .closeParen ∨ t.kind = .closeBracket

/-- No expression starts on a token that closes a list. -/
theorem Token.Closes.not_mem_opening (h : close.Closes) : close.kind ∉ Kind.opening := by
  rcases h with h | h <;> rw [h] <;> decide

/-- Behind an element of a list there is a comma or the closing bracket. -/
theorem exists_spellTail (hclose : close.Closes) (elements : List Expr) (rest : List Token) :
    ∃ u more, Expr.spellTail elements ++ close :: rest = u :: more ∧
      ¬ Power.default < Grammar.standard.powerOf u.kind := by
  cases elements with
  | nil =>
    refine ⟨close, rest, rfl, ?_⟩
    rcases hclose with h | h <;> rw [h] <;> decide
  | cons e later => exact ⟨_, _, rfl, by decide⟩

/-- The rest of a list is read, if its elements are. -/
theorem reads_listTail (hclose : close.Closes) (hoperational : ∀ e ∈ elements, e.Operational)
    (h : ∀ e ∈ elements, e.Begins)
    (hp : p.Faces (last :: (Expr.spellTail elements ++ close :: rest))) :
    ∃ elements' last' q, Expr.eraseEach elements' = Expr.eraseEach elements ∧
      q.Faces (last' :: close :: rest) ∧ Reads (.listTail close.kind) p elements' q := by
  -- the window stands on the last token read, which is another one after each element
  induction elements generalizing p last with
  | nil =>
    have hcomma : p.window.peek.kind ≠ .comma := by
      rw [hp.peek_eq]
      rcases hclose with h | h <;> rw [h] <;> decide
    exact ⟨[], last, p, rfl, hp, Rule.Gives.ifNotPeek hcomma .done⟩
  | cons e later ih =>
    have hfirst := hoperational e List.mem_cons_self
    obtain ⟨u, more, htail, hstop⟩ := exists_spellTail hclose later rest
    have htokens : Expr.spellTail (e :: later) ++ close :: rest =
        .first .comma "," :: (e.spell ++ u :: more) := by
      rw [Expr.spellTail, List.cons_append, List.append_assoc, htail]
    rw [htokens] at hp
    have hcomma : p.window.peek.kind = .comma := by
      rw [hp.peek_eq]
      rfl
    have hnext : p.advance.Faces (.first .comma "," :: (e.spell ++ u :: more)) :=
      hp.advance (by simp; omega)
    have hopen := hfirst.peek_ne hnext hclose.not_mem_opening
    obtain ⟨e', last', q, herase, hq, hgives⟩ :=
      (h e List.mem_cons_self).nextExpr hfirst hstop hnext
    rw [← htail] at hq
    obtain ⟨later', last'', r, herase', hr, hreads'⟩ :=
      ih (fun e he => hoperational e (List.mem_cons_of_mem _ he))
        (fun e he => h e (List.mem_cons_of_mem _ he)) hq
    refine ⟨e' :: later', last'', r, congrArg₂ List.cons herase herase', hr, ?_⟩
    exact .ifPeek hcomma (.shift (.ifNotPeek hopen (hgives.bind (.need hreads' .done))))

/-- A list is read, if its elements are. -/
theorem reads_list (hclose : close.Closes) (hoperational : ∀ e ∈ elements, e.Operational)
    (h : ∀ e ∈ elements, e.Begins)
    (hp : p.Faces (t :: (Expr.spellEach elements ++ close :: u :: rest))) :
    ∃ elements' q, Expr.eraseEach elements' = Expr.eraseEach elements ∧
      q.Faces (close :: u :: rest) ∧ Reads (.list close.kind) p elements' q := by
  cases elements with
  | nil =>
    have hpeek : p.window.peek.kind = close.kind := congrArg Token.kind hp.peek_eq
    exact ⟨[], p.advance, rfl, hp.advance (by simp [Expr.spellEach]), .ifPeek hpeek (.shift .done)⟩
  | cons e later =>
    have hfirst := hoperational e List.mem_cons_self
    obtain ⟨u', more, htail, hstop⟩ := exists_spellTail hclose later (u :: rest)
    have htokens : Expr.spellEach (e :: later) ++ close :: u :: rest = e.spell ++ u' :: more := by
      rw [Expr.spellEach, List.append_assoc, htail]
    rw [htokens] at hp
    have hopen := hfirst.peek_ne hp hclose.not_mem_opening
    obtain ⟨e', last, q, herase, hq, hgives⟩ := (h e List.mem_cons_self).nextExpr hfirst hstop hp
    rw [← htail] at hq
    obtain ⟨later', last', r, herase', hr, hreads'⟩ :=
      reads_listTail hclose (fun e he => hoperational e (List.mem_cons_of_mem _ he))
        (fun e he => h e (List.mem_cons_of_mem _ he)) hq
    have hpeek : r.window.peek.kind = close.kind := congrArg Token.kind hr.peek_eq
    refine ⟨e' :: later', r.advance, congrArg₂ List.cons herase herase', hr.advance (by simp), ?_⟩
    exact .ifNotPeek hopen (hgives.bind (.need hreads' ((Rule.Gives.expect hpeek).bind .done)))

/-! ## Members and calls -/

/-- A name is read as an operand. -/
theorem begins_identifier (id : Identifier) : (Expr.identifier id).Begins := by
  refine begins_of_token rfl rfl rfl fun p hp => ⟨_, ?_, .look .done⟩
  rw [hp]
  rfl

/-- A property is read as an operand, if what it belongs to is. -/
theorem Expr.Begins.property {object : Expr} (h : object.Begins) (token : Token)
    (id : Identifier) : (Expr.property token object id).Begins := by
  have hrule : Grammar.standard.linking .dot = some .member := rfl
  apply h.extend rfl (fun _ => by decide) (by decide) hrule
  intro object' q v rest hobject hcall hq
  have hpeek : q.window.peek = .first .identifier id.name := hq.peek_eq
  have hname : q.window.peek.kind = .identifier := congrArg Token.kind hpeek
  have hnext : q.advance.Faces (.first .identifier id.name :: v :: rest) := hq.advance (by simp)
  have hparen : q.advance.window.peek.kind ≠ .openParen := by
    rw [hnext.peek_eq]
    exact hcall trivial
  refine ⟨.property q.window.current object' (Identifier.ofToken q.window.peek), _, q.advance, ?_,
    hnext, .look ((Rule.Gives.expectIdentifier hname).bind (.ifNotPeek hparen .done))⟩
  rw [hpeek]
  exact congrArg (Expr.property default · ⟨default, id.name⟩) hobject

/-- A method is read as an operand, if what it belongs to is, and each argument. -/
theorem Expr.Begins.method {object : Expr} (h : object.Begins) (token : Token) (id : Identifier)
    (hoperational : ∀ e ∈ elements, e.Operational) (helements : ∀ e ∈ elements, e.Begins) :
    (Expr.method token object id elements).Begins := by
  have hrule : Grammar.standard.linking .dot = some .member := rfl
  apply h.extend rfl (fun _ => by decide) (by decide) hrule
  intro object' q v rest hobject _ hq
  have hpeek : q.window.peek = .first .identifier id.name := hq.peek_eq
  have hname : q.window.peek.kind = .identifier := congrArg Token.kind hpeek
  have hnext : q.advance.Faces (.first .identifier id.name ::
      (inParens (Expr.spellEach elements) ++ v :: rest)) := hq.advance (by simp [inParens])
  have hparen : q.advance.window.peek.kind = .openParen := congrArg Token.kind hnext.peek_eq
  have hopen := hnext.advance (by simp [inParens]; omega)
  rw [inParens, List.cons_append, List.append_assoc] at hopen
  obtain ⟨elements', r, herase, hr, hreads⟩ :=
    reads_list (.inl rfl) hoperational helements hopen
  refine ⟨.method q.window.current object' (Identifier.ofToken q.window.peek) elements', _, r, ?_,
    hr, .look ((Rule.Gives.expectIdentifier hname).bind
      (.ifPeek hparen (.shift (.need hreads .done))))⟩
  rw [hpeek]
  exact congrArg₂ (Expr.method default · ⟨default, id.name⟩ ·) hobject herase

/-- A call is read as an operand, if what is called is and is no property, and each argument. -/
theorem Expr.Begins.call {function : Expr} (h : function.Begins) (hmember : ¬ function.IsProperty)
    (token : Token) (hoperational : ∀ e ∈ elements, e.Operational)
    (helements : ∀ e ∈ elements, e.Begins) : (Expr.call token function elements).Begins := by
  have hrule : Grammar.standard.linking .openParen = some .call := rfl
  apply h.extend rfl (fun hproperty => absurd hproperty hmember) (by decide) hrule
  intro function' q v rest hfunction _ hq
  rw [List.append_assoc] at hq
  obtain ⟨elements', r, herase, hr, hreads⟩ := reads_list (.inl rfl) hoperational helements hq
  refine ⟨.call q.window.current function' elements', _, r, ?_, hr, .look (.need hreads .done)⟩
  exact congrArg₂ (Expr.call default · ·) hfunction herase

/-! ## Operators -/

/-- A call is stronger than every operator between operands. -/
theorem powerOf_lt_call {kind : Kind} (h : Grammar.standard.linking kind = some .binary) :
    Grammar.standard.powerOf kind < .call := by
  revert h
  cases kind <;> decide

/-- An operator between its operands is read in its parentheses. -/
theorem Expr.Begins.binary {right : Expr} {operator : String} (hleft : left.Begins)
    (hright : right.Begins) (hoperational : right.Operational) (hoperator : IsInfix operator)
    (token : Token) : (Expr.binary token left operator right).Begins := by
  have hrule : Grammar.standard.linking (Token.first (operatorKind operator) operator).kind =
      some .binary := hoperator
  apply begins_of_within rfl
  apply hleft.within hrule (by decide)
  intro left' q rest hleft' hq
  obtain ⟨right', last, r, herase, hr, hreads⟩ :=
    hright.operand hoperational (powerOf_lt_call hoperator) (Nat.not_lt_zero _) hq
  refine ⟨.binary q.window.current left' q.window.current.value right', last, r, ?_, hr,
    .look (.shift (.need hreads .done))⟩
  rw [hq.current_eq]
  exact congrArg₂ (Expr.binary default · operator ·) hleft' herase

/-- A range is read in its parentheses. -/
theorem Expr.Begins.range {right : Expr} (hleft : left.Begins) (hright : right.Begins)
    (hoperational : right.Operational) (token : Token) :
    (Expr.range token left right).Begins := by
  have hrule : Grammar.standard.linking .dotDot = some .range := rfl
  apply begins_of_within rfl
  apply hleft.within hrule (by decide)
  intro left' q rest hleft' hq
  have hpower : Grammar.standard.powerOf .dotDot < .call := by decide
  obtain ⟨right', last, r, herase, hr, hreads⟩ :=
    hright.operand hoperational hpower (by decide) hq
  refine ⟨.range q.window.current left' right', last, r, ?_, hr,
    .look (.shift (.need hreads .done))⟩
  exact congrArg₂ (Expr.range default · ·) hleft' herase

/-- What is read inside parentheses from an operator that stands before its operand. -/
theorem within_of_leading {right : Expr} (hright : right.Begins)
    (hoperational : right.Operational) (htrailing : Grammar.standard.trailing t.kind = false)
    {rule : ExpressionRule} (hrule : Grammar.standard.leading t.kind = some rule)
    (hplan : ∀ q right' r, q.window.current = t → right'.erase = right.erase →
      Reads (.expr .unary) q.advance right' r →
      ∃ e', e'.erase = e.erase ∧ rule.plan.Gives q e' r) :
    e.Within (t :: right.spell) := by
  intro p rest hp
  rw [List.cons_append] at hp
  have hpower : Power.unary < .call := by decide
  obtain ⟨right', last, r, hright', hr, hreads⟩ :=
    hright.operand hoperational hpower (by decide) hp
  obtain ⟨e', herase, hgives⟩ := hplan p right' r hp.current_eq hright' hreads
  exact ⟨e', last, r, herase, hr,
    reads_expr hp htrailing hrule hgives (reads_links_stop hr (by decide))⟩

/-- An operator in front of its operand is read in its parentheses. -/
theorem Expr.Begins.unary {right : Expr} {operator : String} (hright : right.Begins)
    (hoperational : right.Operational) (hoperator : IsPrefix operator) (token : Token) :
    (Expr.unary token operator right).Begins := by
  have hrule : Grammar.standard.leading (Token.first (operatorKind operator) operator).kind =
      some .unary := hoperator
  have htrailing : ∀ kind, Grammar.standard.leading kind = some .unary →
      Grammar.standard.trailing kind = false := by
    intro kind
    cases kind <;> decide
  apply begins_of_within rfl
  apply within_of_leading hright hoperational (htrailing _ hrule) hrule
  intro q right' r hq hright' hreads
  refine ⟨.unary q.window.current q.window.current.value right', ?_,
    .look (.shift (.need hreads .done))⟩
  rw [hq]
  exact congrArg (Expr.unary default operator ·) hright'

/-- An `await` is read in its parentheses. -/
theorem Expr.Begins.await {value : Expr} (hvalue : value.Begins)
    (hoperational : value.Operational) (token : Token) : (Expr.await token value).Begins := by
  have hrule : Grammar.standard.leading .awaitWord = some .await := rfl
  apply begins_of_within rfl
  apply within_of_leading hvalue hoperational rfl hrule
  intro q value' r hq hvalue' hreads
  exact ⟨.await q.window.current value', congrArg (Expr.await default ·) hvalue',
    .look (.shift (.need hreads .done))⟩

/-! ## Assignments -/

/-- An assignment to a target with a node gives the node of the value. -/
theorem gives_assignment {value : Expr} {node : Expr → Expr} {r : Parser}
    (hnode : Rule.assignmentNode? q.window.current left = some node)
    (hvalue : Rule.nextExpr.Gives q value r) :
    (Rule.assignment left).Gives q (node value) r := by
  refine Rule.Gives.look ?_
  dsimp only [Rule.bind]
  rw [hnode]
  exact hvalue.bind .done

/-- An assignment to a target from which the grammar makes the right node. -/
theorem Expr.Begins.assigned {target value : Expr} {operator : String} (htarget : target.Begins)
    (hvalue : value.Begins) (hoperational : value.Operational) (hoperator : IsAssignment operator)
    (hspell : e.spell =
      inParens (target.spell ++ .first (operatorKind operator) operator :: value.spell))
    (hnode : ∀ target', target'.erase = target.erase → ∃ node,
      Rule.assignmentNode? (.first (operatorKind operator) operator) target' = some node ∧
        ∀ value', value'.erase = value.erase → (node value').erase = e.erase) :
    e.Begins := by
  have hrule : Grammar.standard.linking (Token.first (operatorKind operator) operator).kind =
      some .assignment := hoperator
  apply begins_of_within hspell
  apply htarget.within hrule (by decide)
  intro target' q rest htarget' hq
  obtain ⟨value', last, r, hvalue', hr, hgives⟩ := hvalue.nextExpr hoperational (by decide) hq
  obtain ⟨node, hnode, herase⟩ := hnode target' htarget'
  rw [← hq.current_eq] at hnode
  exact ⟨node value', last, r, herase value' hvalue', hr, gives_assignment hnode hgives⟩

/-- An assignment to a name is read in its parentheses. -/
theorem Expr.Begins.assign {value : Expr} (hvalue : value.Begins)
    (hoperational : value.Operational) (token : Token) (name : Identifier) :
    (Expr.assign token name value).Begins := by
  have hoperator : IsAssignment "=" := rfl
  apply (begins_identifier name).assigned hvalue hoperational hoperator rfl
  intro target' htarget'
  obtain ⟨name', rfl, hname⟩ := Expr.exists_of_erase_identifier htarget'
  refine ⟨_, rfl, fun value' hvalue' => ?_⟩
  exact congrArg₂ (fun name value => Expr.assign default ⟨default, name⟩ value) hname hvalue'

/-- An assignment to a name that computes at once is read in its parentheses. -/
theorem Expr.Begins.compoundAssign {value : Expr} {operator : String} (hvalue : value.Begins)
    (hoperational : value.Operational) (hoperator : IsAssignment operator)
    (hcompound : operator ≠ "=") (token : Token) (name : Identifier) :
    (Expr.compoundAssign token name operator value).Begins := by
  have hkind : operatorKind operator ≠ .assignment := by
    have hall : ∀ entry ∈ operatorKinds, entry.2 = .assignment → entry.1 = "=" := by decide
    intro hkind
    exact hcompound (hall _ (mem_operatorKinds hoperator.ne_illegal) hkind)
  apply (begins_identifier name).assigned hvalue hoperational hoperator rfl
  intro target' htarget'
  obtain ⟨name', rfl, hname⟩ := Expr.exists_of_erase_identifier htarget'
  refine ⟨_, if_neg hkind, fun value' hvalue' => ?_⟩
  exact congrArg₂ (fun name value => Expr.compoundAssign default ⟨default, name⟩ operator value)
    hname hvalue'

/-- An assignment to an index is read in its parentheses. -/
theorem Expr.Begins.indexAssign {target value : Expr} {operator : String} (htarget : target.Begins)
    (hindex : target.IsIndex) (hvalue : value.Begins) (hoperational : value.Operational)
    (hoperator : IsAssignment operator) (token : Token) :
    (Expr.indexAssign token target operator value).Begins := by
  apply htarget.assigned hvalue hoperational hoperator rfl
  intro target' htarget'
  -- the target came out of its parentheses as an index, so it can be assigned to
  obtain ⟨bracket, object, position, rfl⟩ : ∃ bracket object position,
      target = .index bracket object position := by
    cases target with
    | index bracket object position => exact ⟨bracket, object, position, rfl⟩
    | _ => exact hindex.elim
  obtain ⟨bracket', object', position', rfl⟩ := Expr.exists_of_erase_index htarget'
  refine ⟨_, rfl, fun value' hvalue' => ?_⟩
  exact congrArg₂ (Expr.indexAssign default · operator ·) htarget' hvalue'

/-- An assignment to a property is read in its parentheses. -/
theorem Expr.Begins.propertyAssign {object value : Expr} {operator : String}
    (hobject : object.Begins) (hvalue : value.Begins) (hoperational : value.Operational)
    (hoperator : IsAssignment operator) (token dot : Token) (property : Identifier) :
    (Expr.propertyAssign token dot object property operator value).Begins := by
  have hspell : (Expr.propertyAssign token dot object property operator value).spell =
      inParens ((Expr.property dot object property).spell ++
        .first (operatorKind operator) operator :: value.spell) := by
    simp [Expr.spell]
  apply (hobject.property dot property).assigned hvalue hoperational hoperator hspell
  intro target' htarget'
  obtain ⟨dot', object', property', rfl, hobject', hproperty⟩ :=
    Expr.exists_of_erase_property htarget'
  refine ⟨_, rfl, fun value' hvalue' => ?_⟩
  have hname : property'.mapTokens (fun _ => default) = property.mapTokens (fun _ => default) :=
    congrArg (Identifier.mk default) hproperty
  change Expr.propertyAssign default default object'.erase _ operator value'.erase = _
  rw [hobject', hvalue', hname]
  rfl

/-! ## Indices and slices -/

/-- The rest of a slice is read, with an end or without. -/
theorem gives_sliceStop {stop : Option Expr} (hoperational : ∀ e ∈ stop, e.Operational)
    (hstop : ∀ e ∈ stop, e.Begins) (token : Token) (left : Expr) (start : Option Expr)
    (hq : q.Faces (t :: (Expr.spell? stop ++ .first .closeBracket "]" :: u :: rest))) :
    ∃ stop' r, Expr.erase? stop' = Expr.erase? stop ∧
      r.Faces (.first .closeBracket "]" :: u :: rest) ∧
      (Rule.sliceStop token left start).Gives q (.slice token left start stop') r := by
  cases stop with
  | none =>
    have hpeek : q.window.peek.kind = .closeBracket := congrArg Token.kind hq.peek_eq
    exact ⟨none, q.advance, rfl, hq.advance (by simp [Expr.spell?]), .ifPeek hpeek (.shift .done)⟩
  | some e =>
    rw [Expr.spell?] at hq
    have hopen : q.window.peek.kind ≠ .closeBracket := (hoperational e rfl).peek_ne hq (by decide)
    obtain ⟨e', last, r, herase, hr, hgives⟩ :=
      (hstop e rfl).nextExpr (hoperational e rfl) (by decide) hq
    have hclose : r.window.peek.kind = .closeBracket := congrArg Token.kind hr.peek_eq
    refine ⟨some e', r.advance, congrArg some herase, hr.advance (by simp), ?_⟩
    exact .ifNotPeek hopen (hgives.bind ((Rule.Gives.expect hclose).bind .done))

/-- An index is read in its parentheses. -/
theorem Expr.Begins.index {position : Expr} (hleft : left.Begins) (hposition : position.Begins)
    (hoperational : position.Operational) (token : Token) :
    (Expr.index token left position).Begins := by
  have hrule : Grammar.standard.linking .openBracket = some .index := rfl
  apply begins_of_within rfl
  apply hleft.within hrule (by decide)
  intro left' q rest hleft' hq
  rw [List.append_assoc] at hq
  have hcolon : q.window.peek.kind ≠ .colon := hoperational.peek_ne hq (by decide)
  obtain ⟨position', last, r, herase, hr, hgives⟩ :=
    hposition.nextExpr hoperational (by decide) hq
  have hclose : r.window.peek.kind = .closeBracket := congrArg Token.kind hr.peek_eq
  have hcolon' : r.window.peek.kind ≠ .colon := by
    rw [hclose]
    decide
  refine ⟨.index q.window.current left' position', _, r.advance, ?_, hr.advance (by simp),
    .look (.ifNotPeek hcolon (hgives.bind
      (.ifNotPeek hcolon' ((Rule.Gives.expect hclose).bind .done))))⟩
  exact congrArg₂ (Expr.index default · ·) hleft' herase

/-- A slice is read in its parentheses, with either bound or without. -/
theorem Expr.Begins.slice {start stop : Option Expr} (hleft : left.Begins)
    (hstart : ∀ e ∈ start, e.Begins) (hstart' : ∀ e ∈ start, e.Operational)
    (hstop : ∀ e ∈ stop, e.Begins) (hstop' : ∀ e ∈ stop, e.Operational) (token : Token) :
    (Expr.slice token left start stop).Begins := by
  have hrule : Grammar.standard.linking .openBracket = some .index := rfl
  apply begins_of_within rfl
  apply hleft.within hrule (by decide)
  intro left' q rest hleft' hq
  rw [List.append_assoc, List.append_assoc, List.cons_append] at hq
  cases start with
  | none =>
    have hcolon : q.window.peek.kind = .colon := congrArg Token.kind hq.peek_eq
    obtain ⟨stop', r, herase, hr, hgives⟩ := gives_sliceStop hstop' hstop q.window.current left'
      none (hq.advance (by simp [Expr.spell?]; omega))
    refine ⟨_, _, r, ?_, hr, .look (.ifPeek hcolon (.shift hgives))⟩
    exact congrArg₂ (Expr.slice default · none ·) hleft' herase
  | some first =>
    have hoperational := hstart' first rfl
    rw [Expr.spell?] at hq
    have hcolon : q.window.peek.kind ≠ .colon := hoperational.peek_ne hq (by decide)
    obtain ⟨first', last, r, hfirst, hr, hgives⟩ :=
      (hstart first rfl).nextExpr hoperational (by decide) hq
    have hcolon' : r.window.peek.kind = .colon := congrArg Token.kind hr.peek_eq
    obtain ⟨stop', s, herase, hs, hgives'⟩ := gives_sliceStop hstop' hstop q.window.current left'
      (some first') (hr.advance (by simp; omega))
    refine ⟨_, _, s, ?_, hs, .look (.ifNotPeek hcolon (hgives.bind
      (.ifPeek hcolon' (.shift hgives'))))⟩
    change Expr.slice default left'.erase (some first'.erase) (Expr.erase? stop') = _
    rw [hleft', hfirst, herase]
    rfl

/-! ## The whole fragment -/

/-- An array is read as an operand, if its elements are. -/
theorem begins_array (token : Token) (hoperational : ∀ e ∈ elements, e.Operational)
    (helements : ∀ e ∈ elements, e.Begins) : (Expr.array token elements).Begins := by
  have hrule : Grammar.standard.leading .openBracket = some .array := rfl
  apply begins_of_leading rfl rfl hrule
  intro p u rest hp
  rw [List.append_assoc] at hp
  obtain ⟨elements', q, herase, hq, hreads⟩ := reads_list (.inr rfl) hoperational helements hp
  exact ⟨.array p.window.current elements', _, q, congrArg (Expr.array default ·) herase, hq,
    .look (.need hreads .done)⟩

/-- An integer literal is read as an operand. -/
theorem begins_integer {token : Token} {value : Int} (h : Lexeme.IsInteger token.value value) :
    (Expr.integer token value).Begins := by
  have hrule : Grammar.standard.leading .integer = some .integer := rfl
  refine begins_of_token rfl rfl hrule fun p hp => ⟨.integer p.window.current value, rfl, .look ?_⟩
  have hvalue : Numeral.integer? p.window.current.value = some value := by
    rw [hp]
    exact Lexeme.integer?_of_isInteger h
  dsimp only [Rule.bind]
  rw [hvalue]
  exact .done

/-- A truth value is read as an operand. -/
theorem begins_boolean (token : Token) (value : Bool) : (Expr.boolean token value).Begins := by
  cases value with
  | true =>
    refine begins_of_token rfl rfl rfl fun p hp => ⟨_, ?_, .look .done⟩
    rw [hp]
    rfl
  | false =>
    refine begins_of_token rfl rfl rfl fun p hp => ⟨_, ?_, .look .done⟩
    rw [hp]
    rfl

/-- Every expression of the operator fragment is read back from its tokens as an operand. -/
theorem Expr.Operational.begins (h : e.Operational) : e.Begins := by
  -- an operand in parentheses is read by itself, and one without them goes on from its first part
  induction h with
  | @identifier id hname => exact begins_identifier id
  | integer htext => exact begins_integer htext
  | @string token text htext =>
    refine begins_of_token rfl rfl rfl fun p hp => ⟨_, ?_, .look .done⟩
    rw [hp]
    rfl
  | boolean token value => exact begins_boolean token value
  | null token =>
    exact begins_of_token rfl rfl rfl fun p hp => ⟨.null p.window.current, rfl, .look .done⟩
  | receiver token =>
    exact begins_of_token rfl rfl rfl fun p hp => ⟨.receiver p.window.current, rfl, .look .done⟩
  | @array token elements helements ih => exact begins_array token helements ih
  | @unary token operator right hoperator hright ih => exact ih.unary hright hoperator token
  | @binary token left right operator hoperator hleft hright ihleft ihright =>
    exact ihleft.binary ihright hright hoperator token
  | @range token start stop hstart hstop ihstart ihstop => exact ihstart.range ihstop hstop token
  | @assign token name value hname hvalue ih => exact ih.assign hvalue token name
  | @compoundAssign token name operator value hname hoperator hcompound hvalue ih =>
    exact ih.compoundAssign hvalue hoperator hcompound token name
  | @indexAssign token target value operator hindex htarget hoperator hvalue ihtarget ihvalue =>
    exact ihtarget.indexAssign hindex ihvalue hvalue hoperator token
  | @propertyAssign token dot object value property operator hobject hproperty hoperator hvalue
      ihobject ihvalue =>
    exact ihobject.propertyAssign ihvalue hvalue hoperator token dot property
  | @call token function arguments hmember hfunction harguments ihfunction iharguments =>
    exact ihfunction.call hmember token harguments iharguments
  | @index token left position hleft hposition ihleft ihposition =>
    exact ihleft.index ihposition hposition token
  | @slice token left start stop hleft hstart hstop ihleft ihstart ihstop =>
    exact ihleft.slice ihstart hstart ihstop hstop token
  | @property token object property hobject hproperty ih => exact ih.property token property
  | @method token object method arguments hobject hmethod harguments ihobject iharguments =>
    exact ihobject.method token method harguments iharguments
  | @await token value hvalue ih => exact ih.await hvalue token

/-! ## Programs -/

/-- An expression of the fragment and the end of input are a statement. -/
theorem reads_stmt (h : e.Operational) (hp : p.Faces (e.spell ++ [Token.eof 1])) :
    ∃ token e' q, e'.erase = e.erase ∧ q.window.peek.kind = .eof ∧
      Reads .stmt p (.expression token e') q := by
  obtain ⟨t, tokens, hspell, hkind⟩ := h.spell_eq
  have hpower : Power.default < .call := by decide
  obtain ⟨e', last, q, herase, hq, hreads⟩ :=
    h.begins.returns .default p _ [] hpower (by decide) hp
  have hpeek : q.window.peek.kind = .eof := congrArg Token.kind hq.peek_eq
  have hsemicolon : q.window.peek.kind ≠ .semicolon := by
    rw [hpeek]
    decide
  have hall : ∀ kind ∈ Kind.opening, Grammar.standard.statement kind = none := by decide
  rw [hspell] at hp
  exact ⟨t, e', q, herase, hpeek,
    reads_expressionStatement hp (hall _ hkind) hreads hsemicolon⟩

/-- The parser takes the tokens of an expression of the fragment for a program of one statement. -/
theorem parseTokens_spell (h : e.Operational) :
    ∃ token e', parseTokens (e.spell ++ [Token.eof 1]) =
      (⟨[some (.expression token e')]⟩, []) ∧ e'.erase = e.erase := by
  have hlength := h.length_pos
  have hp : (ofTokens (e.spell ++ [Token.eof 1])).Faces (e.spell ++ [Token.eof 1]) :=
    faces_ofTokens (by simp; omega)
  have hstart : (ofTokens (e.spell ++ [Token.eof 1])).kind ≠ .eof := by
    obtain ⟨t, tokens, hspell, hkind⟩ := h.spell_eq
    rw [hspell] at hp ⊢
    rw [kind, hp.current_eq]
    rintro heof
    exact absurd (heof ▸ hkind) (by decide)
  obtain ⟨token, e', q, herase, hpeek, hreads⟩ := reads_stmt h hp
  exact ⟨token, e', parseTokens_eq_of_reads hstart hreads hpeek, herase⟩

/-- **Parsing undoes printing.** The printed form of an expression of the operator fragment is split
into tokens and parsed without a problem, and it gives a program of one expression statement, whose
expression differs from the printed one at most in the tokens that are stored in it. -/
theorem parse_render (e : Expr) (h : e.Operational) :
    ∃ token e', parseText e.render = .ok (⟨[some (.expression token e')]⟩, []) ∧
      e'.erase = e.erase := by
  obtain ⟨token, e', hparse, herase⟩ := parseTokens_spell h
  refine ⟨token, e', ?_, herase⟩
  rw [parseText, tokenize_render h]
  exact congrArg Except.ok hparse

/-- An expression in which lexemes of many kinds touch. -/
def sliced : Expr :=
  .compoundAssign default ⟨default, "total"⟩ "+=" (.slice default
    (.call default (.identifier ⟨default, "pick"⟩)
      [.property default (.integer ⟨.integer, "0", 1⟩ 0) ⟨default, "x"⟩,
       .string default "a\n\x22b\x22"])
    (some (.range default (.integer ⟨.integer, "1", 1⟩ 1)
      (.unary default "-" (.unary default "-" (.integer ⟨.integer, "0x1F", 1⟩ 31)))))
    none)

/-- The sliced expression is one of the fragment. -/
theorem sliced_operational : sliced.Operational := by
  have hzero : Lexeme.IsInteger "0" 0 := ⟨.digits, by decide⟩
  have hone : Lexeme.IsInteger "1" 1 := ⟨.digits, by decide⟩
  have hmarked : Lexeme.IsInteger "0x1F" 31 := ⟨.marked .hexadecimal, by decide⟩
  have hshown : Text.IsShown "a\n\x22b\x22" := by
    have hall : ("a\n\x22b\x22".toList.all fun c =>
        Text.quoteChar c != Text.codeEscape c) = true := rfl
    intro c hc
    simpa using List.all_eq_true.1 hall c hc
  refine .compoundAssign ⟨rfl, rfl⟩ rfl (by decide) (.slice (.call id (.identifier ⟨rfl, rfl⟩) ?_)
    ?_ ?_)
  · simp only [List.mem_cons, List.not_mem_nil, or_false]
    rintro e (rfl | rfl)
    · exact .property (.integer hzero) ⟨rfl, rfl⟩
    · exact .string hshown
  · rintro e ⟨⟩
    exact .range (.integer hone) (.unary rfl (.unary rfl (.integer hmarked)))
  · rintro e ⟨⟩

/-- The law at such an expression. -/
theorem parse_render_sliced :
    sliced.render = "(total += (pick(0.x, \"a\\n\\\"b\\\"\")[(1..(-(-0x1F))):]))" ∧
      ∃ token e', parseText sliced.render = .ok (⟨[some (.expression token e')]⟩, []) ∧
        e'.erase = sliced.erase := by
  refine ⟨?_, parse_render sliced sliced_operational⟩
  decide

end ScriptFront
