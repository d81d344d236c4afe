import ScriptFront.Proofs.Printing.Operands
import ScriptFront.Proofs.Tree.Operational

/-!
# Reading operators

An operator is printed with its operands in parentheses. What stands in these begins with the
operator itself or with an operand, and then the character behind the operand says how it goes on.

* `Inside` — what stands in the parentheses of an operator. An assignment is a target, an operator
  and a value, whatever its target is.
* `Inside.built` — the expression of an operator, as far as it is shown.
* `Expr.headReads_group` — operators are read, if their operands are.
-/

namespace ScriptFront

open Lexeme

/-- What stands in the parentheses of an operator. -/
inductive Inside where
  /-- An operator and its operand. -/
  | sign (operator : String) (right : Expr)
  /-- `await` and what is awaited. -/
  | await (value : Expr)
  /-- A step behind a closing bracket, of which nothing else is kept. -/
  | bracket (operator : String)
  /-- Two operands and a word or a mark between them. -/
  | binary (left : Expr) (operator : String) (right : Expr)
  /-- Two bounds. -/
  | range (start stop : Expr)
  /-- An operand with an index. -/
  | index (left position : Expr)
  /-- An operand with the bounds of a slice. -/
  | slice (left : Expr) (start stop : Option Expr)
  /-- A step behind a name. -/
  | step (left : Expr) (operator : String)

namespace Inside

/-- The operand that the text begins with. -/
def left? : Inside → Option Expr
  | .sign _ _ | .await _ | .bracket _ => none
  | .binary left _ _ | .range left _ | .index left _ | .slice left _ _ | .step left _ => some left

/-- What stands behind the operand that the text begins with, or all of the text. -/
def tail : Inside → List Char
  | .sign operator right => operator.toList ++ (right.text ++ [')'])
  | .await value => ['a', 'w', 'a', 'i', 't', ' '] ++ (value.text ++ [')'])
  | .bracket operator => ']' :: (operator.toList ++ [')'])
  | .binary _ operator right => ' ' :: (operator.toList ++ ' ' :: (right.text ++ [')']))
  | .range _ stop => '.' :: '.' :: (stop.text ++ [')'])
  | .index _ position => '[' :: (position.text ++ [']', ')'])
  | .slice _ start stop => '[' :: (Expr.text? start ++ ':' :: (Expr.text? stop ++ [']', ')']))
  | .step _ operator => operator.toList ++ [')']

/-- The expressions in the parentheses. -/
def parts : Inside → List Expr
  | .sign _ right => [right]
  | .await value => [value]
  | .bracket _ => []
  | .binary left _ right => [left, right]
  | .range start stop => [start, stop]
  | .index left position => [left, position]
  | .slice left start stop => left :: (start.toList ++ stop.toList)
  | .step left _ => [left]

/-- The operator can stand where it does. -/
def Spelled : Inside → Prop
  | .sign operator _ => IsPrefix operator
  | .binary _ operator _ => IsInfix operator ∨ IsAssignment operator
  | .bracket operator | .step _ operator => operator = "++" ∨ operator = "--"
  | _ => True

/-- What is shown of an operator and its operands. -/
def shown : Inside → Inside
  | .sign operator right => .sign operator right.shown
  | .await value => .await value.shown
  | .bracket operator => .bracket operator
  | .binary left operator right => .binary left.shown operator right.shown
  | .range start stop => .range start.shown stop.shown
  | .index left position => .index left.shown position.shown
  | .slice left start stop => .slice left.shown (Expr.shown? start) (Expr.shown? stop)
  | .step left operator => .step left.shown operator

/-- The assignment to a target. -/
def assigned (operator : String) (value : Expr) : Expr → Expr
  | .identifier id =>
    if operator = "=" then .assign default id value else .compoundAssign default id operator value
  | .property _ object name => .propertyAssign default default object name operator value
  | target => .indexAssign default target operator value

/-- The expression of an operator and its operands. -/
def built : Inside → Expr
  | .sign operator right => .unary default operator right
  | .await value => .await default value
  | .bracket operator | .step _ operator => .step default operator
  | .binary left operator right =>
    if Grammar.standard.linking (operatorKind operator) = some .assignment then
      assigned operator right left
    else .binary default left operator right
  | .range start stop => .range default start stop
  | .index left position => .index default left position
  | .slice left start stop => .slice default left start stop

end Inside

/-! ## Operators -/

section Operators

variable {operator : String}

/-- The marks that stand before their operand. -/
def signs : List Char :=
  ['!', '-', '+', '&', '*']

/-- An operator in front of its operand is one of the signs. -/
theorem exists_sign (h : IsPrefix operator) : ∃ c ∈ signs, operator.toList = [c] := by
  have hall : ∀ entry ∈ operatorKinds, Grammar.standard.leading entry.2 = some .unary →
      entry.1.toList ∈ signs.map fun c => [c] := by decide
  have hmem : operator.toList ∈ signs.map fun c => [c] := by
    refine hall _ (mem_operatorKinds fun hillegal => ?_) h
    rw [IsPrefix, hillegal] at h
    cases h
  obtain ⟨c, hc, hsign⟩ := List.mem_map.1 hmem
  exact ⟨c, hc, hsign.symm⟩

/-- What stands between operands is one word or mark. -/
theorem space_not_mem (h : IsInfix operator ∨ IsAssignment operator) : ' ' ∉ operator.toList := by
  have hall : ∀ entry ∈ operatorKinds, ' ' ∉ entry.1.toList := by decide
  exact hall _ (mem_operatorKinds (h.elim IsInfix.ne_illegal IsAssignment.ne_illegal))

/-- An operator between operands ends the one in front of it. -/
theorem follow_operator (h : IsInfix operator ∨ IsAssignment operator) {place : Place}
    (rest : List Char) : Follow place (' ' :: (operator.toList ++ ' ' :: rest)) := by
  have hall : ∀ entry ∈ operatorKinds, entry.1 = "in" ∨
      entry.1.toList.head?.any (!isWordPart ·) = true := by decide
  apply follow_space
  rcases hall _ (mem_operatorKinds (h.elim IsInfix.ne_illegal IsAssignment.ne_illegal)) with
    hin | hword
  · subst hin
    exact .inr (.inl ⟨rest, rfl⟩)
  · obtain ⟨c, hc, hword⟩ := (Option.any_eq_true _ _).1 hword
    obtain ⟨run, hrun⟩ := List.head?_eq_some_iff.1 hc
    rw [hrun]
    exact .inl (by simpa using hword)

end Operators

/-! ## Bounds -/

/-- An expression that may be missing is told from a rest that begins no expression. -/
theorem append_cancel_text? {bound bound' : Option Expr} {rest rest' : List Char}
    (h : ∀ e ∈ bound, e.Readable) (h' : ∀ e ∈ bound', e.Lawful) (hrest : Follow .whole rest)
    (hrest' : Follow .whole rest') (hclosing : ∀ c ∈ rest.head?, Expr.opensExpr c = false)
    (hclosing' : ∀ c ∈ rest'.head?, Expr.opensExpr c = false)
    (heq : Expr.text? bound ++ rest = Expr.text? bound' ++ rest') :
    Expr.shown? bound = Expr.shown? bound' ∧ rest = rest' := by
  have hne : ∀ {e : Expr} {rest rest' : List Char}, e.Lawful →
      (∀ c ∈ rest.head?, Expr.opensExpr c = false) → rest ≠ e.text ++ rest' := by
    rintro e rest rest' he hclosing rfl
    obtain ⟨c, run, htext, hc⟩ := he.exists_opening
    simp [htext, hc] at hclosing
  cases bound with
  | none =>
    cases bound' with
    | none => exact ⟨rfl, heq⟩
    | some e' => exact absurd heq (hne (h' e' rfl) hclosing)
  | some e =>
    cases bound' with
    | none => exact absurd heq.symm (hne (h e rfl).lawful hclosing')
    | some e' =>
      obtain ⟨hshown, heq⟩ := (h e rfl).reads.whole (h' e' rfl) hrest hrest' heq
      exact ⟨congrArg some hshown, heq⟩

/-! ## What stands in parentheses -/

namespace Inside

variable {i i' : Inside} {left : Expr} {rest rest' : List Char}

/-- The characters between the opening parenthesis and the end. -/
def text (i : Inside) : List Char :=
  i.left?.elim [] Expr.text ++ i.tail

/-- The operators are spelled like ones and the operands can be built from the tokens of a text. -/
structure Lawful (i : Inside) : Prop where
  spelled : i.Spelled
  parts : ∀ e ∈ i.parts, e.Lawful

/-- The operand in front is one of the parts. -/
theorem left_mem_parts (h : i.left? = some left) : left ∈ i.parts := by
  cases i <;> cases h <;> simp [parts]

/-- The start of a slice is one of its parts. -/
theorem start_mem_parts {start stop : Option Expr} {e : Expr} (h : e ∈ start) :
    e ∈ (slice left start stop).parts := by
  simp [parts, Option.mem_def.1 h]

/-- The end of a slice is one of its parts. -/
theorem stop_mem_parts {start stop : Option Expr} {e : Expr} (h : e ∈ stop) :
    e ∈ (slice left start stop).parts := by
  simp [parts, Option.mem_def.1 h]

/-- What the text begins with. -/
def family : Inside → Family
  | .sign _ _ => .sign
  | .await _ => .await
  | .bracket _ => .bracket
  | .binary left _ _ | .range left _ | .index left _ | .slice left _ _ | .step left _ =>
    left.head.family

/-- An operator behind its operand goes on with no expression. -/
theorem follow_step {operator : String} (h : operator = "++" ∨ operator = "--") :
    Follow .whole (operator.toList ++ rest) := by
  rcases h with rfl | rfl <;> exact follow_cons (by decide)

/-- The operand in front ends where the text goes on. -/
theorem Spelled.follow (h : i.Spelled) (hleft : i.left? = some left) :
    Follow .whole (i.tail ++ rest) := by
  cases i with
  | sign | await | bracket => cases hleft
  | binary left operator right =>
    rw [tail, List.cons_append, List.append_assoc, List.cons_append]
    exact follow_operator h _
  | range => exact follow_point_point
  | index | slice => exact follow_cons (by decide)
  | step left operator =>
    rw [tail, List.append_assoc]
    exact follow_step h

/-- With an operand in front, the parentheses begin as it does. -/
theorem family_of_left (h : i.left? = some left) : i.family = left.head.family := by
  cases i <;> cases h <;> rfl

/-- With an operand in front, the text is that of the operand and the tail. -/
theorem text_of_left (h : i.left? = some left) : i.text = left.text ++ i.tail := by
  rw [text, h]
  rfl

/-- Without an operand in front, the tail is all of the text. -/
theorem text_of_none (h : i.left? = none) : i.text = i.tail := by
  rw [text, h]
  rfl

/-- What stands in the parentheses is seen from what it begins with. -/
theorem Lawful.family_text (h : i.Lawful) : ScriptFront.family (i.text ++ rest) = i.family := by
  cases hleft : i.left? with
  | none =>
    rw [text_of_none hleft]
    cases i with
    | sign operator right =>
      have hall : ∀ c ∈ signs, isWordPart c = false ∧ ScriptFront.family [c] = .sign := by
        intro c hc
        simp only [signs, List.mem_cons, List.not_mem_nil, or_false] at hc
        rcases hc with rfl | rfl | rfl | rfl | rfl <;> decide +kernel
      obtain ⟨c, hc, hoperator⟩ := exists_sign h.spelled
      obtain ⟨hword, hfamily⟩ := hall c hc
      rw [tail, hoperator]
      exact (family_cons hword).trans hfamily
    | await => rfl
    | bracket => rfl
    | _ => cases hleft
  | some left =>
    have hlawful := h.parts left (left_mem_parts hleft)
    have hfollow : Follow .whole (i.tail ++ rest) := h.spelled.follow hleft
    have hends := hfollow.ends_links hlawful.links
    rw [text_of_left hleft, family_of_left hleft, Expr.text_eq_head_links, List.append_assoc,
      List.append_assoc]
    exact Expr.family_text hlawful.head left.isHead_head hends.word

/-- No operand begins like an operator. -/
theorem family_head (e : Expr) :
    e.head.family ≠ .sign ∧ e.head.family ≠ .await ∧ e.head.family ≠ .bracket := by
  cases e.head <;> exact ⟨nofun, nofun, nofun⟩

/-- An operand in front of the closing parenthesis is told from what stands behind. -/
theorem append_cancel_operand {e e' : Expr} (h : e.Readable) (h' : e'.Lawful)
    (heq : e.text ++ ([')'] ++ rest) = e'.text ++ ([')'] ++ rest')) :
    e.shown = e'.shown ∧ rest = rest' := by
  obtain ⟨hshown, heq⟩ := h.reads.whole h' (follow_cons (by decide)) (follow_cons (by decide)) heq
  exact ⟨hshown, (List.cons.inj heq).2⟩

/-- A step is told from what stands behind it. -/
theorem append_cancel_step {operator operator' : String} (h : operator = "++" ∨ operator = "--")
    (h' : operator' = "++" ∨ operator' = "--")
    (heq : operator.toList ++ ([')'] ++ rest) = operator'.toList ++ ([')'] ++ rest')) :
    operator = operator' ∧ rest = rest' := by
  rcases h with rfl | rfl <;> rcases h' with rfl | rfl <;> simp at heq
  · exact ⟨rfl, heq⟩
  · exact ⟨rfl, heq⟩

/-- A bound and what it ends with are told from what stands behind. -/
theorem append_cancel_bound {bound bound' : Option Expr} {c c' : Char} (hc : c ∈ [']', ':'])
    (hc' : c' ∈ [']', ':']) (h : ∀ e ∈ bound, e.Readable) (h' : ∀ e ∈ bound', e.Lawful)
    (heq : Expr.text? bound ++ c :: rest = Expr.text? bound' ++ c' :: rest') :
    Expr.shown? bound = Expr.shown? bound' ∧ c = c' ∧ rest = rest' := by
  have hends : ∀ c ∈ [']', ':'], endsExpr c = true ∧ Expr.opensExpr c = false := by
    intro c hc
    simp only [List.mem_cons, List.not_mem_nil, or_false] at hc
    rcases hc with rfl | rfl <;> decide
  obtain ⟨hshown, heq⟩ := append_cancel_text? h h' (follow_cons (hends c hc).1)
    (follow_cons (hends c' hc').1) (by simpa using (hends c hc).2) (by simpa using (hends c' hc').2)
    heq
  exact ⟨hshown, List.cons.inj heq⟩

/-- Behind the operand in front, what stands in the parentheses is told from what stands behind. -/
theorem append_cancel_tail (h : i.Lawful) (hparts : ∀ e ∈ i.parts, e.Readable) (h' : i'.Lawful)
    (hleft : i.left?.map Expr.shown = i'.left?.map Expr.shown)
    (hfamily : i.left? = none → i.family = i'.family)
    (heq : i.tail ++ rest = i'.tail ++ rest') : i.shown = i'.shown ∧ rest = rest' := by
  have hspelled := h.spelled
  have hspelled' := h'.spelled
  have hlawful' := h'.parts
  cases i with
  | sign operator right =>
    cases i' with
    | sign operator' right' =>
      obtain ⟨c, -, hc⟩ := exists_sign hspelled
      obtain ⟨c', -, hc'⟩ := exists_sign hspelled'
      simp only [tail, hc, hc', List.append_assoc] at heq
      have hsame : c = c' := (List.cons.inj heq).1
      rw [hsame, List.append_cancel_left_eq] at heq
      obtain ⟨hright, heq⟩ := append_cancel_operand (hparts right (by simp [parts]))
        (hlawful' right' (by simp [parts])) heq
      have hoperator : operator = operator' := String.toList_inj.1 (by rw [hc, hc', hsame])
      exact ⟨congrArg₂ sign hoperator hright, heq⟩
    | await | bracket => cases hfamily rfl
    | _ => cases hleft
  | await value =>
    cases i' with
    | await value' =>
      simp only [tail, List.append_assoc, List.append_cancel_left_eq] at heq
      obtain ⟨hvalue, heq⟩ := append_cancel_operand (hparts value (by simp [parts]))
        (hlawful' value' (by simp [parts])) heq
      exact ⟨congrArg await hvalue, heq⟩
    | sign | bracket => cases hfamily rfl
    | _ => cases hleft
  | bracket operator =>
    cases i' with
    | bracket operator' =>
      simp only [tail, List.cons_append, List.append_assoc, List.cons.injEq, true_and] at heq
      obtain ⟨hoperator, heq⟩ := append_cancel_step hspelled hspelled' heq
      exact ⟨congrArg bracket hoperator, heq⟩
    | sign | await => cases hfamily rfl
    | _ => cases hleft
  | binary left operator right =>
    cases i' with
    | binary left' operator' right' =>
      simp only [tail, List.cons_append, List.append_assoc, List.cons.injEq, true_and] at heq
      obtain ⟨hoperator, heq⟩ := Text.append_cancel_of_not_mem (space_not_mem hspelled)
        (space_not_mem hspelled') heq
      obtain ⟨hright, heq⟩ := append_cancel_operand (hparts right (by simp [parts]))
        (hlawful' right' (by simp [parts])) heq
      refine ⟨?_, heq⟩
      rw [shown, shown, Option.some.inj hleft, String.toList_inj.1 hoperator, hright]
    | sign | await | bracket => cases hleft
    | step _ operator' => rcases hspelled' with rfl | rfl <;> simp [tail] at heq
    | _ => simp [tail] at heq
  | range start stop =>
    cases i' with
    | range start' stop' =>
      simp only [tail, List.cons_append, List.append_assoc, List.cons.injEq, true_and] at heq
      obtain ⟨hstop, heq⟩ := append_cancel_operand (hparts stop (by simp [parts]))
        (hlawful' stop' (by simp [parts])) heq
      exact ⟨congrArg₂ range (Option.some.inj hleft) hstop, heq⟩
    | sign | await | bracket => cases hleft
    | step _ operator' => rcases hspelled' with rfl | rfl <;> simp [tail] at heq
    | _ => simp [tail] at heq
  | index left position =>
    have hbound : ∀ e ∈ some position, e.Readable := by
      simpa using hparts position (by simp [parts])
    cases i' with
    | index left' position' =>
      have hbound' : ∀ e ∈ some position', e.Lawful := by
        simpa using hlawful' position' (by simp [parts])
      simp only [tail, List.cons_append, List.append_assoc, List.cons.injEq, true_and] at heq
      obtain ⟨hposition, -, heq⟩ := append_cancel_bound (by simp) (by simp) hbound hbound' heq
      refine ⟨congrArg₂ index (Option.some.inj hleft) (Option.some.inj hposition), ?_⟩
      exact (List.cons.inj heq).2
    | slice left' start' stop' =>
      have hbound' : ∀ e ∈ start', e.Lawful := fun e he => hlawful' e (start_mem_parts he)
      simp only [tail, List.cons_append, List.append_assoc, List.cons.injEq, true_and] at heq
      exact absurd (append_cancel_bound (by simp) (by simp) hbound hbound' heq).2.1 (by decide)
    | sign | await | bracket => cases hleft
    | step _ operator' => rcases hspelled' with rfl | rfl <;> simp [tail] at heq
    | _ => simp [tail] at heq
  | slice left start stop =>
    have hstart : ∀ e ∈ start, e.Readable := fun e he => hparts e (start_mem_parts he)
    have hstop : ∀ e ∈ stop, e.Readable := fun e he => hparts e (stop_mem_parts he)
    cases i' with
    | index left' position' =>
      have hbound' : ∀ e ∈ some position', e.Lawful := by
        simpa using hlawful' position' (by simp [parts])
      simp only [tail, List.cons_append, List.append_assoc, List.cons.injEq, true_and] at heq
      exact absurd (append_cancel_bound (by simp) (by simp) hstart hbound' heq).2.1 (by decide)
    | slice left' start' stop' =>
      have hstart' : ∀ e ∈ start', e.Lawful := fun e he => hlawful' e (start_mem_parts he)
      have hstop' : ∀ e ∈ stop', e.Lawful := fun e he => hlawful' e (stop_mem_parts he)
      simp only [tail, List.cons_append, List.append_assoc, List.cons.injEq, true_and] at heq
      obtain ⟨hstart, -, heq⟩ := append_cancel_bound (by simp) (by simp) hstart hstart' heq
      obtain ⟨hstop, -, heq⟩ := append_cancel_bound (by simp) (by simp) hstop hstop' heq
      refine ⟨?_, (List.cons.inj heq).2⟩
      rw [shown, shown, Option.some.inj hleft, hstart, hstop]
    | sign | await | bracket => cases hleft
    | step _ operator' => rcases hspelled' with rfl | rfl <;> simp [tail] at heq
    | _ => simp [tail] at heq
  | step left operator =>
    cases i' with
    | step left' operator' =>
      simp only [tail, List.append_assoc] at heq
      obtain ⟨hoperator, heq⟩ := append_cancel_step hspelled hspelled' heq
      exact ⟨congrArg₂ step (Option.some.inj hleft) hoperator, heq⟩
    | sign | await | bracket => cases hleft
    | _ => rcases hspelled with rfl | rfl <;> simp [tail] at heq

/-- What stands in parentheses is told from what stands behind. -/
theorem Lawful.append_cancel (h : i.Lawful) (hparts : ∀ e ∈ i.parts, e.Readable) (h' : i'.Lawful)
    (heq : i.text ++ rest = i'.text ++ rest') : i.shown = i'.shown ∧ rest = rest' := by
  have hfamily : i.family = i'.family := by
    rw [← h.family_text, heq, h'.family_text]
  have hnone : ∀ {i : Inside}, i.left? = none → i.family ∈ [.sign, .await, .bracket] := by
    intro i hleft
    cases i <;> cases hleft <;> simp [family]
  have hsome : ∀ {i : Inside} {left : Expr}, i.left? = some left →
      i.family ∉ [.sign, .await, .bracket] := by
    intro i left hleft
    simpa [family_of_left hleft] using family_head left
  cases hleft : i.left? with
  | none =>
    cases hleft' : i'.left? with
    | none =>
      rw [text_of_none hleft, text_of_none hleft'] at heq
      exact append_cancel_tail h hparts h' (by simp [hleft, hleft']) (fun _ => hfamily) heq
    | some left' => exact absurd (hfamily ▸ hnone hleft) (hsome hleft')
  | some left =>
    cases hleft' : i'.left? with
    | none => exact absurd (hfamily ▸ hnone hleft') (hsome hleft)
    | some left' =>
      rw [text_of_left hleft, text_of_left hleft', List.append_assoc, List.append_assoc] at heq
      obtain ⟨hshown, heq⟩ := (hparts left (left_mem_parts hleft)).reads.whole
        (h'.parts left' (left_mem_parts hleft')) (h.spelled.follow hleft) (h'.spelled.follow hleft')
        heq
      exact append_cancel_tail h hparts h' (by simp [hleft, hleft', hshown]) (by simp [hleft]) heq

end Inside

/-! ## Operators as expressions -/

namespace Expr

variable {e : Expr} {token : Token} {id : Identifier}

/-- What stands in the parentheses of an operator. -/
def inside : Expr → Inside
  | .unary _ operator right => .sign operator right
  | .binary _ left operator right => .binary left operator right
  | .step token operator =>
    if token.kind = .identifier then .step (.identifier (.ofToken token)) operator
    else .bracket operator
  | .range _ start stop => .range start stop
  | .assign _ name value => .binary (.identifier name) "=" value
  | .compoundAssign _ name operator value => .binary (.identifier name) operator value
  | .indexAssign _ target operator value => .binary target operator value
  | .propertyAssign _ dot object name operator value =>
    .binary (.property dot object name) operator value
  | .index _ left position => .index left position
  | .slice _ left start stop => .slice left start stop
  | .await _ value => .await value
  | e => .await e

/-- An operator is printed with its operands in parentheses. -/
theorem text_eq_inside (h : e.Lawful) (hfamily : e.family = .group) :
    e.text = '(' :: e.inside.text := by
  obtain ⟨site, h⟩ := h
  cases e <;> cases hfamily
  case step token operator =>
    rw [inside, text_step]
    split
    · rfl
    · next hkind =>
      have hbracket := h.2.1.resolve_left hkind
      rw [h.1.value_of_closeBracket hbracket]
      rfl
  all_goals simp [inside, Inside.text, Inside.left?, Inside.tail]

/-- A bound of a slice that obeys the law is lawful. -/
theorem lawful_bound {bound : Option Expr} (h : Expr.Obeys? spelledLaw bound) :
    ∀ e ∈ bound.toList, e.Lawful := by
  cases bound with
  | none => simp
  | some e => exact List.forall_mem_singleton.2 (Obeys.lawful h)

/-- An operator that assigns and computes at once goes on with its target. -/
theorem linking_of_isCompound {kind : Kind} (h : kind.isCompound = true) :
    Grammar.standard.linking kind = some .assignment := by
  cases kind <;> cases h <;> rfl

/-- The text of a token that assigns is an operator that does. -/
theorem isAssignment_of_linking {operator : String} (hknown : token.Spelled)
    (hvalue : token.value = operator)
    (hkind : Grammar.standard.linking token.kind = some .assignment) : IsAssignment operator := by
  subst hvalue
  rw [IsAssignment, hknown.operatorKind_eq (.inr (.inr hkind)), hkind]

/-- What stands in the parentheses of a lawful expression is lawful. -/
theorem lawful_inside (h : e.Lawful) (hfamily : e.family = .group) : e.inside.Lawful := by
  obtain ⟨site, h⟩ := h
  cases e <;> cases hfamily
  case unary token operator right =>
    obtain ⟨⟨hknown, hkind, rfl⟩, hright⟩ := h
    refine ⟨?_, List.forall_mem_singleton.2 hright.lawful⟩
    change Grammar.standard.leading (operatorKind token.value) = some .unary
    rw [hknown.operatorKind_eq (.inl hkind), hkind]
  case binary token left operator right =>
    obtain ⟨⟨hknown, hkind, rfl⟩, hleft, hright⟩ := h
    refine ⟨.inl ?_, by simpa [Inside.parts, inside] using ⟨hleft.lawful, hright.lawful⟩⟩
    rw [IsInfix, hknown.operatorKind_eq (.inr (.inl hkind)), hkind]
  case step token operator =>
    obtain ⟨hknown, hkind, mark, hmark, htrailing, hvalue⟩ := h
    have hstep := hmark.value_of_trailing htrailing
    rw [hvalue] at hstep
    rw [inside]
    split
    · next hname =>
      exact ⟨hstep, List.forall_mem_singleton.2 ⟨.operand, trivial, hknown, hname, rfl⟩⟩
    · exact ⟨hstep, by simp [Inside.parts]⟩
  case range token start stop =>
    exact ⟨trivial, by simpa [Inside.parts, inside] using ⟨h.2.1.lawful, h.2.2.lawful⟩⟩
  case assign token name value =>
    refine ⟨.inr rfl, ?_⟩
    simpa [Inside.parts, inside] using ⟨(lawful_identifier h.2.1 .operand).lawful, h.2.2.lawful⟩
  case compoundAssign token name operator value =>
    obtain ⟨⟨hknown, hkind, hvalue⟩, hname, hright⟩ := h
    refine ⟨.inr (isAssignment_of_linking hknown hvalue (linking_of_isCompound hkind)), ?_⟩
    simpa [Inside.parts, inside] using ⟨(lawful_identifier hname .operand).lawful, hright.lawful⟩
  case indexAssign token target operator value =>
    obtain ⟨⟨hknown, hkind, hvalue, -⟩, htarget, hright⟩ := h
    refine ⟨.inr (isAssignment_of_linking hknown hvalue hkind), ?_⟩
    simpa [Inside.parts, inside] using ⟨htarget.lawful, hright.lawful⟩
  case propertyAssign token dot object name operator value =>
    obtain ⟨⟨hknown, hkind, hvalue⟩, hobject, hname, hright⟩ := h
    have htarget : (property dot object name).Lawful := ⟨.operand, trivial, hobject, hname⟩
    refine ⟨.inr (isAssignment_of_linking hknown hvalue hkind), ?_⟩
    simpa [Inside.parts, inside] using ⟨htarget, hright.lawful⟩
  case index token left position =>
    exact ⟨trivial, by simpa [Inside.parts, inside] using ⟨h.2.1.lawful, h.2.2.lawful⟩⟩
  case slice token left start stop =>
    refine ⟨trivial, ?_⟩
    rw [inside, Inside.parts, List.forall_mem_cons, List.forall_mem_append]
    exact ⟨h.2.1.lawful, lawful_bound h.2.2.1, lawful_bound h.2.2.2⟩
  case await token value =>
    exact ⟨trivial, List.forall_mem_singleton.2 h.2.lawful⟩

/-- What stands in the parentheses says which operator it is. -/
theorem shown_eq_built (h : e.Lawful) (hfamily : e.family = .group) :
    e.shown = e.inside.shown.built := by
  obtain ⟨site, h⟩ := h
  cases e <;> cases hfamily
  case binary token left operator right =>
    obtain ⟨⟨hknown, hkind, hvalue⟩, -⟩ := h
    have hoperator := hknown.operatorKind_eq (.inr (.inl hkind))
    rw [hvalue] at hoperator
    rw [inside, Inside.shown, Inside.built, if_neg (by rw [hoperator, hkind]; decide)]
    rfl
  case step token operator =>
    rw [inside]
    split <;> rfl
  case assign token name value => rfl
  case compoundAssign token name operator value =>
    obtain ⟨⟨hknown, hkind, hvalue⟩, -⟩ := h
    have hlinking := linking_of_isCompound hkind
    have hassigns : Grammar.standard.linking (operatorKind operator) = some .assignment :=
      isAssignment_of_linking hknown hvalue hlinking
    have hne : operator ≠ "=" := by
      rintro rfl
      rw [← hknown.operatorKind_eq (.inr (.inr hlinking)), hvalue] at hkind
      cases hkind
    rw [inside, Inside.shown, Inside.built, if_pos hassigns]
    exact (if_neg hne).symm
  case indexAssign token target operator value =>
    obtain ⟨⟨hknown, hkind, hvalue, bracket, left, position, rfl⟩, -⟩ := h
    have hassigns : Grammar.standard.linking (operatorKind operator) = some .assignment :=
      isAssignment_of_linking hknown hvalue hkind
    rw [inside, Inside.shown, Inside.built, if_pos hassigns]
    rfl
  case propertyAssign token dot object name operator value =>
    obtain ⟨⟨hknown, hkind, hvalue⟩, -⟩ := h
    have hassigns : Grammar.standard.linking (operatorKind operator) = some .assignment :=
      isAssignment_of_linking hknown hvalue hkind
    rw [inside, Inside.shown, Inside.built, if_pos hassigns]
    rfl
  all_goals rfl

/-- An operator with its operands is read, if these are. -/
theorem headReads_group (h : e.Lawful) (hfamily : e.family = .group)
    (hparts : ∀ x ∈ e.inside.parts, x.Readable) : e.HeadReads := by
  intro place e' rest rest' hfits h' hhead' hfits' hrest hrest' heq
  have hhead : e.isHead = true := by cases e <;> cases hfamily <;> rfl
  have hfamily' : e'.family = .group := by
    rw [← family_eq h hhead h' hhead' hrest hrest' heq, hfamily]
  rw [text_eq_inside h hfamily, text_eq_inside h' hfamily', List.cons_append, List.cons_append,
    List.cons.injEq] at heq
  obtain ⟨hinside, heq⟩ := (lawful_inside h hfamily).append_cancel hparts
    (lawful_inside h' hfamily') heq.2
  rw [shown_eq_built h hfamily, shown_eq_built h' hfamily', hinside]
  exact ⟨rfl, heq⟩

/-- A step is read. -/
theorem headReads_step {operator : String} (h : (step token operator).Lawful) :
    (step token operator).HeadReads := by
  apply headReads_group h rfl
  rw [inside]
  split
  · next hname =>
    exact List.forall_mem_singleton.2 (readable_identifier ⟨h.choose_spec.1, hname, rfl⟩)
  · simp [Inside.parts]

end Expr

end ScriptFront
