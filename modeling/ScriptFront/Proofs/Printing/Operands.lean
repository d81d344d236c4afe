import ScriptFront.Proofs.Printing.Lists

/-!
# Reading literals, lists and what goes on behind

The heads that are one word or stand between brackets are read, if what stands in them is; and so
are members and arguments.
-/

namespace ScriptFront

open Lexeme

/-! ## Members and arguments -/

/-- A member is read behind a head. -/
theorem Link.reads_member {name : Identifier} (h : spelledLaw.name name) :
    (Link.member name).Reads := by
  intro l' rest rest' h' hrest hrest' heq
  cases l' with
  | arguments values => cases heq
  | member name' =>
    simp only [Link.text, List.cons_append, List.cons.injEq, true_and] at heq
    obtain ⟨hname, heq⟩ := Identifier.append_cancel (Identifier.named_of_law h)
      (Identifier.named_of_law h') hrest hrest' heq
    exact ⟨congrArg Link.member (Identifier.erase_inj.2 hname), heq⟩

/-- Arguments are read behind a head, if each of them is. -/
theorem Link.reads_arguments {values : List Expr} (h : ∀ e ∈ values, e.Readable) :
    (Link.arguments values).Reads := by
  intro l' rest rest' h' hrest hrest' heq
  cases l' with
  | member name => cases heq
  | arguments values' =>
    simp only [Link.text, List.cons_append, List.append_assoc, List.nil_append, List.cons.injEq,
      true_and] at heq
    obtain ⟨hvalues, heq⟩ := append_cancel_items h (fun e he => (h' e he).lawful)
      (fun _ => closes_cons (by simp)) (fun _ => closes_cons (by simp)) heq
    exact ⟨congrArg Link.arguments hvalues, (List.cons.inj heq).2⟩

namespace Expr

variable {e : Expr} {id : Identifier} {token : Token} {values : List Expr}

/-- A head that is read is readable. -/
theorem HeadReads.readable (hreads : e.HeadReads) (h : e.Lawful) (hhead : e.isHead = true) :
    e.Readable where
  lawful := h
  head := (head_of_isHead hhead).symm ▸ hreads
  links := by simp [links_of_isHead hhead]

/-! ## Numbers -/

/-- No integer is taken for a number with a fraction. -/
theorem integer_ne_float {number : Int} {other : Token} {value : Numeral.Double}
    (h : (integer token number).Lawful) (h' : (float other value).Lawful) {place : Place}
    {rest rest' : List Char} (hrest : Ends place rest) :
    (integer token number).text ++ rest ≠ (float other value).text ++ rest' := by
  intro heq
  obtain ⟨_, hknown, hkind, -⟩ := h
  obtain ⟨_, hknown', hkind', -⟩ := h'
  obtain ⟨c, run, htext, hc, hrun⟩ := hknown.integer_text hkind
  obtain ⟨whole, part, htext', -, hne, hwhole, hpart⟩ := hknown'.float_text hkind'
  obtain ⟨d, part, rfl⟩ := List.exists_cons_of_ne_nil hne
  rw [text_integer, text_float, htext, htext', List.append_assoc] at heq
  have hword : ∀ d ∈ c :: run, isWordPart d = true := by
    rw [List.forall_mem_cons]
    exact ⟨isWordPart_of_digit hc, hrun⟩
  obtain ⟨-, rfl⟩ := append_cancel_runs hword (fun d hd => isWordPart_of_digit (hwhole d hd))
    hrest.word (by simp; decide) heq
  -- a point with a digit behind it would make the integer a fraction
  have := hrest.point d (part ++ rest') rfl
  rw [hpart d List.mem_cons_self] at this
  cases this

/-- An integer is read. -/
theorem headReads_integer {number : Int} (h : (integer token number).Lawful) :
    (integer token number).HeadReads := by
  intro place e' rest rest' hfits h' hhead' hfits' hrest hrest' heq
  have hfamily := family_eq h rfl h' hhead' hrest hrest' heq
  cases e' <;> cases hfamily
  case integer token' number' =>
    obtain ⟨_, hknown, hkind, hvalue⟩ := h
    obtain ⟨_, hknown', hkind', hvalue'⟩ := h'
    obtain ⟨c, run, htext, hc, hrun⟩ := hknown.integer_text hkind
    obtain ⟨c', run', htext', hc', hrun'⟩ := hknown'.integer_text hkind'
    have hword : ∀ {c : Char} {run : List Char}, c.isDigit = true →
        (∀ d ∈ run, isWordPart d = true) → ∀ d ∈ c :: run, isWordPart d = true := by
      intro c run hc hrun
      rw [List.forall_mem_cons]
      exact ⟨isWordPart_of_digit hc, hrun⟩
    rw [text_integer, text_integer] at heq
    obtain ⟨hsame, heq⟩ := append_cancel_runs (by rw [htext]; exact hword hc hrun)
      (by rw [htext']; exact hword hc' hrun') hrest.word hrest'.word heq
    rw [String.toList_inj.1 hsame, hvalue'] at hvalue
    exact ⟨congrArg (Expr.integer default) (Option.some.inj hvalue).symm, heq⟩
  case float token' value' => exact absurd heq (integer_ne_float h h' hrest)

/-- A number with a fraction is read. -/
theorem headReads_float {value : Numeral.Double} (h : (float token value).Lawful) :
    (float token value).HeadReads := by
  intro place e' rest rest' hfits h' hhead' hfits' hrest hrest' heq
  have hfamily := family_eq h rfl h' hhead' hrest hrest' heq
  cases e' <;> cases hfamily
  case integer token' number' => exact absurd heq.symm (integer_ne_float h' h hrest')
  case float token' value' =>
    obtain ⟨_, hknown, hkind, hvalue⟩ := h
    obtain ⟨_, hknown', hkind', hvalue'⟩ := h'
    obtain ⟨whole, part, htext, -, -, hwhole, hpart⟩ := hknown.float_text hkind
    obtain ⟨whole', part', htext', -, -, hwhole', hpart'⟩ := hknown'.float_text hkind'
    have hpoint : ∀ tail : List Char, ∀ c ∈ ('.' :: tail).head?, c.isDigit = false := by
      simp
    have hend : ∀ {rest : List Char}, Ends place rest → ∀ c ∈ rest.head?, c.isDigit = false := by
      intro rest hrest c hc
      rw [Bool.eq_false_iff]
      intro hdigit
      have := hrest.word c hc
      rw [isWordPart_of_digit hdigit] at this
      cases this
    simp only [text_float, htext, htext', List.append_assoc, List.cons_append] at heq
    obtain ⟨hsame, heq⟩ := append_cancel_runs hwhole hwhole' (hpoint _) (hpoint _) heq
    obtain ⟨hsame', heq⟩ := append_cancel_runs hpart hpart' (hend hrest) (hend hrest')
      (List.cons.inj heq).2
    have htoken : token.value = token'.value := by
      rw [← String.toList_inj, htext, htext', hsame, hsame']
    rw [htoken, hvalue'] at hvalue
    exact ⟨congrArg (Expr.float default) (Option.some.inj hvalue).symm, heq⟩

/-! ## Other literals -/

/-- A string is read. -/
theorem headReads_string {s : String} (h : (string token s).Lawful) :
    (string token s).HeadReads := by
  intro place e' rest rest' hfits h' hhead' hfits' hrest hrest' heq
  have hfamily := family_eq h rfl h' hhead' hrest hrest' heq
  cases e' <;> cases hfamily
  case string token' s' =>
    rw [text_string, text_string] at heq
    obtain ⟨hsame, heq⟩ := Text.append_cancel_quoteChars heq
    exact ⟨congrArg (Expr.string default) (String.toList_inj.1 hsame), heq⟩

/-- A truth value is read. -/
theorem headReads_boolean {b : Bool} (h : (boolean token b).Lawful) :
    (boolean token b).HeadReads := by
  intro place e' rest rest' hfits h' hhead' hfits' hrest hrest' heq
  have hfamily := family_eq h rfl h' hhead' hrest hrest' heq
  cases e' <;> cases hfamily
  case boolean token' b' =>
    cases b <;> cases b' <;> simp at heq
    · exact ⟨rfl, heq⟩
    · exact ⟨rfl, heq⟩

/-- The word `null` is read. -/
theorem headReads_null (h : (null token).Lawful) : (null token).HeadReads := by
  intro place e' rest rest' hfits h' hhead' hfits' hrest hrest' heq
  have hfamily := family_eq h rfl h' hhead' hrest hrest' heq
  cases e' <;> cases hfamily
  case null => exact ⟨rfl, List.append_cancel_left heq⟩

/-- The receiver is read. -/
theorem headReads_receiver (h : (receiver token).Lawful) : (receiver token).HeadReads := by
  intro place e' rest rest' hfits h' hhead' hfits' hrest hrest' heq
  have hfamily := family_eq h rfl h' hhead' hrest hrest' heq
  cases e' <;> cases hfamily
  case receiver => exact ⟨rfl, List.append_cancel_left heq⟩

/-- A channel without a size is read. -/
theorem headReads_channel (h : (channel token none).Lawful) : (channel token none).HeadReads := by
  intro place e' rest rest' hfits h' hhead' hfits' hrest hrest' heq
  have hfamily := family_eq h rfl h' hhead' hrest hrest' heq
  cases e' <;> cases hfamily
  case channel token' size' =>
    cases size' with
    | none => exact ⟨rfl, List.append_cancel_left heq⟩
    | some size' => cases hhead'

/-- A spread is read. -/
theorem headReads_spread (h : (spread token id).Lawful) : (spread token id).HeadReads := by
  intro place e' rest rest' hfits h' hhead' hfits' hrest hrest' heq
  have hfamily := family_eq h rfl h' hhead' hrest hrest' heq
  cases e' <;> cases hfamily
  case spread token' id' =>
    simp only [text_spread, List.cons_append, List.cons.injEq, true_and] at heq
    obtain ⟨hname, heq⟩ := Identifier.append_cancel (Identifier.named_of_law h.choose_spec.2)
      (Identifier.named_of_law h'.choose_spec.2) hrest.word hrest'.word heq
    exact ⟨congrArg (Expr.spread default) (Identifier.erase_inj.2 hname), heq⟩

/-! ## Names, members and calls -/

/-- A name is readable. -/
theorem readable_identifier (h : spelledLaw.name id) : (identifier id).Readable :=
  have hlawful : (identifier id).Lawful := (lawful_identifier h .operand).lawful
  (headReads_identifier hlawful).readable hlawful rfl

/-- A property is readable, if what it belongs to is. -/
theorem Readable.property (h : e.Readable) (hlawful : (property token e id).Lawful) :
    (property token e id).Readable where
  lawful := hlawful
  head := h.head
  links := by
    rw [Expr.links, List.forall_mem_append, List.forall_mem_singleton]
    exact ⟨h.links, Link.reads_member hlawful.choose_spec.2.2⟩

/-- A call is readable, if what is called is, and each argument. -/
theorem Readable.call (h : e.Readable) (hvalues : ∀ v ∈ values, v.Readable)
    (hlawful : (call token e values).Lawful) : (call token e values).Readable where
  lawful := hlawful
  head := h.head
  links := by
    rw [Expr.links, List.forall_mem_append, List.forall_mem_singleton]
    exact ⟨h.links, Link.reads_arguments hvalues⟩

/-- A method is readable, if what it belongs to is, and each argument. -/
theorem Readable.method (h : e.Readable) (hvalues : ∀ v ∈ values, v.Readable)
    (hlawful : (method token e id values).Lawful) : (method token e id values).Readable where
  lawful := hlawful
  head := h.head
  links := by
    rw [Expr.links, List.forall_mem_append, List.forall_mem_cons, List.forall_mem_singleton]
    exact ⟨h.links, Link.reads_member hlawful.choose_spec.2.2.1, Link.reads_arguments hvalues⟩

/-- A channel is readable, if its size is. -/
theorem readable_channel {size : Option Expr} (hsize : ∀ v ∈ size, v.Readable)
    (hlawful : (channel token size).Lawful) : (channel token size).Readable where
  lawful := hlawful
  head := headReads_channel ⟨.operand, trivial, trivial⟩
  links := by
    cases size with
    | none => simp [Expr.links]
    | some v =>
      rw [Expr.links, List.forall_mem_singleton]
      exact Link.reads_arguments (List.forall_mem_singleton.2 (hsize v rfl))

/-! ## Brackets -/

/-- The elements of an array or an array pattern, the rest among them. -/
def elements : Expr → List Expr
  | .array _ es => es
  | .arrayPattern _ es rest => es ++ rest.toList.map fun id => .spread id.token id
  | _ => []

/-- An array and an array pattern are printed as their elements in brackets. -/
theorem text_of_elements (h : e.family = .array) :
    e.text = '[' :: (commas (e.elements.map text) ++ [']']) := by
  cases e <;> cases h
  case array => exact text_array ..
  case arrayPattern token es rest => cases rest <;> simp [elements]

/-- An array and an array pattern are shown as the array of their elements. -/
theorem shown_of_elements (h : e.family = .array) :
    e.shown = .array default (shownEach e.elements) := by
  cases e <;> cases h
  case array => rfl
  case arrayPattern token es rest =>
    cases rest with
    | none =>
      rw [elements, Option.toList_none, List.map_nil, List.append_nil]
      exact congrArg (Expr.array default) (List.append_nil _)
    | some id =>
      rw [elements, shownEach_eq, List.flatMap_append, List.map_append, ← shownEach_eq]
      rfl

/-- The elements of a lawful array or array pattern are lawful. -/
theorem lawful_elements (h : e.Lawful) (hfamily : e.family = .array) :
    ∀ x ∈ e.elements, x.Lawful := by
  obtain ⟨site, h⟩ := h
  cases e <;> cases hfamily
  case array => exact lawful_of_mem h.2
  case arrayPattern token es rest =>
    rw [elements, List.forall_mem_append]
    refine ⟨lawful_of_mem h.2.1, fun x hx => ?_⟩
    obtain ⟨id, hid, rfl⟩ := List.mem_map.1 hx
    exact ⟨.operand, trivial, h.2.2 id (Option.mem_toList.1 hid)⟩

/-- An array or an array pattern is read, if its elements are. -/
theorem headReads_of_elements (h : e.Lawful) (hfamily : e.family = .array) (hhead : e.isHead = true)
    (helements : ∀ x ∈ e.elements, x.Readable) : e.HeadReads := by
  intro place e' rest rest' hfits h' hhead' hfits' hrest hrest' heq
  have hfamily' : e'.family = .array := by
    rw [← family_eq h hhead h' hhead' hrest hrest' heq, hfamily]
  simp only [text_of_elements hfamily, text_of_elements hfamily', List.cons_append,
    List.append_assoc, List.nil_append, List.cons.injEq, true_and] at heq
  obtain ⟨hshown, heq⟩ := append_cancel_items helements (lawful_elements h' hfamily')
    (fun _ => closes_cons (by simp)) (fun _ => closes_cons (by simp)) heq
  rw [shown_of_elements hfamily, shown_of_elements hfamily', hshown]
  exact ⟨rfl, (List.cons.inj heq).2⟩

/-- The elements of an array pattern are readable, if its items are and its rest is a name. -/
theorem readable_elements_arrayPattern {es : List Expr} {rest : Option Identifier}
    (hes : ∀ e ∈ es, e.Readable) (hrest : ∀ id ∈ rest, spelledLaw.name id) :
    ∀ x ∈ (arrayPattern token es rest).elements, x.Readable := by
  rw [elements, List.forall_mem_append]
  refine ⟨hes, fun x hx => ?_⟩
  obtain ⟨id, hid, rfl⟩ := List.mem_map.1 hx
  have hlawful : (spread id.token id).Lawful :=
    ⟨.operand, trivial, hrest id (Option.mem_toList.1 hid)⟩
  exact (headReads_spread hlawful).readable hlawful rfl

/-- What is shown of a dict is put together of its pairs. -/
theorem shown_dict (pairs : List (Expr × Expr)) :
    (dict token pairs).shown = .dict default (pairs.map Segment.shownPair) := by
  have hpairs : Expr.regroupPairs (Expr.mapTokensPairs (fun _ => default) pairs) =
      pairs.map Segment.shownPair := by
    induction pairs with
    | nil => rfl
    | cons pair pairs ih =>
      rw [List.map_cons, ← ih]
      rfl
  exact congrArg (Expr.dict default) hpairs

/-- The keys and values of pairs that obey the law are lawful. -/
theorem lawful_pairs {pairs : List (Expr × Expr)} (h : Expr.ObeysPairs spelledLaw pairs) :
    ∀ pair ∈ pairs, pair.1.Lawful ∧ pair.2.Lawful := by
  induction pairs with
  | nil => simp
  | cons pair pairs ih =>
    rw [List.forall_mem_cons]
    exact ⟨⟨h.1.lawful, h.2.1.lawful⟩, ih h.2.2⟩

/-- A dict is read, if its keys and values are. -/
theorem headReads_dict {pairs : List (Expr × Expr)} (h : (dict token pairs).Lawful)
    (hpairs : ∀ pair ∈ pairs, pair.1.Readable ∧ pair.2.Readable) :
    (dict token pairs).HeadReads := by
  intro place e' rest rest' hfits h' hhead' hfits' hrest hrest' heq
  have hfamily := family_eq h rfl h' hhead' hrest hrest' heq
  cases e' <;> cases hfamily
  case dict token' pairs' =>
    simp only [text_dict, List.cons_append, List.append_assoc, List.nil_append, List.cons.injEq,
      true_and] at heq
    obtain ⟨hshown, heq⟩ := append_cancel_pairs hpairs (lawful_pairs h'.choose_spec.2)
      (closes_cons (by simp) : Closes .colon _) (closes_cons (by simp)) heq
    rw [shown_dict, shown_dict, hshown]
    exact ⟨rfl, (List.cons.inj heq).2⟩

end Expr

end ScriptFront
