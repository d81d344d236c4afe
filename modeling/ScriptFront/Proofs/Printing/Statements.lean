import ScriptFront.Proofs.Printing.Control

/-!
# Reading statements

A statement in a block ends at a semicolon or at the closing brace. Most are seen from their first
word, and all others are expressions.

* `Stmt.Reads` — the text of a statement is told from what stands behind it in a block, and shows
  all of the statement.
* `Rule.errorNode_shown` — whether an error is declared or reported is seen from the expression
  behind the word.
* `Stmt.reads_declaration` and its like, `Block.reads_of_body` — statements and blocks are read, if
  what stands in them is.
-/

namespace ScriptFront

open Lexeme

/-! ## Where statements end -/

/-- What stands behind a statement in a block. -/
inductive StmtEnds : List Char → Prop
  | semicolon (rest : List Char) : StmtEnds (';' :: ' ' :: rest)
  | brace (rest : List Char) : StmtEnds (' ' :: '\x7d' :: rest)

/-- What stands behind a statement goes on with no expression. -/
theorem StmtEnds.follow {rest : List Char} (h : StmtEnds rest) : Follow .whole rest := by
  cases h with
  | semicolon => exact follow_cons (by decide)
  | brace => exact follow_space_cons (by decide)

/-- Behind a statement no expression stands. -/
theorem StmtEnds.ne_space {e : Expr} {rest tail : List Char} (h : StmtEnds rest) (he : e.Lawful) :
    rest ≠ ' ' :: (e.text ++ tail) := by
  obtain ⟨c, run, htext, hc⟩ := he.exists_opening
  cases h with
  | semicolon => simp
  | brace rest =>
    intro heq
    rw [htext] at heq
    simp only [List.cons_append, List.cons.injEq, true_and] at heq
    rw [← heq.1] at hc
    exact absurd hc (by decide)

/-- The text of the statement is told from what stands behind it, and shows all of the statement. -/
def Stmt.Reads (s : Stmt) : Prop :=
  ∀ ⦃s' : Stmt⦄ ⦃rest rest' : List Char⦄, s'.Obeys spelledLaw → StmtEnds rest → StmtEnds rest' →
    s.text ++ rest = s'.text ++ rest' → s.shown = s'.shown ∧ rest = rest'

/-! ## What statements begin with -/

/-- The word begins a statement and no expression. -/
def Family.beginsStmt : Family → Bool
  | .declaration | .returning | .breaking | .continuing | .including | .enumeration | .declarative
  | .go => true
  | _ => false

/-- No expression begins with a word that begins statements only. -/
theorem Expr.beginsStmt_family (e : Expr) : e.family.beginsStmt = false := by
  cases e <;> rfl

/-- What a statement begins with. -/
def Stmt.family : Stmt → Family
  | .declaration _ _ _ _ => .declaration
  | .returning _ _ => .returning
  | .breaking _ => .breaking
  | .continuing _ => .continuing
  | .including _ _ _ => .including
  | .block _ => .braces
  | .enumeration _ _ _ => .enumeration
  | .errorDeclaration _ _ _ | .declarative _ _ _ => .declarative
  | .go _ _ => .go
  | .expression _ e => e.head.family

section Family

variable {s s' : Stmt} {rest rest' : List Char}

/-- The words that take one expression are of one family. -/
theorem Declarative.family_keyword (word : Declarative) (rest : List Char) :
    ScriptFront.family (word.keyword.toList ++ ' ' :: rest) = .declarative := by
  have hword : word.keyword.toList.all isWordPart = true ∧ word.keyword.toList ≠ [] ∧
      ScriptFront.family word.keyword.toList = .declarative := by
    cases word <;> decide +kernel
  rw [family_append hword.1 hword.2.1 (by simp; decide), hword.2.2]

/-- What a statement is can be seen from what its text begins with. -/
theorem Stmt.family_text (h : s.Obeys spelledLaw) (hrest : StmtEnds rest) :
    ScriptFront.family (s.text ++ rest) = s.family := by
  have hend := hrest.follow.word
  cases s with
  | declaration token id constant e => rw [text_declaration]; cases constant <;> rfl
  | returning token value =>
    cases value with
    | none => exact family_append (w := "return".toList) (by decide) (by decide) hend
    | some e => rw [text_returning_some]; rfl
  | breaking => exact family_append (w := "break".toList) (by decide) (by decide) hend
  | continuing => exact family_append (w := "continue".toList) (by decide) (by decide) hend
  | including => rw [text_including]; rfl
  | block b =>
    obtain ⟨more, htext⟩ := b.exists_text
    rw [text_block, htext]
    rfl
  | enumeration => rw [text_enumeration]; rfl
  | errorDeclaration => rw [text_errorDeclaration]; rfl
  | declarative token word e =>
    rw [text_declarative, List.append_assoc]
    exact word.family_keyword _
  | go => rw [text_go]; rfl
  | expression token e =>
    have hlawful : e.Lawful := ⟨_, h.2⟩
    rw [text_expression, Expr.text_eq_head_links, List.append_assoc]
    exact Expr.family_text hlawful.head e.isHead_head (hrest.follow.ends_links hlawful.links).word

/-- Statements with the same text begin alike. -/
theorem Stmt.family_eq (h : s.Obeys spelledLaw) (h' : s'.Obeys spelledLaw) (hrest : StmtEnds rest)
    (hrest' : StmtEnds rest') (heq : s.text ++ rest = s'.text ++ rest') : s.family = s'.family := by
  rw [← family_text h hrest, heq, family_text h' hrest']

/-- A statement begins like an expression, or with a word. -/
theorem Stmt.exists_opening (h : s.Obeys spelledLaw) :
    ∃ c more, s.text = c :: more ∧ Expr.opensExpr c = true := by
  cases s with
  | expression token e => exact Expr.Lawful.exists_opening ⟨_, h.2⟩
  | block b =>
    obtain ⟨more, htext⟩ := b.exists_text
    exact ⟨_, _, htext, by decide⟩
  | declaration token id constant e =>
    rw [text_declaration]
    cases constant <;> exact ⟨_, _, rfl, by decide⟩
  | returning token value =>
    cases value with
    | none => exact ⟨_, _, text_returning token, by decide⟩
    | some e => exact ⟨_, _, text_returning_some token e, by decide⟩
  | declarative token word e =>
    rw [text_declarative]
    cases word <;> exact ⟨_, _, rfl, by decide⟩
  | _ => simp; decide

end Family

/-! ## Errors that are declared or reported -/

namespace Expr

/-- The name that the expression is. -/
def name? : Expr → Option Identifier
  | .identifier id => some id
  | _ => none

/-- The name that is called. -/
def calledName? : Expr → Option Identifier
  | .call _ callee _ => callee.name?
  | _ => none

/-- With arguments behind it, the name that is called is the name itself. -/
theorem calledName?_applied (values : List Expr) (e : Expr) :
    (e.applied values).calledName? = e.name? := by
  fun_cases applied values e <;> rfl

/-- What is shown of an expression is a name only if the expression is one. -/
theorem name?_shown (e : Expr) : e.shown.name? = e.name?.map Identifier.erase := by
  have happlied : ∀ (values : List Expr) (e : Expr), (e.applied values).name? = none := by
    intro values e
    fun_cases applied values e <;> rfl
  cases e with
  | call token callee values => exact happlied (shownEach values) callee.shown
  | channel token size =>
    cases size with
    | none => rfl
    | some size => exact happlied size.shown.items (.channel default none)
  | _ => rfl

/-- The same of a name that is called. -/
theorem calledName?_shown (e : Expr) : e.shown.calledName? =
    e.calledName?.map Identifier.erase := by
  cases e with
  | call token callee values =>
    have hshown : (call token callee values).shown =
        callee.shown.applied (shownEach values) := rfl
    rw [hshown, calledName?_applied, name?_shown]
    rfl
  | channel token size =>
    cases size with
    | none => rfl
    | some size => exact calledName?_applied size.shown.items (.channel default none)
  | _ => rfl

/-- Bare names are those of the expressions, one by one. -/
theorem bareNames?_eq (es : List Expr) : Rule.bareNames? es = es.mapM name? :=
  rfl

/-- Names in a list are shown as they are, and nothing else is shown as names. -/
theorem bareNames?_shownEach (es : List Expr) :
    Rule.bareNames? (shownEach es) = (Rule.bareNames? es).map (List.map Identifier.erase) := by
  simp only [bareNames?_eq]
  induction es with
  | nil => rfl
  | cons e es ih =>
    have hcons : shownEach (e :: es) = e.shown.items ++ shownEach es := rfl
    rw [hcons, List.mapM_append, ih, List.mapM_cons]
    rcases items_eq e.shown with ⟨-, hitems⟩ | ⟨token, first, next, rest, hhead, hitems⟩
    · rw [hitems, List.mapM_cons, List.mapM_nil, name?_shown]
      cases e.name? with
      | none => rfl
      | some id => cases es.mapM name? <;> rfl
    · have hname : e.name? = none := by
        cases e with
        | identifier id => cases hhead
        | _ => rfl
      rw [hitems, List.mapM_cons, hname]
      rfl

end Expr

/-- Behind `error`, what is no call of a name reports an error. -/
theorem Rule.errorNode_of_calledName?_eq_none {token : Token} {value : Expr}
    (h : value.calledName? = none) : errorNode token value = .declarative token .error value := by
  unfold errorNode
  split
  · cases h
  · rfl

/-- Whether an error is declared or reported is seen from the expression behind the word. -/
theorem Rule.errorNode_shown (token : Token) (value : Expr) :
    (errorNode token value).shown = errorNode default value.shown := by
  cases hcalled : value.calledName? with
  | none =>
    rw [errorNode_of_calledName?_eq_none hcalled,
      errorNode_of_calledName?_eq_none (by rw [Expr.calledName?_shown, hcalled]; rfl)]
    rfl
  | some name =>
    obtain ⟨paren, values, rfl⟩ : ∃ paren values, value =
      .call paren (.identifier name) values := by
      unfold Expr.calledName? at hcalled
      split at hcalled
      · next callee values =>
        cases callee <;> cases hcalled
        exact ⟨_, _, rfl⟩
      · cases hcalled
    have hshown : (Expr.call paren (.identifier name) values).shown =
        .call default (.identifier name.erase) (Expr.shownEach values) := rfl
    rw [hshown]
    simp only [errorNode, Expr.bareNames?_shownEach]
    cases bareNames? values <;> rfl

/-! ## Statements -/

namespace Stmt

variable {s s' : Stmt} {word : Declarative} {e : Expr} {id : Identifier} {token : Token}
  {rest rest' : List Char}

/-- A statement that begins with a word of its own is told from all expressions. -/
theorem not_expression (h : s.Obeys spelledLaw) (h' : (expression token e).Obeys spelledLaw)
    (hword : s.family.beginsStmt = true) (hrest : StmtEnds rest) (hrest' : StmtEnds rest')
    (heq : s.text ++ rest = (expression token e).text ++ rest') : False := by
  rw [family_eq h h' hrest hrest' heq, family, Expr.beginsStmt_family] at hword
  cases hword

/-- A declaration is read, if its value is. -/
theorem reads_declaration {constant : Bool} (h : (declaration token id constant e).Obeys spelledLaw)
    (he : e.Readable) : (declaration token id constant e).Reads := by
  intro s' rest rest' h' hrest hrest' heq
  have hfamily := family_eq h h' hrest hrest' heq
  cases s' with
  | declaration token' id' constant' e' =>
    obtain rfl : constant = constant' := by
      cases constant <;> cases constant' <;> simp at heq ⊢
    simp only [text_declaration, List.append_assoc, List.append_cancel_left_eq] at heq
    obtain ⟨hname, heq⟩ := Identifier.append_cancel (Identifier.named_of_law h.2.1)
      (Identifier.named_of_law h'.2.1) (by simp; decide) (by simp; decide) heq
    rw [List.append_cancel_left_eq] at heq
    obtain ⟨hvalue, heq⟩ := he.reads.whole h'.2.2.lawful hrest.follow hrest'.follow heq
    exact ⟨congrArg₂ (declaration default · constant ·) (Identifier.erase_inj.2 hname) hvalue, heq⟩
  | expression => exact (not_expression h h' rfl hrest hrest' heq).elim
  | _ => cases hfamily

/-- A `return` is read, if its value is. -/
theorem reads_returning {value : Option Expr} (h : (returning token value).Obeys spelledLaw)
    (hvalue : ∀ e ∈ value, e.Readable) : (returning token value).Reads := by
  intro s' rest rest' h' hrest hrest' heq
  have hfamily := family_eq h h' hrest hrest' heq
  cases s' with
  | returning token' value' =>
    cases value with
    | none =>
      cases value' with
      | none => exact ⟨rfl, List.append_cancel_left heq⟩
      | some e' =>
        simp only [text_returning, text_returning_some, List.append_assoc,
          List.append_cancel_left_eq] at heq
        exact absurd heq (hrest.ne_space (Expr.Obeys.lawful h'.2))
    | some e =>
      cases value' with
      | none =>
        simp only [text_returning, text_returning_some, List.append_assoc,
          List.append_cancel_left_eq] at heq
        exact absurd heq.symm (hrest'.ne_space (hvalue e rfl).lawful)
      | some e' =>
        simp only [text_returning_some, List.append_assoc, List.append_cancel_left_eq,
          List.cons_append, List.cons.injEq, true_and] at heq
        obtain ⟨hshown, heq⟩ := (hvalue e rfl).reads.whole (Expr.Obeys.lawful h'.2) hrest.follow
          hrest'.follow heq
        exact ⟨congrArg (fun e => returning default (some e)) hshown, heq⟩
  | expression => exact (not_expression h h' rfl hrest hrest' heq).elim
  | _ => cases hfamily

/-- A `break` is read. -/
theorem reads_breaking : (breaking token).Reads := by
  intro s' rest rest' h' hrest hrest' heq
  have h : (breaking token).Obeys spelledLaw := trivial
  have hfamily := family_eq h h' hrest hrest' heq
  cases s' with
  | breaking => exact ⟨rfl, List.append_cancel_left heq⟩
  | expression => exact (not_expression h h' rfl hrest hrest' heq).elim
  | _ => cases hfamily

/-- A `continue` is read. -/
theorem reads_continuing : (continuing token).Reads := by
  intro s' rest rest' h' hrest hrest' heq
  have h : (continuing token).Obeys spelledLaw := trivial
  have hfamily := family_eq h h' hrest hrest' heq
  cases s' with
  | continuing => exact ⟨rfl, List.append_cancel_left heq⟩
  | expression => exact (not_expression h h' rfl hrest hrest' heq).elim
  | _ => cases hfamily

/-- An `include` is read. -/
theorem reads_including {path : Token} {text : String} : (including token path text).Reads := by
  intro s' rest rest' h' hrest hrest' heq
  have h : (including token path text).Obeys spelledLaw := trivial
  have hfamily := family_eq h h' hrest hrest' heq
  cases s' with
  | including token' path' text' =>
    simp only [text_including, List.append_assoc, List.append_cancel_left_eq] at heq
    obtain ⟨htext, heq⟩ := Text.append_cancel_quoteChars heq
    exact ⟨congrArg (including default default) (String.toList_inj.1 htext), heq⟩
  | expression => exact (not_expression h h' rfl hrest hrest' heq).elim
  | _ => cases hfamily

/-- A `go` is read, if its expression is. -/
theorem reads_go (h : (go token e).Obeys spelledLaw) (he : e.Readable) : (go token e).Reads := by
  intro s' rest rest' h' hrest hrest' heq
  have hfamily := family_eq h h' hrest hrest' heq
  cases s' with
  | go token' e' =>
    simp only [text_go, List.append_assoc, List.append_cancel_left_eq] at heq
    obtain ⟨hshown, heq⟩ := he.reads.whole h'.2.lawful hrest.follow hrest'.follow heq
    exact ⟨congrArg (go default) hshown, heq⟩
  | expression => exact (not_expression h h' rfl hrest hrest' heq).elim
  | _ => cases hfamily

/-! ## Words that take one expression -/

/-- The word and the expression of a statement that is one word and one expression. The declaration
of an error is a call of its name on its parameters. -/
def worded? : Stmt → Option (Declarative × Expr)
  | .errorDeclaration _ name parameters =>
    some (.error, .call default (.identifier name) (parameters.map .identifier))
  | .declarative _ word value => some (word, value)
  | _ => none

/-- The statement of a word and an expression. -/
def ofWord (word : Declarative) (value : Expr) : Stmt :=
  if word = .error then Rule.errorNode default value else .declarative default word value

/-- A statement of a word and an expression is printed as the two with a space between. -/
theorem text_of_worded (h : s.worded? = some (word, e)) :
    s.text = word.keyword.toList ++ ' ' :: e.text := by
  cases s <;> cases h
  case errorDeclaration token name parameters =>
    simp [Declarative.keyword, Function.comp_def]
  case declarative token => exact text_declarative token e word

/-- Names as expressions are bare names. -/
theorem bareNames?_map_identifier (ids : List Identifier) :
    Rule.bareNames? (ids.map .identifier) = some ids := by
  rw [Expr.bareNames?_eq]
  induction ids with
  | nil => rfl
  | cons id ids ih =>
    rw [List.map_cons, List.mapM_cons, ih]
    rfl

/-- What is shown of a statement of a word and an expression is put together of what is shown of the
expression. -/
theorem shown_of_worded (hlaw : s.Obeys spelledLaw) (h : s.worded? = some (word, e)) :
    s.shown = ofWord word e.shown := by
  cases s <;> cases h
  case errorDeclaration token name parameters =>
    have hnode : Rule.errorNode token (.call default (.identifier name)
      (parameters.map .identifier)) =
        errorDeclaration token name parameters := by
      simp [Rule.errorNode, bareNames?_map_identifier]
    rw [ofWord, if_pos rfl, ← Rule.errorNode_shown token, hnode]
  case declarative token =>
    rw [ofWord]
    split
    · next herror =>
      subst herror
      rw [← Rule.errorNode_shown token, hlaw.1]
    · rfl

/-- The expression of such a statement is lawful. -/
theorem lawful_of_worded (hlaw : s.Obeys spelledLaw) (h : s.worded? = some (word, e)) :
    e.Lawful := by
  cases s <;> cases h
  case errorDeclaration token name parameters =>
    obtain ⟨-, hname, hparameters⟩ := hlaw
    refine ⟨.operand, trivial, Expr.lawful_identifier hname .operand, Expr.obeysEach_iff.2 ?_⟩
    intro e he
    obtain ⟨id, hid, rfl⟩ := List.mem_map.1 he
    exact Expr.lawful_identifier (hparameters id hid) .operand
  case declarative token => exact hlaw.2.lawful

/-- A statement of a word and an expression is read, if the expression is. -/
theorem reads_of_worded (h : s.Obeys spelledLaw) (hworded : s.worded? = some (word, e))
    (he : e.Readable) : s.Reads := by
  intro s' rest rest' h' hrest hrest' heq
  have hspace : ∀ word : Declarative, ' ' ∉ word.keyword.toList := by
    intro word
    cases word <;> decide
  have hinj : ∀ word word' : Declarative, word.keyword = word'.keyword → word = word' := by
    intro word word'
    cases word <;> cases word' <;> decide
  have hown : s.family = .declarative := by cases s <;> cases hworded <;> rfl
  obtain ⟨word', e', hworded'⟩ : ∃ word' e', s'.worded? = some (word', e') := by
    have hfamily := family_eq h h' hrest hrest' heq
    rw [hown] at hfamily
    cases s' with
    | errorDeclaration | declarative => exact ⟨_, _, rfl⟩
    | expression => exact (not_expression h h' (by rw [hown]; rfl) hrest hrest' heq).elim
    | _ => cases hfamily
  rw [text_of_worded hworded, text_of_worded hworded', List.append_assoc, List.append_assoc] at heq
  obtain ⟨hkeyword, heq⟩ := Text.append_cancel_of_not_mem (hspace word) (hspace word') heq
  obtain ⟨hshown, heq⟩ := he.reads.whole (lawful_of_worded h' hworded') hrest.follow
    hrest'.follow heq
  rw [shown_of_worded h hworded, shown_of_worded h' hworded', hshown,
    hinj word word' (String.toList_inj.1 hkeyword)]
  exact ⟨rfl, heq⟩

/-- The declaration of an error is read. -/
theorem reads_errorDeclaration {parameters : List Identifier}
    (h : (errorDeclaration token id parameters).Obeys spelledLaw) :
    (errorDeclaration token id parameters).Reads := by
  refine reads_of_worded h rfl ((Expr.readable_identifier h.2.1).call ?_ (lawful_of_worded h rfl))
  intro e he
  obtain ⟨parameter, hparameter, rfl⟩ := List.mem_map.1 he
  exact Expr.readable_identifier (h.2.2 parameter hparameter)

/-! ## Enumerations -/

/-- The members of an enumeration as pairs of expressions. -/
def memberPairs (members : List (Identifier × Expr)) : List (Expr × Expr) :=
  members.map fun member => (.identifier member.1, member.2)

/-- What is shown of the members of an enumeration. -/
def shownMembers (members : List (Identifier × Expr)) : List (Identifier × Expr) :=
  members.map fun member => (member.1.erase, member.2.shown)

/-- What is shown of an enumeration is put together of its members. -/
theorem shown_enumeration (members : List (Identifier × Expr)) :
    (enumeration token id members).shown = .enumeration default id.erase
    (shownMembers members) := by
  have hmembers : Stmt.regroupMembers (Stmt.mapTokensMembers (fun _ => default) members) =
      shownMembers members := by
    induction members with
    | nil => rfl
    | cons member members ih =>
      rw [shownMembers, List.map_cons, ← shownMembers, ← ih]
      rfl
  exact congrArg (Stmt.enumeration default id.erase) hmembers

/-- Members are told by their pairs, as far as they are shown. -/
theorem shownMembers_eq {members members' : List (Identifier × Expr)}
    (h : (memberPairs members).map Segment.shownPair =
      (memberPairs members').map Segment.shownPair) : shownMembers members =
        shownMembers members' := by
  have hpairs : ∀ members, (memberPairs members).map Segment.shownPair =
      (shownMembers members).map fun member => (Expr.identifier member.1, member.2) := by
    intro members
    simp only [memberPairs, shownMembers, List.map_map]
    rfl
  rw [hpairs, hpairs] at h
  refine List.map_injective_iff.2 (fun m m' heq => ?_) h
  obtain ⟨hname, hvalue⟩ := Prod.mk.inj heq
  exact Prod.ext (Expr.identifier.inj hname) hvalue

/-- The names and values of members that obey the law are lawful. -/
theorem lawful_members {members : List (Identifier × Expr)}
    (h : Stmt.ObeysMembers spelledLaw members) :
    ∀ member ∈ members, (Expr.identifier member.1).Lawful ∧ member.2.Lawful := by
  induction members with
  | nil => simp
  | cons member members ih =>
    rw [List.forall_mem_cons]
    exact ⟨⟨(Expr.lawful_identifier h.1 .operand).lawful, h.2.1.lawful⟩, ih h.2.2⟩

/-- An enumeration is read, if its values are. -/
theorem reads_enumeration {members : List (Identifier × Expr)}
    (h : (enumeration token id members).Obeys spelledLaw)
    (hmembers : ∀ member ∈ members, member.2.Readable) : (enumeration token id members).Reads := by
  intro s' rest rest' h' hrest hrest' heq
  have hfamily := family_eq h h' hrest hrest' heq
  cases s' with
  | enumeration token' id' members' =>
    have htext : ∀ members : List (Identifier × Expr), members.map memberText =
        (memberPairs members).map fun pair => pair.1.text ++ (Mark.equals.text ++ pair.2.text) := by
      intro members
      rw [memberPairs, List.map_map]
      rfl
    have hreadable : ∀ pair ∈ memberPairs members, pair.1.Readable ∧ pair.2.Readable := by
      intro pair hpair
      obtain ⟨member, hmember, rfl⟩ := List.mem_map.1 hpair
      have hname := (lawful_members h.2.2 member hmember).1
      exact ⟨(Expr.headReads_identifier hname).readable hname rfl, hmembers member hmember⟩
    have hlawful' : ∀ pair ∈ memberPairs members', pair.1.Lawful ∧ pair.2.Lawful := by
      intro pair hpair
      obtain ⟨member, hmember, rfl⟩ := List.mem_map.1 hpair
      exact lawful_members h'.2.2 member hmember
    simp only [text_enumeration, htext, List.append_assoc, List.append_cancel_left_eq,
      List.cons_append, List.nil_append] at heq
    obtain ⟨hname, heq⟩ := Identifier.append_cancel (Identifier.named_of_law h.2.1)
      (Identifier.named_of_law h'.2.1) (by simp; decide) (by simp; decide) heq
    simp only [List.cons.injEq, true_and] at heq
    obtain ⟨hpairs, heq⟩ := append_cancel_pairs hreadable hlawful' (closes_space (by simp))
      (closes_space (by simp)) heq
    rw [shown_enumeration, shown_enumeration, Identifier.erase_inj.2 hname, shownMembers_eq hpairs]
    exact ⟨rfl, by simpa using heq⟩
  | expression => exact (not_expression h h' rfl hrest hrest' heq).elim
  | _ => cases hfamily

/-! ## Blocks and expressions -/

/-- A block that stands alone is told from a dict by the space behind the brace. -/
theorem block_ne_expression {b : Block} (h : e.Lawful) (hrest : StmtEnds rest) :
    b.text ++ rest' ≠ e.text ++ rest := by
  intro heq
  obtain ⟨more, htext⟩ := b.exists_text
  have hfamily : e.head.family = .braces := by
    rw [← Expr.family_text h.head e.isHead_head (hrest.follow.ends_links h.links).word,
      ← List.append_assoc, ← Expr.text_eq_head_links, ← heq, htext]
    rfl
  obtain ⟨token, pairs, hhead⟩ : ∃ token pairs, e.head = .dict token pairs := by
    cases hcase : e.head <;> rw [hcase] at hfamily <;> cases hfamily
    exact ⟨_, _, rfl⟩
  rw [Expr.text_eq_head_links, hhead, htext, Expr.text_dict] at heq
  cases pairs with
  | nil => simp [commas] at heq
  | cons pair pairs =>
    obtain ⟨site, hdict⟩ := hhead ▸ h.head
    obtain ⟨c, run, hkey, hc⟩ := hdict.2.1.lawful.exists_opening
    simp only [commas, List.map_cons, Text.joined_cons, Expr.pairText, hkey, List.cons_append,
      List.cons.injEq, true_and] at heq
    rw [← heq.1] at hc
    exact absurd hc (by decide)

/-- A block that stands alone is read, if the block is. -/
theorem reads_block {b : Block} (h : (block b).Obeys spelledLaw) (hb : b.Reads) :
    (block b).Reads := by
  intro s' rest rest' h' hrest hrest' heq
  have hfamily := family_eq h h' hrest hrest' heq
  cases s' with
  | block b' =>
    obtain ⟨hshown, heq⟩ := hb h'.2 heq
    exact ⟨congrArg block hshown, heq⟩
  | expression token' e' => exact absurd heq (block_ne_expression h'.2.lawful hrest')
  | _ => cases hfamily

/-- An expression that stands alone is read, if the expression is. -/
theorem reads_expression (h : (expression token e).Obeys spelledLaw) (he : e.Readable) :
    (expression token e).Reads := by
  intro s' rest rest' h' hrest hrest' heq
  cases s' with
  | expression token' e' =>
    obtain ⟨hshown, heq⟩ := he.reads.whole h'.2.lawful hrest.follow hrest'.follow heq
    exact ⟨congrArg (expression default) hshown, heq⟩
  | block b' => exact absurd heq.symm (block_ne_expression he.lawful hrest)
  | _ => exact (not_expression h' h rfl hrest' hrest heq.symm).elim

end Stmt

/-- What is shown of a block is put together of its statements. -/
theorem Block.shown_mk (token : Token) (body : List Stmt) :
    (Block.mk token body).shown = ⟨default, body.map Stmt.shown⟩ := by
  have hbody : Stmt.regroupEach (Stmt.mapTokensEach (fun _ => default) body) =
      body.map Stmt.shown := by
    induction body with
    | nil => rfl
    | cons s body ih =>
      rw [List.map_cons, ← ih]
      rfl
  exact congrArg (Block.mk default) hbody

/-- The statements of a block are told from each other and from what stands behind. -/
theorem Block.reads_of_body {token : Token} {body : List Stmt}
    (h : (Block.mk token body).Obeys spelledLaw) (hbody : ∀ s ∈ body, s.Reads) :
    (Block.mk token body).Reads := by
  intro b' rest rest' h' heq
  obtain ⟨token', body'⟩ := b'
  have hobeys : ∀ s ∈ body, s.Obeys spelledLaw := Stmt.obeysEach_iff.1 h
  have hobeys' : ∀ s ∈ body', s.Obeys spelledLaw := Stmt.obeysEach_iff.1 h'
  have hopen : ∀ {s : Stmt}, s.Obeys spelledLaw → ∀ rest tail : List Char,
      '\x7d' :: rest ≠ s.text ++ tail := by
    intro s hs rest tail hsame
    obtain ⟨c, more, htext, hc⟩ := s.exists_opening hs
    rw [htext] at hsame
    simp only [List.cons_append, List.cons.injEq] at hsame
    rw [← hsame.1] at hc
    exact absurd hc (by decide)
  rw [shown_mk, shown_mk]
  cases body with
  | nil =>
    cases body' with
    | nil => exact ⟨rfl, List.append_cancel_left heq⟩
    | cons s' body' =>
      simp at heq
      exact absurd heq (hopen (hobeys' s' List.mem_cons_self) _ _)
  | cons s body =>
    cases body' with
    | nil =>
      simp at heq
      exact absurd heq.symm (hopen (hobeys s List.mem_cons_self) _ _)
    | cons s' body' =>
      have hsemicolon : ∀ tail, StmtEnds ([';', ' '] ++ tail) := .semicolon
      obtain ⟨hshown, heq⟩ := append_cancel_behind StmtEnds
        (fun s hs s' hs' tail tail' => hbody s hs (hobeys' s' hs')) hsemicolon (by simp) (by simp)
        (.brace rest) (.brace rest') (by simpa using heq)
      exact ⟨congrArg (Block.mk default) hshown, by simpa using heq⟩

end ScriptFront
