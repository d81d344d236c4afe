import ScriptFront.Proofs.Parser.Bodies

/-!
# Clauses of a switch

A switch on a name, with any number of clauses. A clause is selected by one or more values, each a
name or an integer, or it is a default, written with or without `case`; its body is a list of tokens
that is parsed without a diagnostic.

* `CaseValueText`, `Selector`, `ClauseText`, `SwitchText` — a switch as it is written.
* `ClauseText.node`, `SwitchText.node` — the nodes that are to be read.
* `ClauseText.gives`, `ClauseText.reads_each` — a clause is read, and a list of them is.
* `gives_switch`, `misses_switch` — what becomes of the switch on its closing brace.
* `switch_defaults` — what becomes of the program.
-/

namespace ScriptFront

open ScriptFront.Parser

variable {p q : Parser} {t u v last : Token} {rest : List Token}

/-! ## A switch as it is written -/

/-- A value that selects a clause. -/
inductive CaseValueText where
  /-- A name. -/
  | name (token : Token) (hkind : token.kind = .identifier)
  /-- An integer literal within range. -/
  | integer (token : Token) (value : Int) (hkind : token.kind = .integer)
      (hvalue : Numeral.integer? token.value = some value)

namespace CaseValueText

/-- The token of a value. -/
def token : CaseValueText → Token
  | name token _ | integer token _ _ _ => token

/-- The tree of a value. -/
def tree : CaseValueText → Expr
  | name token _ => .identifier (.ofToken token)
  | integer token value _ _ => .integer token value

end CaseValueText

/-- A comma and the value behind it. -/
structure NextValue where
  /-- The comma. -/
  comma : Token
  /-- The value. -/
  value : CaseValueText
  comma_kind : comma.kind = .comma

/-- The tokens of values behind the first one. -/
def NextValue.tokensEach (others : List NextValue) : List Token :=
  others.flatMap fun next => [next.comma, next.value.token]

/-- What selects a clause. -/
inductive Selector where
  /-- `case` and values. -/
  | values (word : Token) (first : CaseValueText) (others : List NextValue)
      (hword : word.kind = .caseWord)
  /-- `default`. -/
  | otherwise (word : Token) (hword : word.kind = .defaultWord)
  /-- `case default`. -/
  | caseOtherwise (word second : Token) (hword : word.kind = .caseWord)
      (hsecond : second.kind = .defaultWord)

namespace Selector

/-- The first word of a clause. -/
def word : Selector → Token
  | values word _ _ _ | otherwise word _ | caseOtherwise word _ _ _ => word

/-- The tokens behind the first word. -/
def more : Selector → List Token
  | values _ first others _ => first.token :: NextValue.tokensEach others
  | otherwise _ _ => []
  | caseOtherwise _ second _ _ => [second]

/-- The values, or none for a default. -/
def values? : Selector → Option (List Expr)
  | values _ first others _ => some (first.tree :: others.map fun next => next.value.tree)
  | otherwise _ _ | caseOtherwise _ _ _ _ => none

end Selector

/-- A clause as it is written. -/
structure ClauseText where
  /-- What selects it. -/
  selector : Selector
  /-- The opening brace. -/
  opening : Token
  /-- The tokens of the statements. -/
  body : List Token
  /-- The closing brace. -/
  closing : Token
  opening_kind : opening.kind = .openCurly
  clean : CleanTokens body
  ends : EndsStatement body
  closing_kind : closing.kind = .closeCurly

namespace ClauseText

/-- The tokens of a clause. -/
def tokens (clause : ClauseText) : List Token :=
  clause.selector.word :: (clause.selector.more ++ clause.opening ::
    (clause.body ++ [clause.closing]))

/-- The node of a clause: its body holds the statements of the program that its tokens spell. -/
def node (clause : ClauseText) : CaseClause where
  token := clause.selector.word
  isDefault := clause.selector.values?.isNone
  values := clause.selector.values?.getD []
  body := ⟨clause.opening, (parseTokens clause.body).1.statements⟩

end ClauseText

/-- A switch on a name as it is written. -/
structure SwitchText where
  /-- `switch`. -/
  keyword : Token
  /-- The opening parenthesis. -/
  openParen : Token
  /-- The name. -/
  subject : Token
  /-- The closing parenthesis. -/
  closeParen : Token
  /-- The opening brace. -/
  opening : Token
  /-- The clauses. -/
  clauses : List ClauseText
  /-- The closing brace. -/
  closing : Token
  keyword_kind : keyword.kind = .switchWord
  openParen_kind : openParen.kind = .openParen
  subject_kind : subject.kind = .identifier
  closeParen_kind : closeParen.kind = .closeParen
  opening_kind : opening.kind = .openCurly
  closing_kind : closing.kind = .closeCurly

namespace SwitchText

/-- The tokens of a switch. -/
def tokens (text : SwitchText) : List Token :=
  text.keyword :: text.openParen :: text.subject :: text.closeParen :: text.opening ::
    (text.clauses.flatMap ClauseText.tokens ++ [text.closing])

/-- How many of the clauses are defaults. -/
def defaults (text : SwitchText) : Nat :=
  text.clauses.countP fun clause => clause.selector.values?.isNone

/-- The node of a switch. -/
def node (text : SwitchText) : Expr :=
  .switch text.keyword (.identifier (.ofToken text.subject)) (text.clauses.map ClauseText.node)

end SwitchText

/-! ## What selects a clause -/

/-- The value of a clause is read up to a token that no expression goes on at. -/
theorem CaseValueText.reads (value : CaseValueText) (hp : p.Faces (value.token :: u :: rest))
    (hu : ¬ Power.default < Grammar.standard.powerOf u.kind) :
    Reads (.expr .default) p value.tree p := by
  cases value with
  | name token hkind => exact reads_name hp hkind hu
  | integer token value hkind hvalue => exact reads_integer hp hkind hu hvalue

/-- No value is a reserved word. -/
theorem CaseValueText.kind_ne_defaultWord (value : CaseValueText) :
    value.token.kind ≠ .defaultWord := by
  cases value with
  | name token hkind | integer token value hkind hvalue =>
    change token.kind ≠ .defaultWord
    rw [hkind]
    decide

/-- Behind a value there is a comma, or what stands behind all of them. -/
theorem NextValue.exists_weak (hu : u.kind = .openCurly) (others : List NextValue)
    (rest : List Token) :
    ∃ w more, NextValue.tokensEach others ++ u :: rest = w :: more ∧
      ¬ Power.default < Grammar.standard.powerOf w.kind := by
  cases others with
  | nil => exact ⟨u, rest, rfl, by rw [hu]; decide⟩
  | cons next others => exact ⟨next.comma, _, rfl, by rw [next.comma_kind]; decide⟩

/-- Values behind the first one are read up to the opening brace. -/
theorem NextValue.reads_each {others : List NextValue} (hu : u.kind = .openCurly)
    (hp : p.Faces (last :: (NextValue.tokensEach others ++ u :: rest))) :
    Reads .caseValues p (others.map fun next => next.value.tree)
      (advance^[(NextValue.tokensEach others).length] p) := by
  induction others generalizing p last with
  | nil =>
    have hpeek : p.window.peek.kind ≠ .comma := by
      rw [Parser.Faces.peek_eq hp, hu]
      decide
    exact .ifNotPeek hpeek .done
  | cons next others ih =>
    change p.Faces (last :: next.comma :: next.value.token ::
      (NextValue.tokensEach others ++ u :: rest)) at hp
    have hpeek : p.window.peek.kind = .comma := by rw [hp.peek_eq, next.comma_kind]
    have hvalue := (hp.advance (by simp)).advance (by simp; omega)
    have hothers := ih hvalue
    obtain ⟨w, more, htokens, hweak⟩ := exists_weak hu others rest
    rw [htokens] at hvalue
    exact .ifPeek hpeek (.shift ((Rule.Gives.nextExpr (next.value.reads hvalue hweak)).bind
      (.need hothers .done)))

/-- The selection of a clause is read up to the opening brace. -/
theorem Selector.gives (selector : Selector) (hu : u.kind = .openCurly)
    (hp : p.Faces (selector.word :: (selector.more ++ u :: rest))) :
    Rule.selection.Gives p selector.values? (advance^[selector.more.length] p) := by
  refine .look ?_
  change Rule.Gives (if _ then _ else if _ then _ else _) _ _ _
  rw [hp.current_eq]
  cases selector with
  | values word first others hword =>
    have hfirst := hp.advance (by simp [more]; omega)
    have hothers := NextValue.reads_each hu hfirst
    obtain ⟨w, later, htokens, hweak⟩ := NextValue.exists_weak hu others rest
    have hvalue : p.advance.Faces (first.token :: w :: later) := by
      rw [← htokens]
      exact hfirst
    rw [Selector.word, hword, if_neg (by decide), if_pos rfl]
    refine .shift (.look ?_)
    change Rule.Gives (if _ then _ else _) _ _ _
    rw [hvalue.current_eq, if_neg first.kind_ne_defaultWord]
    exact .need (first.reads hvalue hweak) (.need hothers .done)
  | otherwise word hword =>
    rw [Selector.word, hword, if_pos rfl]
    exact .done
  | caseOtherwise word second hword hsecond =>
    have hcurrent : p.advance.window.current = second := hp.peek_eq
    rw [Selector.word, hword, if_neg (by decide), if_pos rfl]
    refine .shift (.look ?_)
    change Rule.Gives (if _ then _ else _) _ _ _
    rw [hcurrent, if_pos hsecond]
    exact .done

/-! ## Clauses -/

namespace ClauseText

/-- A clause begins on `case` or on `default`. -/
theorem word_kind (clause : ClauseText) :
    clause.selector.word.kind = .caseWord ∨ clause.selector.word.kind = .defaultWord := by
  obtain ⟨selector⟩ := clause
  cases selector with
  | values word first others hword => exact .inl hword
  | otherwise word hword => exact .inr hword
  | caseOtherwise word second hword hsecond => exact .inl hword

/-- A clause ends on its closing brace. -/
theorem getLast?_tokens (clause : ClauseText) : clause.tokens.getLast? = some clause.closing :=
  List.getLast?_eq_some_iff.2 ⟨clause.selector.word :: (clause.selector.more ++
    clause.opening :: clause.body), by simp [tokens]⟩

/-- A clause is read as its node. -/
theorem gives (clause : ClauseText) (hrest : 1 ≤ rest.length)
    (hp : p.Faces (t :: (clause.tokens ++ rest))) :
    Rule.clause.Gives p clause.node (advance^[clause.tokens.length] p) := by
  have htokens : clause.tokens ++ rest = clause.selector.word :: (clause.selector.more ++
      clause.opening :: (clause.body ++ clause.closing :: rest)) := by
    simp [tokens]
  rw [htokens] at hp
  have hword := hp.advance (by simp; omega)
  have hselection := clause.selector.gives clause.opening_kind hword
  obtain ⟨last, hlast⟩ := exists_faces_last hword (by simp)
  have hbody := clause.clean.gives_body clause.ends hlast clause.opening_kind
    clause.closing_kind hrest
  have hlength : clause.tokens.length = clause.body.length + 2 +
    clause.selector.more.length + 1 := by
    simp [tokens]
    omega
  rw [hlength, Function.iterate_succ_apply, Function.iterate_add_apply, node, ← hword.current_eq]
  exact .shift (.look (hselection.bind (hbody.bind .done)))

/-- Clauses are read up to the closing brace of the switch, which no semicolon comes before. -/
theorem reads_each {clauses : List ClauseText} (hu : u.kind = .closeCurly) (hrest : 1 ≤ rest.length)
    (ht : t.kind ≠ .semicolon)
    (hp : p.Faces (t :: (clauses.flatMap tokens ++ u :: rest))) :
    ∃ q last, Reads .clauses p (clauses.map node) q ∧ last.kind ≠ .semicolon ∧
      q.Faces (last :: u :: rest) := by
  induction clauses generalizing p t with
  | nil =>
    have hpeek : p.window.peek.kind = .closeCurly := by rw [Parser.Faces.peek_eq hp, hu]
    refine ⟨p, t, .look ?_, ht, hp⟩
    change Rule.Gives (if _ then _ else _) _ _ _
    rw [if_pos hpeek]
    exact .done
  | cons clause clauses ih =>
    rw [List.flatMap_cons, List.append_assoc] at hp
    have hword : p.window.peek = clause.selector.word := Parser.Faces.peek_eq hp
    have hclause := clause.gives (by simp; omega) hp
    have hend := faces_last hp clause.getLast?_tokens (by simp; omega)
    have hclosing : clause.closing.kind ≠ .semicolon := by
      rw [clause.closing_kind]
      decide
    obtain ⟨q, last, hclauses, hlast, hq⟩ := ih hclosing hend
    refine ⟨q, last, .look ?_, hlast, hq⟩
    change Rule.Gives (if _ then _ else if _ then _ else _) _ _ _
    rw [hword]
    rcases clause.word_kind with hkind | hkind <;> rw [hkind, if_neg (by decide),
      if_neg (by decide)]
    · exact hclause.bind ((Rule.Gives.need hclauses .done).bind .done)
    · exact hclause.bind ((Rule.Gives.need hclauses .done).bind .done)

end ClauseText

/-! ## Switches -/

/-- What is left of the plan for a switch behind its clauses. -/
def Rule.closeSwitch (token : Token) (subject : Expr) (clauses : List CaseClause) : Rule Expr := do
  Rule.advance
  let defaults := clauses.countP CaseClause.isDefault
  if 1 < defaults then Rule.fail (.duplicateDefault defaults)
  else return .switch token subject clauses

namespace SwitchText

/-- A switch is written as its word, its subject and its clauses in braces. -/
theorem tokens_append (text : SwitchText) (rest : List Token) :
    text.tokens ++ rest = text.keyword :: text.openParen :: text.subject :: text.closeParen ::
      text.opening :: (text.clauses.flatMap ClauseText.tokens ++ text.closing :: rest) := by
  simp [tokens]

/-- The defaults among the nodes are those among the clauses. -/
theorem countP_node (text : SwitchText) :
    (text.clauses.map ClauseText.node).countP CaseClause.isDefault = text.defaults := by
  rw [List.countP_map]
  rfl

/-- A switch comes down to its closing brace. -/
theorem resumes (text : SwitchText) (hrest : 1 ≤ rest.length) (hp : p.Faces (text.tokens ++ rest)) :
    ∃ q last, last.kind ≠ .semicolon ∧ q.Faces (last :: text.closing :: rest) ∧
      ExpressionRule.switch.plan.Resumes p (Rule.closeSwitch text.keyword
        (.identifier (.ofToken text.subject)) (text.clauses.map ClauseText.node)) q := by
  rw [tokens_append] at hp
  have hopen := hp.advance (by simp)
  have hsubject := hopen.advance (by simp)
  have hclose := hsubject.advance (by simp)
  have hbrace := hclose.advance (by simp; omega)
  have hname := reads_name hsubject text.subject_kind (by rw [text.closeParen_kind]; decide)
  have hparen : (Rule.expect .openParen).Gives p () p.advance :=
    .expect (by rw [hp.peek_eq, text.openParen_kind])
  have hgrouping : Rule.grouping.Gives p.advance (.identifier (.ofToken text.subject))
      p.advance.advance.advance :=
    (Rule.Gives.nextExpr hname).bind
      ((Rule.Gives.expect (by rw [hsubject.peek_eq, text.closeParen_kind])).bind .done)
  have hcondition : Rule.condition.Gives p (.identifier (.ofToken text.subject))
      p.advance.advance.advance := hparen.bind hgrouping
  have hexpect : (Rule.expect .openCurly).Gives p.advance.advance.advance ()
      p.advance.advance.advance.advance :=
    .expect (by rw [hclose.peek_eq, text.opening_kind])
  have hopening : text.opening.kind ≠ .semicolon := by
    rw [text.opening_kind]
    decide
  obtain ⟨q, last, hclauses, hlast, hq⟩ :=
    ClauseText.reads_each text.closing_kind hrest hopening hbrace
  refine ⟨q, last, hlast, hq, ?_⟩
  rw [← show p.window.current = text.keyword from hp.current_eq]
  refine ⟨fun h => .look (hcondition.bind (hexpect.bind (.need hclauses h))), fun {cause r} h => ?_⟩
  refine .look ?_
  change (Rule.condition >>= fun subject => Rule.expect .openCurly >>= fun _ =>
    Rule.need .clauses (Rule.closeSwitch p.window.current subject)).Misses p cause r
  exact .bind hcondition (.bind hexpect (.need hclauses h))

/-- With one default at most, the switch is read as its node. -/
theorem reads (text : SwitchText) (hdefaults : text.defaults ≤ 1) (hu : u.kind = .eof)
    (hp : p.Faces (text.tokens ++ u :: v :: rest)) :
    ∃ r, r.window.peek.kind = .eof ∧ Reads (.expr .default) p text.node r := by
  obtain ⟨q, last, -, hq, hresumes⟩ := text.resumes (by simp) hp
  have hclosing := hq.advance (by simp)
  have hgives : (Rule.closeSwitch text.keyword (.identifier (.ofToken text.subject))
      (text.clauses.map ClauseText.node)).Gives q text.node q.advance := by
    refine .shift ?_
    change Rule.Gives (if _ then _ else _) _ _ _
    rw [countP_node, if_neg (Nat.not_lt.2 hdefaults)]
    exact .done
  rw [tokens_append] at hp
  refine ⟨q.advance, by rw [hclosing.peek_eq, hu], ?_⟩
  exact reads_expr hp (by rw [text.keyword_kind]; rfl) (by rw [text.keyword_kind]; rfl)
    (hresumes.gives hgives) (reads_links_stop hclosing (by rw [hu]; decide))

/-- With more than one default, the switch is missed on its closing brace. -/
theorem missed (text : SwitchText) (hdefaults : 1 < text.defaults)
    (hp : p.Faces (text.tokens ++ u :: v :: rest)) :
    ∃ r, Missed (.expr .default) p (.duplicateDefault text.defaults) r ∧
      r.SkipsTo text.closing.line (u :: v :: rest) := by
  obtain ⟨q, last, hlast, hq, hresumes⟩ := text.resumes (by simp) hp
  have hclosing := hq.advance (by simp)
  have hmisses : (Rule.closeSwitch text.keyword (.identifier (.ofToken text.subject))
      (text.clauses.map ClauseText.node)).Misses q (.duplicateDefault text.defaults) q.advance := by
    refine .shift ?_
    change Rule.Misses (if _ then _ else _) _ _ _
    rw [countP_node, if_pos hdefaults]
    exact .fail
  rw [tokens_append] at hp
  refine ⟨q.advance, missed_expr hp (by rw [text.keyword_kind]; rfl)
    (by rw [text.keyword_kind]; rfl)
    (hresumes.misses hmisses).bind_first, ?_⟩
  have hpassed : text.closing.NoBoundary text.closing.line := by
    refine ⟨rfl, ?_, ?_⟩ <;> rw [text.closing_kind]
    · decide
    · rfl
  refine ⟨?_, [text.closing], hclosing, ?_, by simpa using hpassed⟩
  · change q.window.current.kind ≠ _
    rwa [hq.current_eq]
  · rw [hclosing.current_eq]
    exact List.mem_singleton_self _

end SwitchText

/-! ## Programs -/

/-- **A switch keeps its clauses and allows one default.** A switch on a name, with any clauses in
any order, at the end of the list or up to an end of input. With one default at most, the program is
the switch, with the clauses in order, and each body holds the statements of the program that its
tokens spell. With more, the program is an empty slot, and there is one diagnostic: it counts the
defaults, on the line of the closing brace. -/
theorem switch_defaults (text : SwitchText) {ending : List Token}
    (hending : ∀ t ∈ ending.head?, t.kind = .eof) :
    parseTokens (text.tokens ++ ending) =
      if text.defaults ≤ 1 then (⟨[some (.expression text.keyword text.node)]⟩, [])
      else (⟨[none]⟩, [⟨.duplicateDefault text.defaults, text.closing.line⟩]) := by
  -- one more token behind the end of input makes no difference
  obtain ⟨t, v, rest, ht, hparse⟩ : ∃ t v rest, t.kind = .eof ∧
      parseTokens (text.tokens ++ ending) = parseTokens (text.tokens ++ t :: v :: rest) := by
    obtain ⟨t, rest, ht, hparse⟩ := exists_parseTokens_eof text.tokens hending
    have hbehind := parseTokens_append_of_eof text.tokens ht
    exact ⟨t, t, [], ht, hparse.trans ((hbehind rest).trans (hbehind [t]).symm)⟩
  rw [hparse]
  have hp : (ofTokens (text.tokens ++ t :: v :: rest)).Faces (text.tokens ++ t :: v :: rest) :=
    faces_ofTokens (by simp; omega)
  have hfirst : (ofTokens (text.tokens ++ t :: v :: rest)).Faces (text.keyword :: _) := hp
  have hstart : text.keyword.kind ≠ .eof := by
    rw [text.keyword_kind]
    decide
  have hstatement : Grammar.standard.statement text.keyword.kind = none := by
    rw [text.keyword_kind]
    rfl
  split
  · next hdefaults =>
    obtain ⟨r, hpeek, hreads⟩ := text.reads hdefaults ht hp
    exact parseTokens_eq_of_reads_expr hfirst hstart hstatement hreads hpeek
  · next hdefaults =>
    obtain ⟨r, hmissed, hr⟩ := text.missed (Nat.not_le.1 hdefaults) hp
    exact parseTokens_eq_of_missed_expr hfirst hstart hstatement hmissed hr ht

/-- The clause `case 1, a { b; }`. -/
def valuesClause : ClauseText where
  selector := .values ⟨.caseWord, "case", 5⟩ (.integer ⟨.integer, "1", 5⟩ 1 rfl (by decide))
    [⟨⟨.comma, ",", 5⟩, .name ⟨.identifier, "a", 5⟩ rfl, rfl⟩] rfl
  opening := ⟨.openCurly, "\x7b", 5⟩
  body := [⟨.identifier, "b", 5⟩, ⟨.semicolon, ";", 5⟩]
  closing := ⟨.closeCurly, "\x7d", 5⟩
  opening_kind := rfl
  clean := ⟨by decide, by decide⟩
  ends := by simp [EndsStatement]
  closing_kind := rfl

/-- The clause `default { }`. -/
def defaultClause : ClauseText where
  selector := .otherwise ⟨.defaultWord, "default", 6⟩ rfl
  opening := ⟨.openCurly, "\x7b", 6⟩
  body := []
  closing := ⟨.closeCurly, "\x7d", 6⟩
  opening_kind := rfl
  clean := ⟨by simp, rfl⟩
  ends := by simp [EndsStatement]
  closing_kind := rfl

/-- The switch `switch (x) { … }` with the clauses. -/
def switchOn (clauses : List ClauseText) : SwitchText where
  keyword := ⟨.switchWord, "switch", 5⟩
  openParen := ⟨.openParen, "(", 5⟩
  subject := ⟨.identifier, "x", 5⟩
  closeParen := ⟨.closeParen, ")", 5⟩
  opening := ⟨.openCurly, "\x7b", 5⟩
  clauses := clauses
  closing := ⟨.closeCurly, "\x7d", 7⟩
  keyword_kind := rfl
  openParen_kind := rfl
  subject_kind := rfl
  closeParen_kind := rfl
  opening_kind := rfl
  closing_kind := rfl

/-- The law with a default before the values, and with one before and one behind. -/
theorem switch_defaults_orders :
    (∀ t ∈ [Token.eof 7].head?, t.kind = .eof) ∧
    parseTokens ((switchOn [defaultClause, valuesClause]).tokens ++ [Token.eof 7]) =
      (⟨[some (.expression ⟨.switchWord, "switch", 5⟩
        (switchOn [defaultClause, valuesClause]).node)]⟩, []) ∧
    parseTokens ((switchOn [defaultClause, valuesClause, defaultClause]).tokens ++ [Token.eof 7]) =
      (⟨[none]⟩, [⟨.duplicateDefault 2, 7⟩]) := by
  have hending : ∀ t ∈ [Token.eof 7].head?, t.kind = .eof := by decide
  exact ⟨hending, switch_defaults (switchOn [defaultClause, valuesClause]) hending,
    switch_defaults (switchOn [defaultClause, valuesClause, defaultClause]) hending⟩

/-- A body may not hold an end of input, although behind one any tokens are parsed without a
diagnostic: the one default of this switch never ends. -/
theorem switch_body_past_end :
    let body : List Token := [⟨.eof, "", 1⟩, ⟨.semicolon, ";", 1⟩]
    (parseTokens body).2 = [] ∧ body.getLast?.map Token.kind = some .semicolon ∧
      (parseTokens ([⟨.switchWord, "switch", 1⟩, ⟨.openParen, "(", 1⟩, ⟨.identifier, "x", 1⟩,
        ⟨.closeParen, ")", 1⟩, ⟨.openCurly, "\x7b", 1⟩, ⟨.defaultWord, "default", 1⟩,
        ⟨.openCurly, "\x7b", 1⟩] ++ body ++
          [⟨.closeCurly, "\x7d", 1⟩, ⟨.closeCurly, "\x7d", 1⟩])).2 = [⟨.unclosedBlock, 1⟩] := by
  decide +kernel

end ScriptFront
