import ScriptFront.Proofs.Parser.Bodies
import ScriptFront.Proofs.Tree.Leaves

/-!
# The defaults of a function's parameters

A function with an empty body, and any number of parameters, each a name that may be followed by an
equals sign and a default: a name or an integer.

* `ParameterText`, `functionTokens`, `functionNode` — a parameter as it is written, the tokens of a
  function, and its node.
* `firstMisplaced?`, `lastWritten?` — the first parameter without a default behind one that has a
  default, and the default that is written last under a name.
* `ParameterText.resumes` — one parameter leaves the outcome to those behind it.
* `ParameterText.reads_each`, `ParameterText.missed_each` — a list is read, or missed on the first
  parameter that is out of place.
* `defaults_declared` — what becomes of the whole function.
-/

namespace ScriptFront

open ScriptFront.Parser

/-! ## Functions as they are written -/

/-- The default of a parameter as it is written. -/
inductive DefaultText where
  /-- A name. -/
  | name (text : String)
  /-- An integer literal within range. -/
  | integer (text : String) (value : Int) (hvalue : Numeral.integer? text = some value)

namespace DefaultText

/-- The token of a default. -/
def token (line : Nat) : DefaultText → Token
  | name text => ⟨.identifier, text, line⟩
  | integer text _ _ => ⟨.integer, text, line⟩

/-- The tree of a default. -/
def tree (line : Nat) : DefaultText → Expr
  | name text => .identifier (.ofToken ⟨.identifier, text, line⟩)
  | integer text value _ => .integer ⟨.integer, text, line⟩ value

end DefaultText

/-- A parameter as it is written. -/
structure ParameterText where
  /-- Its name. -/
  name : String
  /-- What it is written with. -/
  default : Option DefaultText

namespace ParameterText

/-- The name of a parameter in the tree. -/
def id (line : Nat) (parameter : ParameterText) : Identifier :=
  .ofToken ⟨.identifier, parameter.name, line⟩

/-- The tokens of a parameter. -/
def tokens (line : Nat) (parameter : ParameterText) : List Token :=
  ⟨.identifier, parameter.name, line⟩ ::
    match parameter.default with
    | none => []
    | some default => [⟨.assignment, "=", line⟩, default.token line]

/-- The tokens of parameters, with a comma between two. -/
def tokensEach (line : Nat) (parameters : List ParameterText) : List Token :=
  List.intercalate [⟨.comma, ",", line⟩] (parameters.map (tokens line))

/-- The default that is written last under the name. -/
def lastWritten? (parameters : List ParameterText) (name : String) : Option DefaultText :=
  ((parameters.filter fun parameter => parameter.name = name).filterMap default).getLast?

/-- The first parameter without a default, behind one that has a default. -/
def firstMisplaced? (parameters : List ParameterText) : Option ParameterText :=
  (parameters.dropWhile fun parameter => parameter.default.isNone).find? fun parameter =>
    parameter.default.isNone

end ParameterText

/-- The tokens of a function with an empty body. -/
def functionTokens (line : Nat) (name : String) (parameters : List ParameterText) : List Token :=
  [⟨.funcWord, "func", line⟩, ⟨.identifier, name, line⟩, ⟨.openParen, "(", line⟩] ++
    ParameterText.tokensEach line parameters ++
    [⟨.closeParen, ")", line⟩, ⟨.openCurly, "\x7b", line⟩, ⟨.closeCurly, "\x7d", line⟩]

/-- The node of a function with an empty body. -/
def functionNode (line : Nat) (name : String) (parameters : List ParameterText)
    (defaults : Defaults) : Expr :=
  .function false ⟨.funcWord, "func", line⟩ (some (.ofToken ⟨.identifier, name, line⟩))
    (parameters.map (ParameterText.id line)) defaults ⟨⟨.openCurly, "\x7b", line⟩, []⟩

variable {p q r : Parser} {t u v last : Token} {rest : List Token} {line : Nat} {seen : Bool}
  {parameter bad : ParameterText} {parameters : List ParameterText}

/-! ## One parameter -/

/-- A parameter as the parser declares it. -/
def ParameterText.declared (line : Nat) (parameter : ParameterText) : Parameter :=
  (parameter.id line, parameter.default.map (DefaultText.tree line))

/-- What stands behind a parameter: a comma, or the closing parenthesis. -/
def EndsParameter (u : Token) : Prop :=
  u.kind = .comma ∨ u.kind = .closeParen

/-- No expression goes on at what stands behind a parameter. -/
theorem EndsParameter.weak (h : EndsParameter u) :
    ¬ Power.default < Grammar.standard.powerOf u.kind := by
  rcases h with h | h <;> rw [h] <;> decide

/-- What stands behind a parameter is no sign of a default. -/
theorem EndsParameter.ne_assignment (h : EndsParameter u) : u.kind ≠ .assignment := by
  rcases h with h | h <;> rw [h] <;> decide

/-- A default is read up to what stands behind its parameter. -/
theorem DefaultText.reads (default : DefaultText)
    (hp : p.Faces (default.token line :: u :: rest)) (hu : EndsParameter u) :
    Reads (.expr .default) p (default.tree line) p := by
  cases default with
  | name text => exact reads_name hp rfl hu.weak
  | integer text value hvalue => exact reads_integer hp rfl hu.weak hvalue

namespace ParameterText

/-- A parameter that is not out of place leaves the outcome to the parameters behind it. -/
theorem resumes (seen : Bool) (hu : EndsParameter u)
    (hplace : ¬ (seen && parameter.default.isNone) = true)
    (hp : p.Faces (t :: (parameter.tokens line ++ u :: rest))) :
    ∃ last q, q.Faces (last :: u :: rest) ∧
      (∀ later r, (Rule.parameterTail parameter.default.isSome).Gives q later r →
        Reads (.parameters seen) p (parameter.declared line :: later) r) ∧
      ∀ cause r, (Rule.parameterTail parameter.default.isSome).Misses q cause r →
        Missed (.parameters seen) p cause r := by
  obtain ⟨name, default⟩ := parameter
  cases default with
  | none =>
    obtain rfl : seen = false := by
      cases seen with
      | false => rfl
      | true => exact absurd rfl hplace
    change p.Faces (t :: ⟨.identifier, name, line⟩ :: u :: rest) at hp
    have hname := hp.advance (by simp)
    have hid := gives_expectIdentifier hp rfl
    have hpeek : p.advance.window.peek.kind ≠ .assignment := by
      rw [hname.peek_eq]
      exact hu.ne_assignment
    refine ⟨_, p.advance, hname, fun later r htail => ?_, fun cause r htail => ?_⟩
    · exact hid.bind (.ifNotPeek hpeek (htail.bind .done))
    · exact .bind hid (.ifNotPeek hpeek htail.bind_first)
  | some default =>
    change p.Faces (t :: ⟨.identifier, name, line⟩ :: ⟨.assignment, "=", line⟩ ::
      default.token line :: u :: rest) at hp
    have hname := hp.advance (by simp)
    have hsign := hname.advance (by simp)
    have hvalue := hsign.advance (by simp)
    have hid := gives_expectIdentifier hp rfl
    have hpeek : p.advance.window.peek.kind = .assignment := by rw [hname.peek_eq]
    have hshift : Rule.advance.Gives p.advance () p.advance.advance := .shift .done
    have hdefault := Rule.Gives.nextExpr (default.reads hvalue hu)
    refine ⟨_, _, hvalue, fun later r htail => ?_, fun cause r htail => ?_⟩
    · exact hid.bind (.ifPeek hpeek (hshift.bind (hdefault.bind (htail.bind .done))))
    · exact .bind hid (.ifPeek hpeek (.bind hshift (.bind hdefault htail.bind_first)))

/-! ## Lists of parameters -/

/-- The first parameter without a default, behind one that has a default or, if one was seen before
them, at all. -/
def misplacedAfter? (seen : Bool) (parameters : List ParameterText) : Option ParameterText :=
  if seen then parameters.find? fun parameter => parameter.default.isNone
  else firstMisplaced? parameters

/-- A parameter without a default is out of place behind one with a default; otherwise it is looked
for further on. -/
theorem misplacedAfter?_cons (seen : Bool) (parameter : ParameterText)
    (parameters : List ParameterText) :
    misplacedAfter? seen (parameter :: parameters) =
      if seen && parameter.default.isNone then some parameter
      else misplacedAfter? parameter.default.isSome parameters := by
  obtain ⟨name, default⟩ := parameter
  cases seen <;> cases default <;> rfl

/-- One parameter is written without a comma. -/
theorem tokensEach_singleton (line : Nat) (parameter : ParameterText) :
    tokensEach line [parameter] = parameter.tokens line := by
  simp [tokensEach]

/-- A comma stands behind a parameter that is not the last. -/
theorem tokensEach_cons_cons (line : Nat) (first second : ParameterText)
    (later : List ParameterText) :
    tokensEach line (first :: second :: later) =
      first.tokens line ++ ⟨.comma, ",", line⟩ :: tokensEach line (second :: later) := by
  simp [tokensEach, List.intercalate]

/-- Behind the first parameter there is a comma, or what ends the list. -/
theorem exists_endsParameter (hu : EndsParameter u) (line : Nat) (parameter : ParameterText)
    (parameters : List ParameterText) (rest : List Token) :
    ∃ w more, EndsParameter w ∧
      tokensEach line (parameter :: parameters) ++ u :: rest =
        parameter.tokens line ++ w :: more := by
  cases parameters with
  | nil => exact ⟨u, rest, hu, by rw [tokensEach_singleton]⟩
  | cons next later =>
    refine ⟨⟨.comma, ",", line⟩, tokensEach line (next :: later) ++ u :: rest, .inl rfl, ?_⟩
    rw [tokensEach_cons_cons, List.append_assoc, List.cons_append]

/-- Where no parameter is out of place, the list is read. -/
theorem reads_each (hu : u.kind = .closeParen)
    (hplace : misplacedAfter? seen (parameter :: parameters) = none)
    (hp : p.Faces (t :: (tokensEach line (parameter :: parameters) ++ u :: rest))) :
    ∃ last r, r.Faces (last :: u :: rest) ∧
      Reads (.parameters seen) p ((parameter :: parameters).map (declared line)) r := by
  induction parameters generalizing p t seen parameter with
  | nil =>
    rw [misplacedAfter?_cons] at hplace
    split_ifs at hplace with hmisplaced
    rw [tokensEach_singleton] at hp
    obtain ⟨last, q, hq, hreads, -⟩ := resumes seen (.inr hu) hmisplaced hp
    have hpeek : q.window.peek.kind ≠ .comma := by
      rw [hq.peek_eq, hu]
      decide
    exact ⟨last, q, hq, hreads _ _ (.ifNotPeek hpeek .done)⟩
  | cons next later ih =>
    rw [misplacedAfter?_cons] at hplace
    split_ifs at hplace with hmisplaced
    rw [tokensEach_cons_cons, List.append_assoc, List.cons_append] at hp
    obtain ⟨last, q, hq, hreads, -⟩ := resumes seen (.inl rfl) hmisplaced hp
    have hpeek : q.window.peek.kind = .comma := by rw [hq.peek_eq]
    obtain ⟨last', r, hr, hlater⟩ := ih hplace (hq.advance (by simp; omega))
    exact ⟨last', r, hr, hreads _ _ (.ifPeek hpeek (.shift (.need hlater .done)))⟩

/-- The first token of a list is the name of its first parameter. -/
theorem exists_tokensEach_eq (line : Nat) (parameter : ParameterText)
    (parameters : List ParameterText) :
    ∃ more, tokensEach line (parameter :: parameters) =
      ⟨.identifier, parameter.name, line⟩ :: more := by
  cases parameters with
  | nil => exact ⟨_, tokensEach_singleton line parameter⟩
  | cons next later => exact ⟨_, tokensEach_cons_cons line parameter next later⟩

/-- Recovery stops on no token of a list. -/
theorem noBoundary_tokens (line : Nat) (parameter : ParameterText) :
    ∀ u ∈ parameter.tokens line, u.NoBoundary line := by
  have hname : (⟨.identifier, parameter.name, line⟩ : Token).NoBoundary line :=
    ⟨rfl, nofun, rfl⟩
  cases hdefault : parameter.default with
  | none => simpa [tokens, hdefault] using hname
  | some default =>
    have hsign : (⟨.assignment, "=", line⟩ : Token).NoBoundary line := ⟨rfl, nofun, rfl⟩
    have hvalue : (default.token line).NoBoundary line := by
      cases default <;> exact ⟨rfl, nofun, rfl⟩
    simpa [tokens, hdefault] using ⟨hname, hsign, hvalue⟩

/-- Recovery stops on no token of a list of parameters. -/
theorem noBoundary_tokensEach (line : Nat) (parameters : List ParameterText) :
    ∀ u ∈ tokensEach line parameters, u.NoBoundary line := by
  induction parameters with
  | nil => nofun
  | cons first parameters ih =>
    cases parameters with
    | nil =>
      rw [tokensEach_singleton]
      exact first.noBoundary_tokens line
    | cons next later =>
      have hcomma : (⟨.comma, ",", line⟩ : Token).NoBoundary line := ⟨rfl, nofun, rfl⟩
      rw [tokensEach_cons_cons, List.forall_mem_append, List.forall_mem_cons]
      exact ⟨first.noBoundary_tokens line, hcomma, ih⟩

/-- A list is missed on its first parameter when that is out of place. -/
theorem missed_first (hu : EndsParameter u) (ht : t.kind ≠ .semicolon)
    (hmisplaced : (seen && parameter.default.isNone) = true)
    (hp : p.Faces (t :: (tokensEach line (parameter :: parameters) ++ u :: rest))) :
    Missed (.parameters seen) p (.defaultParameterOrder parameter.name) p.advance ∧
      p.advance.SkipsTo line (u :: rest) := by
  obtain ⟨hseen, hnone⟩ := Bool.and_eq_true_iff.1 hmisplaced
  obtain ⟨w, more, hw, htokens⟩ := exists_endsParameter hu line parameter parameters rest
  rw [tokens, Option.isNone_iff_eq_none.1 hnone, List.singleton_append] at htokens
  rw [htokens] at hp
  have hname := hp.advance (by simp)
  have hpeek : p.advance.window.peek.kind ≠ .assignment := by
    rw [hname.peek_eq]
    exact hw.ne_assignment
  refine ⟨.bind (gives_expectIdentifier hp rfl) (.ifNotPeek hpeek ?_), ?_,
    tokensEach line (parameter :: parameters), ?_, ?_, noBoundary_tokensEach line _⟩
  · rw [if_pos hseen]
    exact .fail
  · change p.window.current.kind ≠ _
    rwa [hp.current_eq]
  · rwa [htokens]
  · obtain ⟨more, htokens⟩ := exists_tokensEach_eq line parameter parameters
    rw [hname.current_eq, htokens]
    exact .head _

/-- The list is missed on the first parameter that is out of place. -/
theorem missed_each (hu : EndsParameter u) (ht : t.kind ≠ .semicolon)
    (hplace : misplacedAfter? seen (parameter :: parameters) = some bad)
    (hp : p.Faces (t :: (tokensEach line (parameter :: parameters) ++ u :: rest))) :
    ∃ r, Missed (.parameters seen) p (.defaultParameterOrder bad.name) r ∧
      r.SkipsTo line (u :: rest) := by
  induction parameters generalizing p t seen parameter with
  | nil =>
    rw [misplacedAfter?_cons] at hplace
    split_ifs at hplace with hmisplaced
    · cases hplace
      exact ⟨_, missed_first hu ht hmisplaced hp⟩
    · -- behind the last parameter none is out of place
      cases hsome : parameter.default.isSome <;> rw [hsome] at hplace <;> cases hplace
  | cons next later ih =>
    rw [misplacedAfter?_cons] at hplace
    split_ifs at hplace with hmisplaced
    · cases hplace
      exact ⟨_, missed_first hu ht hmisplaced hp⟩
    · rw [tokensEach_cons_cons, List.append_assoc, List.cons_append] at hp
      obtain ⟨last, q, hq, -, hmissed⟩ := resumes seen (.inl rfl) hmisplaced hp
      have hpeek : q.window.peek.kind = .comma := by rw [hq.peek_eq]
      obtain ⟨r, hmisses, hr⟩ :=
        ih (show Kind.comma ≠ .semicolon by decide) hplace (hq.advance (by simp; omega))
      exact ⟨r, hmissed _ _ (.ifPeek hpeek (.shift (.unmet hmisses))), hr⟩

/-! ## Functions -/

/-- A list that is not empty does not begin with the closing parenthesis. -/
theorem peek_ne_closeParen
    (hp : p.Faces (t :: (tokensEach line (parameter :: parameters) ++ rest))) :
    p.window.peek.kind ≠ .closeParen := by
  obtain ⟨more, htokens⟩ := exists_tokensEach_eq line parameter parameters
  rw [htokens, List.cons_append] at hp
  rw [hp.peek_eq]
  exact (by decide : Kind.identifier ≠ .closeParen)

/-- Where no parameter is out of place, the list between its parentheses is read. -/
theorem gives_parameterList (hu : u.kind = .closeParen) (hplace : firstMisplaced? parameters = none)
    (hp : p.Faces (t :: (tokensEach line parameters ++ u :: v :: rest))) :
    ∃ q, q.Faces (u :: v :: rest) ∧
      Rule.parameterList.Gives p (parameters.map (declared line)) q := by
  cases parameters with
  | nil =>
    have hpeek : p.window.peek.kind = .closeParen := by rw [Faces.peek_eq hp, hu]
    exact ⟨p.advance, Faces.advance hp (by simp), .ifPeek hpeek (.shift .done)⟩
  | cons parameter parameters =>
    have horder : misplacedAfter? false (parameter :: parameters) = none := hplace
    obtain ⟨last, r, hr, hreads⟩ := reads_each hu horder hp
    have hclose : r.window.peek.kind = .closeParen := by rw [hr.peek_eq, hu]
    refine ⟨r.advance, hr.advance (by simp), .ifNotPeek (peek_ne_closeParen hp) ?_⟩
    exact .need hreads ((Rule.Gives.expect hclose).bind .done)

/-- Where a parameter is out of place, the list is missed on the first that is. -/
theorem misses_parameterList (hu : u.kind = .closeParen) (ht : t.kind ≠ .semicolon)
    (hplace : firstMisplaced? parameters = some bad)
    (hp : p.Faces (t :: (tokensEach line parameters ++ u :: rest))) :
    ∃ r, Rule.parameterList.Misses p (.defaultParameterOrder bad.name) r ∧
      r.SkipsTo line (u :: rest) := by
  cases parameters with
  | nil => cases hplace
  | cons parameter parameters =>
    have horder : misplacedAfter? false (parameter :: parameters) = some bad := hplace
    obtain ⟨r, hmissed, hr⟩ := missed_each (.inr hu) ht horder hp
    exact ⟨r, .ifNotPeek (peek_ne_closeParen hp) (.unmet hmissed), hr⟩

end ParameterText

/-- A function is written as its word, its name, its parameters and an empty block. -/
theorem functionTokens_append (line : Nat) (name : String) (parameters : List ParameterText)
    (rest : List Token) :
    functionTokens line name parameters ++ rest =
      ⟨.funcWord, "func", line⟩ :: ⟨.identifier, name, line⟩ :: ⟨.openParen, "(", line⟩ ::
        (ParameterText.tokensEach line parameters ++ ⟨.closeParen, ")", line⟩ ::
          ⟨.openCurly, "\x7b", line⟩ :: ⟨.closeCurly, "\x7d", line⟩ :: rest) := by
  simp [functionTokens]

/-- The name of a function is read where there is one. -/
theorem gives_optionalName (hp : p.Faces (t :: u :: rest)) (hu : u.kind = .identifier) :
    Rule.optionalName.Gives p (some (.ofToken u)) p.advance := by
  rw [← show p.window.peek = u from hp.peek_eq] at hu ⊢
  exact .ifPeek hu (.shift (.look .done))

/-- Where no parameter is out of place, the function is read. -/
theorem reads_function {name : String}
    (hplace : ParameterText.firstMisplaced? parameters = none) (ht : t.kind = .eof)
    (hp : p.Faces (functionTokens line name parameters ++ t :: rest)) :
    ∃ r, r.window.peek.kind = .eof ∧
      Reads (.expr .default) p (functionNode line name parameters
        (Defaults.ofParameters (parameters.map (ParameterText.declared line)))) r := by
  rw [functionTokens_append] at hp
  have hname := hp.advance (by simp)
  have hopen := hname.advance (by simp; omega)
  have hparen : (Rule.expect .openParen).Gives p.advance () p.advance.advance :=
    .expect (by rw [hname.peek_eq])
  obtain ⟨q, hq, hlist⟩ := ParameterText.gives_parameterList rfl hplace hopen
  have hempty : CleanTokens [] := ⟨nofun, rfl⟩
  have hbody := hempty.gives_body nofun hq rfl rfl (by simp)
  have hbrace := hq.advance (by simp)
  have hclose := hbrace.advance (by simp)
  have hids : parameters.map (ParameterText.id line) =
      (parameters.map (ParameterText.declared line)).map Prod.fst := by
    rw [List.map_map]
    rfl
  have hgives : ExpressionRule.function.plan.Gives p (functionNode line name parameters
      (Defaults.ofParameters (parameters.map (ParameterText.declared line))))
        q.advance.advance := by
    rw [functionNode, hids, ← hp.current_eq]
    exact .look ((gives_optionalName hp rfl).bind (hparen.bind (hlist.bind (hbody.bind .done))))
  refine ⟨q.advance.advance, by rw [hclose.peek_eq, ht], ?_⟩
  exact reads_expr hp rfl rfl hgives (reads_links_stop hclose (by rw [ht]; decide))

/-- The function is missed on the first parameter that is out of place. -/
theorem missed_function {name : String}
    (hplace : ParameterText.firstMisplaced? parameters = some bad)
    (hp : p.Faces (functionTokens line name parameters ++ t :: rest)) :
    ∃ r, Missed (.expr .default) p (.defaultParameterOrder bad.name) r ∧
      r.SkipsTo line (t :: rest) := by
  rw [functionTokens_append] at hp
  have hname := hp.advance (by simp)
  have hopen := hname.advance (by simp; omega)
  have hparen : (Rule.expect .openParen).Gives p.advance () p.advance.advance :=
    .expect (by rw [hname.peek_eq])
  obtain ⟨r, hlist, hr⟩ :=
    ParameterText.misses_parameterList rfl (show Kind.openParen ≠ .semicolon by decide) hplace hopen
  have hmisses : (Rule.functionFrom false p.window.current).Misses p
      (.defaultParameterOrder bad.name) r :=
    .bind (gives_optionalName hp rfl) (.bind hparen hlist.bind_first)
  have hplan : ExpressionRule.function.plan.Misses p (.defaultParameterOrder bad.name) r :=
    .look hmisses
  refine ⟨r, missed_expr hp rfl rfl hplan.bind_first, ?_⟩
  -- recovery goes past the closing parenthesis and the braces too
  exact ((hr.further ⟨rfl, nofun, rfl⟩).further ⟨rfl, nofun, rfl⟩).further ⟨rfl, nofun, rfl⟩

/-! ## Programs -/

/-- What the parser keeps of the defaults is what is written last. -/
theorem ParameterText.find?_declared (line : Nat) (parameters : List ParameterText)
    (name : String) :
    Defaults.find? (Defaults.ofParameters (parameters.map (declared line))) name =
      (lastWritten? parameters name).map (DefaultText.tree line) := by
  rw [Defaults.find?_ofParameters_eq, Defaults.lastDeclared?, lastWritten?, List.filter_map,
    List.filterMap_map, ← List.getLast?_map, List.map_filterMap]
  rfl

/-- **The defaults of a function belong to its names.** A function of any number of parameters on
one line, with an empty body, at the end of the list or up to an end of input. If a parameter
without a default stands behind one that has a default, the program is an empty slot, and there is
one diagnostic: it cites the first such parameter. Otherwise the program is the function, with its
parameters in order, and the default of a name is the one that is written last under the name; where
no other parameter has the name, that is the parameter's own default, or none. -/
theorem defaults_declared (line : Nat) (name : String) (parameters : List ParameterText)
    {ending : List Token} (hending : ∀ t ∈ ending.head?, t.kind = .eof) :
    match ParameterText.firstMisplaced? parameters with
    | some parameter => parseTokens (functionTokens line name parameters ++ ending) =
        (⟨[none]⟩, [⟨.defaultParameterOrder parameter.name, line⟩])
    | none => ∃ defaults, parseTokens (functionTokens line name parameters ++ ending) =
          (⟨[some (.expression ⟨.funcWord, "func", line⟩
            (functionNode line name parameters defaults))]⟩, []) ∧
        (∀ name, Defaults.find? defaults name =
          (ParameterText.lastWritten? parameters name).map (DefaultText.tree line)) ∧
        ∀ parameter ∈ parameters,
          (∀ other ∈ parameters, other.name = parameter.name → other = parameter) →
          Defaults.find? defaults parameter.name =
            parameter.default.map (DefaultText.tree line) := by
  obtain ⟨t, rest, ht, hparse⟩ := exists_parseTokens_eof
    (functionTokens line name parameters) hending
  have hp : (ofTokens (functionTokens line name parameters ++ t :: rest)).Faces
      (functionTokens line name parameters ++ t :: rest) :=
        faces_ofTokens (by simp [functionTokens])
  rw [hparse]
  split
  · next bad hplace =>
    obtain ⟨r, hmissed, hr⟩ := missed_function hplace hp
    exact parseTokens_eq_of_missed_expr hp nofun rfl hmissed hr ht
  · next hplace =>
    obtain ⟨r, hpeek, hreads⟩ := reads_function hplace ht hp
    refine ⟨_, parseTokens_eq_of_reads_expr hp nofun rfl hreads hpeek,
      ParameterText.find?_declared line parameters, fun parameter hmem hunique => ?_⟩
    rw [Defaults.find?_ofParameters_eq]
    refine Defaults.lastDeclared?_of_unique (List.mem_map_of_mem hmem) fun entry hentry hname => ?_
    obtain ⟨other, hother, rfl⟩ := List.mem_map.1 hentry
    rw [hunique other hother hname]

/-- The parameters `a = 1, b, c = a, d`, of which the second and the last are out of place. -/
def disorderedParameters : List ParameterText :=
  [⟨"a", some (.integer "1" 1 (by decide))⟩, ⟨"b", none⟩, ⟨"c", some (.name "a")⟩, ⟨"d", none⟩]

/-- The parameters `a, b = 0x10, c = a`. -/
def orderedParameters : List ParameterText :=
  [⟨"a", none⟩, ⟨"b", some (.integer "0x10" 16 (by decide))⟩, ⟨"c", some (.name "a")⟩]

/-- The law at both lists, up to an end of input. -/
theorem defaults_declared_orders :
    parseTokens (functionTokens 3 "f" disorderedParameters ++ [Token.eof 3]) =
      (⟨[none]⟩, [⟨.defaultParameterOrder "b", 3⟩]) ∧
    ∃ defaults, parseTokens (functionTokens 3 "f" orderedParameters ++ [Token.eof 3]) =
        (⟨[some (.expression ⟨.funcWord, "func", 3⟩
          (functionNode 3 "f" orderedParameters defaults))]⟩, []) ∧
      Defaults.find? defaults "a" = none ∧
      Defaults.find? defaults "b" = some (.integer ⟨.integer, "0x10", 3⟩ 16) := by
  refine ⟨defaults_declared 3 "f" disorderedParameters (by decide), ?_⟩
  obtain ⟨defaults, hparse, hdefaults, -⟩ :=
    defaults_declared 3 "f" orderedParameters (show ∀ t ∈ [Token.eof 3].head?, _ by decide)
  exact ⟨defaults, hparse, hdefaults "a", hdefaults "b"⟩

/-- The parameters `a = 1, a = 2`, which share a name. -/
def sharedParameters : List ParameterText :=
  [⟨"a", some (.integer "1" 1 (by decide))⟩, ⟨"a", some (.integer "2" 2 (by decide))⟩]

/-- Of two parameters that share a name, the first is not found with its own default. -/
theorem default_of_shared_name :
    ParameterText.firstMisplaced? sharedParameters = none ∧
    ∃ defaults, parseTokens (functionTokens 1 "f" sharedParameters) =
        (⟨[some (.expression ⟨.funcWord, "func", 1⟩
          (functionNode 1 "f" sharedParameters defaults))]⟩, []) ∧
      ¬ ∀ parameter ∈ sharedParameters,
        Defaults.find? defaults parameter.name = parameter.default.map (DefaultText.tree 1) := by
  refine ⟨rfl, _, rfl, fun hall => ?_⟩
  have hfirst : some (Expr.integer ⟨.integer, "2", 1⟩ 2) = some (.integer ⟨.integer, "1", 1⟩ 1) :=
    hall _ (.head _)
  simp at hfirst

end ScriptFront
