import ScriptFront.Grammar.Statement
import ScriptFront.Grammar.Table
import ScriptFront.Proofs.Tree.Leaves

/-!
# Laws that every node of a tree obeys

* `Law` — what is asked of a single name, expression, clause or statement. It looks at the node
  itself; what stands inside is looked at on its own.
* `Expr.Obeys`, `Stmt.Obeys` — the law holds of every node at any depth. An expression also has a
  `Site`: it is a pattern when it is the pattern of a match case or an item of an array pattern, and
  an operand everywhere else.
* `wellFormed` — the law of the trees that a parser builds.
-/

namespace ScriptFront

/-- Where an expression stands. -/
inductive Site where
  /-- Anywhere but in a pattern. -/
  | operand
  /-- As the pattern of a match case, or as an item of an array pattern. -/
  | pattern
deriving DecidableEq, Repr

/-- What is asked of the nodes of a tree, each taken alone. -/
structure Law where
  /-- Of a name, wherever it stands. -/
  name : Identifier → Prop
  /-- Of an expression at a site. -/
  expr : Site → Expr → Prop
  /-- Of a clause of a `switch`. -/
  clause : CaseClause → Prop
  /-- Of a statement. -/
  stmt : Stmt → Prop

/-! ## Every node -/

mutual

/-- The expression and all that stands in it obey the law. -/
def Expr.Obeys (law : Law) (site : Site) : Expr → Prop
  | e@(.identifier id) => law.expr site e ∧ law.name id
  | e@(.integer _ _) | e@(.float _ _) | e@(.string _ _) | e@(.boolean _ _) | e@(.null _)
  | e@(.receiver _) | e@(.step _ _) => law.expr site e
  | e@(.array _ elements) => law.expr site e ∧ Expr.ObeysEach law .operand elements
  | e@(.dict _ pairs) => law.expr site e ∧ Expr.ObeysPairs law pairs
  | e@(.arrayPattern _ elements rest) =>
    law.expr site e ∧ Expr.ObeysEach law .pattern elements ∧ ∀ id ∈ rest, law.name id
  | e@(.spread _ name) => law.expr site e ∧ law.name name
  | e@(.unary _ _ right) => law.expr site e ∧ right.Obeys law .operand
  | e@(.binary _ left _ right) =>
    law.expr site e ∧ left.Obeys law .operand ∧ right.Obeys law .operand
  | e@(.range _ start stop) =>
    law.expr site e ∧ start.Obeys law .operand ∧ stop.Obeys law .operand
  | e@(.assign _ name value) => law.expr site e ∧ law.name name ∧ value.Obeys law .operand
  | e@(.compoundAssign _ name _ value) =>
    law.expr site e ∧ law.name name ∧ value.Obeys law .operand
  | e@(.indexAssign _ target _ value) =>
    law.expr site e ∧ target.Obeys law .operand ∧ value.Obeys law .operand
  | e@(.propertyAssign _ _ object property _ value) =>
    law.expr site e ∧ object.Obeys law .operand ∧ law.name property ∧ value.Obeys law .operand
  | e@(.call _ function arguments) =>
    law.expr site e ∧ function.Obeys law .operand ∧ Expr.ObeysEach law .operand arguments
  | e@(.index _ left index) =>
    law.expr site e ∧ left.Obeys law .operand ∧ index.Obeys law .operand
  | e@(.slice _ left start stop) =>
    law.expr site e ∧ left.Obeys law .operand ∧ Expr.Obeys? law start ∧ Expr.Obeys? law stop
  | e@(.property _ object property) =>
    law.expr site e ∧ object.Obeys law .operand ∧ law.name property
  | e@(.method _ object method arguments) =>
    law.expr site e ∧ object.Obeys law .operand ∧ law.name method ∧
      Expr.ObeysEach law .operand arguments
  | e@(.conditional _ condition consequence alternative) =>
    law.expr site e ∧ condition.Obeys law .operand ∧ consequence.Obeys law ∧
      Block.Obeys? law alternative
  | e@(.whileLoop _ condition body) =>
    law.expr site e ∧ condition.Obeys law .operand ∧ body.Obeys law
  | e@(.forLoop _ key value iterable body) =>
    law.expr site e ∧ (∀ id ∈ key, law.name id) ∧ law.name value ∧ iterable.Obeys law .operand ∧
      body.Obeys law
  | e@(.repeatLoop _ _ count body) =>
    law.expr site e ∧ count.Obeys law .operand ∧ body.Obeys law
  | e@(.switch _ subject cases) =>
    law.expr site e ∧ subject.Obeys law .operand ∧ CaseClause.ObeysEach law cases
  | e@(.matching _ subject cases) =>
    law.expr site e ∧ subject.Obeys law .operand ∧ MatchCase.ObeysEach law cases
  | e@(.function _ _ name parameters defaults body) =>
    law.expr site e ∧ (∀ id ∈ name, law.name id) ∧ (∀ id ∈ parameters, law.name id) ∧
      Expr.ObeysDefaults law defaults ∧ body.Obeys law
  | e@(.await _ value) => law.expr site e ∧ value.Obeys law .operand
  | e@(.channel _ size) => law.expr site e ∧ Expr.Obeys? law size
  | e@(.importing _ names) => law.expr site e ∧ ∀ id ∈ names, law.name id
  | e@(.package _ name body) => law.expr site e ∧ law.name name ∧ body.Obeys law
termination_by structural tree => tree

/-- Several expressions at one site obey the law. -/
def Expr.ObeysEach (law : Law) (site : Site) : List Expr → Prop
  | [] => True
  | expression :: rest => expression.Obeys law site ∧ Expr.ObeysEach law site rest
termination_by structural trees => trees

/-- Keys and values obey the law. -/
def Expr.ObeysPairs (law : Law) : List (Expr × Expr) → Prop
  | [] => True
  | (key, value) :: rest =>
    key.Obeys law .operand ∧ value.Obeys law .operand ∧ Expr.ObeysPairs law rest
termination_by structural trees => trees

/-- Default values obey the law. -/
def Expr.ObeysDefaults (law : Law) : List (String × Expr) → Prop
  | [] => True
  | (_, value) :: rest => value.Obeys law .operand ∧ Expr.ObeysDefaults law rest
termination_by structural trees => trees

/-- An expression that may be missing obeys the law. -/
def Expr.Obeys? (law : Law) : Option Expr → Prop
  | none => True
  | some expression => expression.Obeys law .operand
termination_by structural tree => tree

/-- The statements of a block obey the law. -/
def Block.Obeys (law : Law) : Block → Prop
  | ⟨_, body⟩ => Stmt.ObeysEach law body
termination_by structural tree => tree

/-- A block that may be missing obeys the law. -/
def Block.Obeys? (law : Law) : Option Block → Prop
  | none => True
  | some block => block.Obeys law
termination_by structural tree => tree

/-- The clause and all that stands in it obey the law. -/
def CaseClause.Obeys (law : Law) : CaseClause → Prop
  | c@⟨_, _, values, body⟩ =>
    law.clause c ∧ Expr.ObeysEach law .operand values ∧ body.Obeys law
termination_by structural tree => tree

/-- Clauses obey the law. -/
def CaseClause.ObeysEach (law : Law) : List CaseClause → Prop
  | [] => True
  | clause :: rest => clause.Obeys law ∧ CaseClause.ObeysEach law rest
termination_by structural trees => trees

/-- What stands in a case obeys the law, its pattern at the site of patterns. -/
def MatchCase.Obeys (law : Law) : MatchCase → Prop
  | ⟨_, pattern, guard, body⟩ =>
    pattern.Obeys law .pattern ∧ Expr.Obeys? law guard ∧ body.Obeys law
termination_by structural tree => tree

/-- Cases obey the law. -/
def MatchCase.ObeysEach (law : Law) : List MatchCase → Prop
  | [] => True
  | each :: rest => each.Obeys law ∧ MatchCase.ObeysEach law rest
termination_by structural trees => trees

/-- The statement and all that stands in it obey the law. -/
def Stmt.Obeys (law : Law) : Stmt → Prop
  | s@(.declaration _ name _ value) => law.stmt s ∧ law.name name ∧ value.Obeys law .operand
  | s@(.returning _ value) => law.stmt s ∧ Expr.Obeys? law value
  | s@(.breaking _) | s@(.continuing _) | s@(.including _ _ _) => law.stmt s
  | s@(.block inner) => law.stmt s ∧ inner.Obeys law
  | s@(.enumeration _ name members) =>
    law.stmt s ∧ law.name name ∧ Stmt.ObeysMembers law members
  | s@(.errorDeclaration _ name parameters) =>
    law.stmt s ∧ law.name name ∧ ∀ id ∈ parameters, law.name id
  | s@(.declarative _ _ value) => law.stmt s ∧ value.Obeys law .operand
  | s@(.go _ expression) => law.stmt s ∧ expression.Obeys law .operand
  | s@(.expression _ expression) => law.stmt s ∧ expression.Obeys law .operand
termination_by structural tree => tree

/-- Several statements obey the law. -/
def Stmt.ObeysEach (law : Law) : List Stmt → Prop
  | [] => True
  | statement :: rest => statement.Obeys law ∧ Stmt.ObeysEach law rest
termination_by structural trees => trees

/-- Members of an enumeration obey the law. -/
def Stmt.ObeysMembers (law : Law) : List (Identifier × Expr) → Prop
  | [] => True
  | (name, value) :: rest =>
    law.name name ∧ value.Obeys law .operand ∧ Stmt.ObeysMembers law rest
termination_by structural trees => trees

end

/-! ## The law of the trees that are read -/

/-- How the defaults of a function belong to its parameters: there is one for a name at most, in the
order of the names, and only for names of parameters; and behind the last parameter of a name with a
default every parameter has one. -/
structure DefaultsFit (parameters : List Identifier) (defaults : Defaults) : Prop where
  declared : ∀ key ∈ defaults.map Prod.fst, key ∈ parameters.map Identifier.name
  sorted : (defaults.map Prod.fst).Pairwise (· < ·)
  last : ∀ before id after, parameters = before ++ id :: after →
    id.name ∈ defaults.map Prod.fst → id.name ∉ after.map Identifier.name →
      ∀ later ∈ after, later.name ∈ defaults.map Prod.fst

/-- The operators that assign and compute at once. -/
def Kind.isCompound : Kind → Bool
  | .plusEquals | .minusEquals | .starEquals | .slashEquals | .percentEquals => true
  | _ => false

/-- What is asked of a single expression. The tokens that it got a value or an operator from are
among those known. -/
def Expr.Sound (known : Token → Prop) (site : Site) : Expr → Prop
  | .integer token value =>
    known token ∧ token.kind = .integer ∧ Numeral.integer? token.value = some value
  | .float token value =>
    known token ∧ token.kind = .float ∧ Numeral.double? token.value = some value
  | .arrayPattern _ _ _ => site = .pattern
  | .unary token operator _ =>
    known token ∧ Grammar.standard.leading token.kind = some .unary ∧ token.value = operator
  | .binary token _ operator _ =>
    known token ∧ Grammar.standard.linking token.kind = some .binary ∧ token.value = operator
  | .step token operator =>
    known token ∧ (token.kind = .identifier ∨ token.kind = .closeBracket) ∧
      ∃ mark, known mark ∧ Grammar.standard.trailing mark.kind = true ∧ mark.value = operator
  | .range token _ _ => known token ∧ Grammar.standard.linking token.kind = some .range
  | .assign token _ _ => known token ∧ token.kind = .assignment
  | .compoundAssign token _ operator _ =>
    known token ∧ token.kind.isCompound = true ∧ token.value = operator
  | .indexAssign token target operator _ =>
    known token ∧ Grammar.standard.linking token.kind = some .assignment ∧
      token.value = operator ∧ ∃ bracket left index, target = .index bracket left index
  | .propertyAssign token _ _ _ operator _ =>
    known token ∧ Grammar.standard.linking token.kind = some .assignment ∧ token.value = operator
  | .repeatLoop _ counter _ _ =>
    counter = "i" ∨ ∃ token, known token ∧ token.kind = .identifier ∧ token.value = counter
  | .switch _ _ cases => cases.countP CaseClause.isDefault ≤ 1
  | .function _ _ _ parameters defaults _ => DefaultsFit parameters defaults
  | .importing _ names => names ≠ [] ∧ (names.map Identifier.name).Nodup
  | _ => True

/-- What is asked of a single statement: a call of a bare name on bare names does not report an
error, since it declares one. -/
def Stmt.Sound : Stmt → Prop
  | .declarative token .error value =>
    Rule.errorNode token value = .declarative token .error value
  | _ => True

/-- The law of the trees that are read from known tokens. -/
def wellFormed (known : Token → Prop) : Law where
  name id := known id.token ∧ id.token.kind = .identifier ∧ id.token.value = id.name
  expr site e := e.Sound known site
  clause c := c.isDefault = true ↔ c.values = []
  stmt s := s.Sound

/-! ## Lists that obey a law -/

section Lists

variable {law : Law}

/-- A list obeys a law if each of its expressions does. -/
theorem Expr.obeysEach_iff {site : Site} {expressions : List Expr} :
    Expr.ObeysEach law site expressions ↔ ∀ e ∈ expressions, e.Obeys law site := by
  induction expressions with
  | nil => simp [Expr.ObeysEach]
  | cons e rest ih => simp [Expr.ObeysEach, ih]

/-- A list obeys a law if each of its statements does. -/
theorem Stmt.obeysEach_iff {statements : List Stmt} :
    Stmt.ObeysEach law statements ↔ ∀ s ∈ statements, s.Obeys law := by
  induction statements with
  | nil => simp [Stmt.ObeysEach]
  | cons s rest ih => simp [Stmt.ObeysEach, ih]

end Lists

/-! ## The defaults that parameters declare -/

namespace Defaults

variable {name key : String} {value : Expr} {defaults : Defaults} {parameters : List Parameter}
  {law : Law}

/-- The names that have a default. -/
abbrev keys (defaults : Defaults) : List String :=
  defaults.map Prod.fst

/-- The names with a default are those from before and the one that is put in. -/
theorem mem_keys_insert :
    key ∈ keys (insert name value defaults) ↔ key = name ∨ key ∈ keys defaults := by
  fun_induction insert name value defaults with
  | case1 => simp [keys]
  | case2 current rest => simp [keys]
  | case3 other current rest _ _ => simp [keys]
  | case4 other current rest _ _ ih =>
    simp only [keys, List.map_cons, List.mem_cons] at ih ⊢
    rw [ih]
    tauto

/-- Putting in a default keeps the names in order. -/
theorem sorted_insert (h : (keys defaults).Pairwise (· < ·)) :
    (keys (insert name value defaults)).Pairwise (· < ·) := by
  fun_induction insert name value defaults with
  | case1 => simp [keys]
  | case2 current rest => exact h
  | case3 other current rest _ hlt =>
    refine List.pairwise_cons.2 ⟨fun key hkey => ?_, h⟩
    rcases List.mem_cons.1 hkey with rfl | hkey
    · exact hlt
    · exact String.lt_trans hlt ((List.pairwise_cons.1 h).1 key hkey)
  | case4 other current rest hne hlt ih =>
    obtain ⟨hfirst, hrest⟩ := List.pairwise_cons.1 h
    refine List.pairwise_cons.2 ⟨fun key hkey => ?_, ih hrest⟩
    rcases mem_keys_insert.1 hkey with rfl | hkey
    · -- names are in a linear order, and this one is neither before nor at the first
      exact Classical.not_not.1 fun hle =>
        hne (String.le_antisymm (String.not_lt.1 hle) (String.not_lt.1 hlt))
    · exact hfirst key hkey

/-- Putting in a default that obeys a law keeps the defaults to it. -/
theorem obeys_insert (hvalue : value.Obeys law .operand) (h : Expr.ObeysDefaults law defaults) :
    Expr.ObeysDefaults law (insert name value defaults) := by
  fun_induction insert name value defaults with
  | case1 => exact ⟨hvalue, trivial⟩
  | case2 current rest => exact ⟨hvalue, h.2⟩
  | case3 other current rest _ _ => exact ⟨hvalue, h⟩
  | case4 other current rest _ _ ih => exact ⟨h.1, ih h.2⟩

/-- What a list of parameters adds to the defaults. -/
theorem foldl_declares (hobeys : ∀ p ∈ parameters, ∀ value ∈ p.2, value.Obeys law .operand)
    (hsorted : (keys defaults).Pairwise (· < ·)) (hdefaults : Expr.ObeysDefaults law defaults) :
    let all := parameters.foldl declare defaults
    (keys all).Pairwise (· < ·) ∧ Expr.ObeysDefaults law all ∧
      ∀ key, key ∈ keys all ↔
        key ∈ keys defaults ∨ ∃ p ∈ parameters, p.1.name = key ∧ p.2.isSome := by
  induction parameters generalizing defaults with
  | nil => exact ⟨hsorted, hdefaults, by simp⟩
  | cons first rest ih =>
    rw [List.forall_mem_cons] at hobeys
    obtain ⟨id, _ | value⟩ := first
    · obtain ⟨hall, hkept, hkeys⟩ := ih hobeys.2 hsorted hdefaults
      refine ⟨hall, hkept, fun key => (hkeys key).trans ?_⟩
      simp
    · obtain ⟨hall, hkept, hkeys⟩ :=
        ih hobeys.2 (sorted_insert hsorted) (obeys_insert (hobeys.1 value rfl) hdefaults)
      refine ⟨hall, hkept, fun key => (hkeys key).trans ?_⟩
      rw [mem_keys_insert]
      simp only [List.exists_mem_cons_iff, Option.isSome_some, and_true, eq_comm]
      tauto

/-- The defaults of parameters, of which all behind the first with a default have one, fit these. -/
theorem fit_ofParameters (hlast : parameters.Pairwise fun p q => p.2.isSome → q.2.isSome)
    (hobeys : ∀ p ∈ parameters, ∀ value ∈ p.2, value.Obeys law .operand) :
    DefaultsFit (parameters.map Prod.fst) (ofParameters parameters) ∧
      Expr.ObeysDefaults law (ofParameters parameters) := by
  obtain ⟨hsorted, hkept, hkeys⟩ := @foldl_declares [] parameters law hobeys .nil trivial
  have hkeys : ∀ key, key ∈ keys (ofParameters parameters) ↔
      ∃ p ∈ parameters, p.1.name = key ∧ p.2.isSome :=
    fun key => (hkeys key).trans (by simp)
  refine ⟨⟨fun key hkey => ?_, hsorted, ?_⟩, hkept⟩
  · obtain ⟨p, hp, rfl, -⟩ := (hkeys key).1 hkey
    exact List.mem_map_of_mem (List.mem_map_of_mem hp)
  · intro before id after hparameters hid hfresh later hlater
    obtain ⟨front, rest, rfl, rfl, hrest⟩ := List.map_eq_append_iff.1 hparameters
    obtain ⟨p, back, rfl, rfl, rfl⟩ := List.map_eq_cons_iff.1 hrest
    obtain ⟨q, hq, rfl⟩ := List.mem_map.1 hlater
    obtain ⟨source, hsource, hname, hsome⟩ := (hkeys _).1 hid
    -- the parameter that declares the default is not behind the last one of its name
    have hbefore : source ∈ front ++ [p] := by
      rcases List.mem_append.1 hsource with hsource | hsource
      · exact List.mem_append_left _ hsource
      · rcases List.mem_cons.1 hsource with rfl | hsource
        · simp
        · exact absurd (List.mem_map.2 ⟨source.1, List.mem_map_of_mem hsource, hname⟩) hfresh
    rw [← List.singleton_append, ← List.append_assoc, List.pairwise_append] at hlast
    exact (hkeys _).2 ⟨q, by simp [hq], rfl, hlast.2.2 source hbefore q hq hsome⟩

end Defaults

end ScriptFront
