import ScriptFront.Proofs.Tree.Leaves
import ScriptFront.Proofs.Tree.Tokens
import ScriptFront.Tree.Render

/-!
# Trees up to lines

* `Token.flat` — a token as if it stood on the first line.
* `Lined.flat` — the same for all that is read on the way to a tree, and `Program.flat` for
  programs. Two trees with the same `flat` differ at most in the lines of their tokens.
* `Expr.render_flat`, `Expr.token_flat` — what is printed, and from which token a tree starts, has
  nothing to do with lines.
-/

namespace ScriptFront

/-- The token as if it stood on the first line. -/
def Token.flat (token : Token) : Token :=
  { token with line := 1 }

/-- What is read on the way to a tree holds tokens, whose lines can be ignored. -/
class Lined (α : Type) where
  /-- The same with every token on the first line. -/
  flat : α → α

namespace Lined

instance : Lined Unit := ⟨id⟩

instance : Lined Bool := ⟨id⟩

instance : Lined String := ⟨id⟩

instance : Lined Token := ⟨Token.flat⟩

instance : Lined Identifier := ⟨Identifier.mapTokens Token.flat⟩

instance : Lined Expr := ⟨Expr.mapTokens Token.flat⟩

instance : Lined Stmt := ⟨Stmt.mapTokens Token.flat⟩

instance : Lined Block := ⟨Block.mapTokens Token.flat⟩

instance : Lined CaseClause := ⟨CaseClause.mapTokens Token.flat⟩

instance : Lined MatchCase := ⟨MatchCase.mapTokens Token.flat⟩

instance {α β : Type} [Lined α] [Lined β] : Lined (α × β) :=
  ⟨fun pair => (flat pair.1, flat pair.2)⟩

instance : Lined (Option Identifier) := ⟨Option.map (Identifier.mapTokens Token.flat)⟩

instance : Lined (Option Expr) := ⟨Expr.mapTokens? Token.flat⟩

instance : Lined (Option Block) := ⟨Block.mapTokens? Token.flat⟩

instance : Lined (List Identifier) := ⟨List.map (Identifier.mapTokens Token.flat)⟩

instance : Lined (List Expr) := ⟨Expr.mapTokensEach Token.flat⟩

instance : Lined (List Stmt) := ⟨Stmt.mapTokensEach Token.flat⟩

instance : Lined (List (Expr × Expr)) := ⟨Expr.mapTokensPairs Token.flat⟩

instance : Lined (List CaseClause) := ⟨CaseClause.mapTokensEach Token.flat⟩

instance : Lined (List MatchCase) := ⟨MatchCase.mapTokensEach Token.flat⟩

instance : Lined (List (Identifier × Expr)) := ⟨Stmt.mapTokensMembers Token.flat⟩

instance : Lined (List Parameter) := ⟨List.map flat⟩

/-- The values of a clause; the default clause has none. -/
instance : Lined (Option (List Expr)) := ⟨Option.map flat⟩

end Lined

open ScriptFront.Lined (flat)

/-- The program with every token on the first line. -/
def Program.flat (program : Program) : Program :=
  ⟨program.slots.map (Option.map Lined.flat)⟩

/-! ## What does not depend on lines -/

/-- The kind of a token does not depend on its line. -/
theorem Token.kind_flat (token : Token) : (Lined.flat token).kind = token.kind := rfl

/-- The text of a token does not depend on its line. -/
theorem Token.value_flat (token : Token) : (Lined.flat token).value = token.value := rfl

/-- The token of a flat expression is the flat token of the expression. -/
theorem Expr.token_flat (e : Expr) : (flat e).token = flat e.token := by
  cases e <;> rfl

/-- A block of one expression. -/
theorem Block.ofExpr_flat (e : Expr) : Block.ofExpr (flat e) = flat (Block.ofExpr e) := by
  unfold ofExpr
  rw [Expr.token_flat]
  rfl

/-- Names do not depend on lines. -/
theorem Identifier.names_flat (names : List Identifier) :
    (names.map (mapTokens Token.flat)).map name = names.map name := by
  rw [List.map_map]
  rfl

/-- A name that may be missing is printed alike on all lines. -/
theorem renderName?_flat (separator : String) (name : Option Identifier) :
    renderName? separator (name.map (Identifier.mapTokens Token.flat)) =
      renderName? separator name := by
  cases name <;> rfl

/-- How many clauses are defaults does not depend on lines. -/
theorem CaseClause.countP_isDefault_flat (clauses : List CaseClause) :
    (Lined.flat clauses).countP isDefault = clauses.countP isDefault := by
  induction clauses with
  | nil => rfl
  | cons clause rest ih =>
    change List.countP _ (Lined.flat clause :: Lined.flat rest) = _
    rw [List.countP_cons, List.countP_cons, ih]
    cases clause
    rfl

/-! ## Defaults -/

namespace Defaults

/-- The defaults with every token on the first line. -/
def flat (defaults : Defaults) : Defaults :=
  Expr.mapTokensDefaults Token.flat defaults

/-- Putting a flat default into flat ones gives the flat defaults. -/
theorem insert_flat (name : String) (value : Expr) (defaults : Defaults) :
    insert name (Lined.flat value) defaults.flat = (insert name value defaults).flat := by
  fun_induction insert name value defaults with
  | case1 => rfl
  | case2 current rest => exact if_pos rfl
  | case3 other current rest hne hlt => exact (if_neg hne).trans (if_pos hlt)
  | case4 other current rest hne hlt ih =>
    have hnext : insert name (Lined.flat value) (flat ((other, current) :: rest)) =
        (other, Lined.flat current) :: insert name (Lined.flat value) (flat rest) :=
      (if_neg hne).trans (if_neg hlt)
    rw [hnext, ih]
    rfl

/-- Declaring a flat parameter gives the flat defaults. -/
theorem declare_flat (defaults : Defaults) (parameter : Parameter) :
    declare defaults.flat (Lined.flat parameter) = (declare defaults parameter).flat := by
  obtain ⟨id, _ | value⟩ := parameter
  · rfl
  · exact insert_flat _ _ _

/-- The defaults of parameters do not depend on lines. -/
theorem ofParameters_flat (parameters : List Parameter) :
    ofParameters (Lined.flat parameters) = (ofParameters parameters).flat := by
  change (parameters.map Lined.flat).foldl declare (flat []) = (parameters.foldl declare []).flat
  rw [List.foldl_map]
  exact List.foldl_hom flat declare_flat

end Defaults

/-! ## The printed form -/

mutual

/-- The printed form does not depend on lines. -/
theorem Expr.render_flat (e : Expr) : (e.mapTokens Token.flat).render = e.render := by
  cases e with
  | arrayPattern token elements rest =>
    cases rest <;> simp only [Expr.mapTokens, Expr.render, Expr.renderEach_flat elements] <;> rfl
  | forLoop token key value iterable body =>
    cases key <;>
      simp only [Expr.mapTokens, Expr.render, Expr.render_flat iterable, Block.render_flat body] <;>
      rfl
  | function async token name parameters defaults body =>
    simp only [Expr.mapTokens, Expr.render, Expr.renderDefaults_flat defaults,
      Block.render_flat body, renderName?_flat, List.map_map]
    rfl
  | channel token size =>
    cases size with
    | none => rfl
    | some size => simp only [Expr.mapTokens, Expr.mapTokens?, Expr.render, Expr.render_flat size]
  | _ =>
    simp only [Expr.mapTokens, Expr.render, Identifier.mapTokens, Token.flat, renderNames,
      Identifier.names_flat, Expr.render_flat, Expr.renderEach_flat, Expr.renderPairs_flat,
      Expr.render?_flat, Block.render_flat, Block.render?_flat, CaseClause.renderAll_flat,
      MatchCase.renderEach_flat]
termination_by structural e

/-- Expressions are printed alike on all lines. -/
theorem Expr.renderEach_flat (es : List Expr) :
    Expr.renderEach (Expr.mapTokensEach Token.flat es) = Expr.renderEach es := by
  cases es with
  | nil => rfl
  | cons e es =>
    simp only [Expr.mapTokensEach, Expr.renderEach, Expr.render_flat e, Expr.renderEach_flat es]
termination_by structural es

/-- Pairs are printed alike on all lines. -/
theorem Expr.renderPairs_flat (pairs : List (Expr × Expr)) :
    Expr.renderPairs (Expr.mapTokensPairs Token.flat pairs) = Expr.renderPairs pairs := by
  match pairs with
  | [] => rfl
  | (key, value) :: rest =>
    simp only [Expr.mapTokensPairs, Expr.renderPairs, Expr.render_flat key, Expr.render_flat value,
      Expr.renderPairs_flat rest]
termination_by structural pairs

/-- Defaults are printed alike on all lines. -/
theorem Expr.renderDefaults_flat (defaults : List (String × Expr)) :
    Expr.renderDefaults (Expr.mapTokensDefaults Token.flat defaults) =
      Expr.renderDefaults defaults := by
  match defaults with
  | [] => rfl
  | (name, value) :: rest =>
    simp only [Expr.mapTokensDefaults, Expr.renderDefaults, Expr.render_flat value,
      Expr.renderDefaults_flat rest]
termination_by structural defaults

/-- An expression that may be missing is printed alike on all lines. -/
theorem Expr.render?_flat (separator : String) (e : Option Expr) :
    Expr.render? separator (Expr.mapTokens? Token.flat e) = Expr.render? separator e := by
  cases e with
  | none => rfl
  | some e => simp only [Expr.mapTokens?, Expr.render?, Expr.render_flat e]
termination_by structural e

/-- A block that may be missing is printed alike on all lines. -/
theorem Block.render?_flat (separator : String) (block : Option Block) :
    Block.render? separator (Block.mapTokens? Token.flat block) =
      Block.render? separator block := by
  cases block with
  | none => rfl
  | some block => simp only [Block.mapTokens?, Block.render?, Block.render_flat block]
termination_by structural block

/-- A block is printed alike on all lines. -/
theorem Block.render_flat (block : Block) : (block.mapTokens Token.flat).render = block.render := by
  match block with
  | ⟨token, []⟩ => rfl
  | ⟨token, first :: rest⟩ =>
    have hbody := Stmt.renderEach_flat (first :: rest)
    simp only [Stmt.mapTokensEach] at hbody
    simp only [Block.mapTokens, Stmt.mapTokensEach, Block.render, hbody]
termination_by structural block

/-- A clause is printed alike on all lines. -/
theorem CaseClause.render_flat (clause : CaseClause) :
    (clause.mapTokens Token.flat).render = clause.render := by
  match clause with
  | ⟨token, true, values, body⟩ =>
    simp only [CaseClause.mapTokens, CaseClause.render, Block.render_flat body]
  | ⟨token, false, values, body⟩ =>
    simp only [CaseClause.mapTokens, CaseClause.render, Expr.renderEach_flat values,
      Block.render_flat body]
termination_by structural clause

/-- Clauses are printed alike on all lines. -/
theorem CaseClause.renderAll_flat (clauses : List CaseClause) :
    CaseClause.renderAll (CaseClause.mapTokensEach Token.flat clauses) =
      CaseClause.renderAll clauses := by
  cases clauses with
  | nil => rfl
  | cons clause rest =>
    simp only [CaseClause.mapTokensEach, CaseClause.renderAll, CaseClause.render_flat clause,
      CaseClause.renderAll_flat rest]
termination_by structural clauses

/-- A case is printed alike on all lines. -/
theorem MatchCase.render_flat (each : MatchCase) :
    (each.mapTokens Token.flat).render = each.render := by
  match each with
  | ⟨token, pattern, guard, body⟩ =>
    simp only [MatchCase.mapTokens, MatchCase.render, Expr.render_flat pattern,
      Expr.render?_flat _ guard, Block.render_flat body]
termination_by structural each

/-- Cases are printed alike on all lines. -/
theorem MatchCase.renderEach_flat (cases : List MatchCase) :
    MatchCase.renderEach (MatchCase.mapTokensEach Token.flat cases) =
      MatchCase.renderEach cases := by
  match cases with
  | [] => rfl
  | each :: rest =>
    simp only [MatchCase.mapTokensEach, MatchCase.renderEach, MatchCase.render_flat each,
      MatchCase.renderEach_flat rest]
termination_by structural cases

/-- A statement is printed alike on all lines. -/
theorem Stmt.render_flat (statement : Stmt) :
    (statement.mapTokens Token.flat).render = statement.render := by
  cases statement <;>
    simp only [Stmt.mapTokens, Stmt.render, Identifier.mapTokens, renderNames,
      Identifier.names_flat, Expr.render_flat, Expr.render?_flat, Block.render_flat,
      Stmt.renderMembers_flat]
termination_by structural statement

/-- Statements are printed alike on all lines. -/
theorem Stmt.renderEach_flat (statements : List Stmt) :
    Stmt.renderEach (Stmt.mapTokensEach Token.flat statements) = Stmt.renderEach statements := by
  cases statements with
  | nil => rfl
  | cons statement rest =>
    simp only [Stmt.mapTokensEach, Stmt.renderEach, Stmt.render_flat statement,
      Stmt.renderEach_flat rest]
termination_by structural statements

/-- The members of an enumeration are printed alike on all lines. -/
theorem Stmt.renderMembers_flat (members : List (Identifier × Expr)) :
    Stmt.renderMembers (Stmt.mapTokensMembers Token.flat members) =
      Stmt.renderMembers members := by
  match members with
  | [] => rfl
  | (name, value) :: rest =>
    simp only [Stmt.mapTokensMembers, Stmt.renderMembers, Identifier.mapTokens,
      Expr.render_flat value, Stmt.renderMembers_flat rest]
termination_by structural members

end

end ScriptFront
