import Mathlib.Data.List.Nodup
import ScriptFront.Tree.Basic

/-!
# Leaves and nodes of trees

* `Expr.leaves`, `Stmt.leaves`, `Program.leaves` — the tokens of the names and literals in a tree,
  in the order of the text: each default of a function stands behind its parameter, and `x++` adds
  none, since its operand is a leaf of what was read before it.
* `Expr.nodes`, `Stmt.nodes`, `Program.nodes` — the expressions in a tree, at any depth, with its
  names among them.
* `Expr.ParametersDistinct` — a function with no two parameters of one name, or no function at all.
* `Leafy` — what a parser reads on its way to a tree: trees, names, and lists, pairs and options of
  them.
* `find?_ofParameters_eq`, `find?_ofParameters` — a function keeps for each name the default that
  was declared last under it; where the names of parameters are distinct, that is the parameter's
  own.
-/

namespace ScriptFront

/-! ## Leaves -/

/-- The leaf of a name that may be missing. -/
def Identifier.leaves? (id : Option Identifier) : List Token :=
  id.toList.map Identifier.token

mutual

/-- The leaves of an expression. -/
def Expr.leaves : Expr → List Token
  | .identifier id => [id.token]
  | .integer token _ | .float token _ | .string token _ | .boolean token _ | .null token
  | .receiver token => [token]
  | .array _ elements => Expr.leavesEach elements
  | .dict _ pairs => Expr.leavesPairs pairs
  | .arrayPattern _ elements rest => Expr.leavesEach elements ++ Identifier.leaves? rest
  | .spread _ name => [name.token]
  | .unary _ _ right => right.leaves
  | .binary _ left _ right => left.leaves ++ right.leaves
  | .step _ _ => []
  | .range _ start stop => start.leaves ++ stop.leaves
  | .assign _ name value => [name.token] ++ value.leaves
  | .compoundAssign _ name _ value => [name.token] ++ value.leaves
  | .indexAssign _ target _ value => target.leaves ++ value.leaves
  | .propertyAssign _ _ object property _ value =>
    object.leaves ++ [property.token] ++ value.leaves
  | .call _ function arguments => function.leaves ++ Expr.leavesEach arguments
  | .index _ left index => left.leaves ++ index.leaves
  | .slice _ left start stop => left.leaves ++ Expr.leaves? start ++ Expr.leaves? stop
  | .property _ object property => object.leaves ++ [property.token]
  | .method _ object method arguments =>
    object.leaves ++ [method.token] ++ Expr.leavesEach arguments
  | .conditional _ condition consequence alternative =>
    condition.leaves ++ consequence.leaves ++ Block.leaves? alternative
  | .whileLoop _ condition body => condition.leaves ++ body.leaves
  | .forLoop _ key value iterable body =>
    Identifier.leaves? key ++ [value.token] ++ iterable.leaves ++ body.leaves
  | .repeatLoop _ _ count body => count.leaves ++ body.leaves
  | .switch _ subject cases => subject.leaves ++ CaseClause.leavesEach cases
  | .matching _ subject cases => subject.leaves ++ MatchCase.leavesEach cases
  | .function _ _ name parameters defaults body =>
    Identifier.leaves? name ++
      parameters.flatMap (fun id => [id.token] ++ Expr.leavesDefault id.name defaults) ++
        body.leaves
  | .await _ value => value.leaves
  | .channel _ size => Expr.leaves? size
  | .importing _ names => names.map Identifier.token
  | .package _ name body => [name.token] ++ body.leaves
termination_by structural tree => tree

/-- The leaves of several expressions. -/
def Expr.leavesEach : List Expr → List Token
  | [] => []
  | expression :: rest => expression.leaves ++ Expr.leavesEach rest
termination_by structural trees => trees

/-- The leaves of keys and values. -/
def Expr.leavesPairs : List (Expr × Expr) → List Token
  | [] => []
  | (key, value) :: rest => key.leaves ++ value.leaves ++ Expr.leavesPairs rest
termination_by structural trees => trees

/-- The leaves of the default that the name has. -/
def Expr.leavesDefault (name : String) : List (String × Expr) → List Token
  | [] => []
  | (other, value) :: rest =>
    if name = other then value.leaves else Expr.leavesDefault name rest
termination_by structural trees => trees

/-- The leaves of an expression that may be missing. -/
def Expr.leaves? : Option Expr → List Token
  | none => []
  | some expression => expression.leaves
termination_by structural tree => tree

/-- The leaves of a block. -/
def Block.leaves : Block → List Token
  | ⟨_, body⟩ => Stmt.leavesEach body
termination_by structural tree => tree

/-- The leaves of a block that may be missing. -/
def Block.leaves? : Option Block → List Token
  | none => []
  | some block => block.leaves
termination_by structural tree => tree

/-- The leaves of a clause. -/
def CaseClause.leaves : CaseClause → List Token
  | ⟨_, _, values, body⟩ => Expr.leavesEach values ++ body.leaves
termination_by structural tree => tree

/-- The leaves of clauses. -/
def CaseClause.leavesEach : List CaseClause → List Token
  | [] => []
  | clause :: rest => clause.leaves ++ CaseClause.leavesEach rest
termination_by structural trees => trees

/-- The leaves of a case. -/
def MatchCase.leaves : MatchCase → List Token
  | ⟨_, pattern, guard, body⟩ => pattern.leaves ++ Expr.leaves? guard ++ body.leaves
termination_by structural tree => tree

/-- The leaves of cases. -/
def MatchCase.leavesEach : List MatchCase → List Token
  | [] => []
  | each :: rest => each.leaves ++ MatchCase.leavesEach rest
termination_by structural trees => trees

/-- The leaves of a statement. -/
def Stmt.leaves : Stmt → List Token
  | .declaration _ name _ value => [name.token] ++ value.leaves
  | .returning _ value => Expr.leaves? value
  | .breaking _ | .continuing _ => []
  | .including _ path _ => [path]
  | .block inner => inner.leaves
  | .enumeration _ name members => [name.token] ++ Stmt.leavesMembers members
  | .errorDeclaration _ name parameters => [name.token] ++ parameters.map Identifier.token
  | .declarative _ _ value => value.leaves
  | .go _ expression => expression.leaves
  | .expression _ expression => expression.leaves
termination_by structural tree => tree

/-- The leaves of several statements. -/
def Stmt.leavesEach : List Stmt → List Token
  | [] => []
  | statement :: rest => statement.leaves ++ Stmt.leavesEach rest
termination_by structural trees => trees

/-- The leaves of members. -/
def Stmt.leavesMembers : List (Identifier × Expr) → List Token
  | [] => []
  | (name, value) :: rest => [name.token] ++ value.leaves ++ Stmt.leavesMembers rest
termination_by structural trees => trees

end

/-- The leaves of the statements that were read. -/
def Program.leaves (program : Program) : List Token :=
  Stmt.leavesEach program.statements

/-! ## Nodes -/

/-- Names as expressions. -/
def Identifier.nodesEach (ids : List Identifier) : List Expr :=
  ids.map Expr.identifier

/-- A name that may be missing as an expression. -/
def Identifier.nodes? (id : Option Identifier) : List Expr :=
  id.toList.map Expr.identifier

mutual

/-- The expressions in an expression: itself, and those in its parts. -/
def Expr.nodes : Expr → List Expr
  | e@(.identifier _) | e@(.integer _ _) | e@(.float _ _) | e@(.string _ _) | e@(.boolean _ _)
  | e@(.null _) | e@(.receiver _) | e@(.step _ _) => [e]
  | e@(.array _ elements) => e :: Expr.nodesEach elements
  | e@(.dict _ pairs) => e :: Expr.nodesPairs pairs
  | e@(.arrayPattern _ elements rest) => e :: (Expr.nodesEach elements ++ Identifier.nodes? rest)
  | e@(.spread _ name) => e :: [.identifier name]
  | e@(.unary _ _ right) => e :: right.nodes
  | e@(.binary _ left _ right) => e :: (left.nodes ++ right.nodes)
  | e@(.range _ start stop) => e :: (start.nodes ++ stop.nodes)
  | e@(.assign _ name value) => e :: ([.identifier name] ++ value.nodes)
  | e@(.compoundAssign _ name _ value) => e :: ([.identifier name] ++ value.nodes)
  | e@(.indexAssign _ target _ value) => e :: (target.nodes ++ value.nodes)
  | e@(.propertyAssign _ dot object property _ value) =>
    e :: ((.property dot object property :: (object.nodes ++ [.identifier property])) ++
      value.nodes)
  | e@(.call _ function arguments) => e :: (function.nodes ++ Expr.nodesEach arguments)
  | e@(.index _ left index) => e :: (left.nodes ++ index.nodes)
  | e@(.slice _ left start stop) => e :: (left.nodes ++ Expr.nodes? start ++ Expr.nodes? stop)
  | e@(.property _ object property) => e :: (object.nodes ++ [.identifier property])
  | e@(.method _ object method arguments) =>
    e :: (object.nodes ++ [.identifier method] ++ Expr.nodesEach arguments)
  | e@(.conditional _ condition consequence alternative) =>
    e :: (condition.nodes ++ consequence.nodes ++ Block.nodes? alternative)
  | e@(.whileLoop _ condition body) => e :: (condition.nodes ++ body.nodes)
  | e@(.forLoop _ key value iterable body) =>
    e :: (Identifier.nodes? key ++ [.identifier value] ++ iterable.nodes ++ body.nodes)
  | e@(.repeatLoop _ _ count body) => e :: (count.nodes ++ body.nodes)
  | e@(.switch _ subject cases) => e :: (subject.nodes ++ CaseClause.nodesEach cases)
  | e@(.matching _ subject cases) => e :: (subject.nodes ++ MatchCase.nodesEach cases)
  | e@(.function _ _ name parameters defaults body) =>
    e :: (Identifier.nodes? name ++ Identifier.nodesEach parameters ++
      Expr.nodesDefaults defaults ++
      body.nodes)
  | e@(.await _ value) => e :: value.nodes
  | e@(.channel _ size) => e :: Expr.nodes? size
  | e@(.importing _ names) => e :: Identifier.nodesEach names
  | e@(.package _ name body) => e :: ([.identifier name] ++ body.nodes)
termination_by structural tree => tree

/-- The expressions in several ones. -/
def Expr.nodesEach : List Expr → List Expr
  | [] => []
  | expression :: rest => expression.nodes ++ Expr.nodesEach rest
termination_by structural trees => trees

/-- The expressions in keys and values. -/
def Expr.nodesPairs : List (Expr × Expr) → List Expr
  | [] => []
  | (key, value) :: rest => key.nodes ++ value.nodes ++ Expr.nodesPairs rest
termination_by structural trees => trees

/-- The expressions in default values. -/
def Expr.nodesDefaults : List (String × Expr) → List Expr
  | [] => []
  | (_, value) :: rest => value.nodes ++ Expr.nodesDefaults rest
termination_by structural trees => trees

/-- The expressions in one that may be missing. -/
def Expr.nodes? : Option Expr → List Expr
  | none => []
  | some expression => expression.nodes
termination_by structural tree => tree

/-- The expressions in a block. -/
def Block.nodes : Block → List Expr
  | ⟨_, body⟩ => Stmt.nodesEach body
termination_by structural tree => tree

/-- The expressions in a block that may be missing. -/
def Block.nodes? : Option Block → List Expr
  | none => []
  | some block => block.nodes
termination_by structural tree => tree

/-- The expressions in a clause. -/
def CaseClause.nodes : CaseClause → List Expr
  | ⟨_, _, values, body⟩ => Expr.nodesEach values ++ body.nodes
termination_by structural tree => tree

/-- The expressions in clauses. -/
def CaseClause.nodesEach : List CaseClause → List Expr
  | [] => []
  | clause :: rest => clause.nodes ++ CaseClause.nodesEach rest
termination_by structural trees => trees

/-- The expressions in a case. -/
def MatchCase.nodes : MatchCase → List Expr
  | ⟨_, pattern, guard, body⟩ => pattern.nodes ++ Expr.nodes? guard ++ body.nodes
termination_by structural tree => tree

/-- The expressions in cases. -/
def MatchCase.nodesEach : List MatchCase → List Expr
  | [] => []
  | each :: rest => each.nodes ++ MatchCase.nodesEach rest
termination_by structural trees => trees

/-- The expressions in a statement. -/
def Stmt.nodes : Stmt → List Expr
  | .declaration _ name _ value => [.identifier name] ++ value.nodes
  | .returning _ value => Expr.nodes? value
  | .breaking _ | .continuing _ => []
  | .including _ path text => [.string path text]
  | .block inner => inner.nodes
  | .enumeration _ name members => [.identifier name] ++ Stmt.nodesMembers members
  | .errorDeclaration _ name parameters => [.identifier name] ++ Identifier.nodesEach parameters
  | .declarative _ _ value => value.nodes
  | .go _ expression => expression.nodes
  | .expression _ expression => expression.nodes
termination_by structural tree => tree

/-- The expressions in several statements. -/
def Stmt.nodesEach : List Stmt → List Expr
  | [] => []
  | statement :: rest => statement.nodes ++ Stmt.nodesEach rest
termination_by structural trees => trees

/-- The expressions in members. -/
def Stmt.nodesMembers : List (Identifier × Expr) → List Expr
  | [] => []
  | (name, value) :: rest => [.identifier name] ++ value.nodes ++ Stmt.nodesMembers rest
termination_by structural trees => trees

end

/-- The expressions in the statements that were read. -/
def Program.nodes (program : Program) : List Expr :=
  Stmt.nodesEach program.statements

/-- The parameters of a function; other expressions have none. -/
def Expr.parameters : Expr → List Identifier
  | .function _ _ _ parameters _ _ => parameters
  | _ => []

/-- No two parameters of the expression have one name. -/
def Expr.ParametersDistinct (e : Expr) : Prop :=
  (e.parameters.map Identifier.name).Nodup

instance : DecidablePred Expr.ParametersDistinct :=
  fun e => inferInstanceAs (Decidable (e.parameters.map Identifier.name).Nodup)

/-! ## Parts of trees -/

/-- What is read on the way to a tree has leaves and nodes. -/
class Leafy (α : Type) where
  /-- The tokens of its names and literals, in the order of the text. -/
  leaves : α → List Token
  /-- The expressions in it. -/
  nodes : α → List Expr

namespace Leafy

instance : Leafy Unit := ⟨fun _ => [], fun _ => []⟩

instance : Leafy Identifier := ⟨fun id => [id.token], fun id => [.identifier id]⟩

instance : Leafy Expr := ⟨Expr.leaves, Expr.nodes⟩

instance : Leafy Stmt := ⟨Stmt.leaves, Stmt.nodes⟩

instance : Leafy Block := ⟨Block.leaves, Block.nodes⟩

instance : Leafy CaseClause := ⟨CaseClause.leaves, CaseClause.nodes⟩

instance : Leafy MatchCase := ⟨MatchCase.leaves, MatchCase.nodes⟩

instance {α β : Type} [Leafy α] [Leafy β] : Leafy (α × β) :=
  ⟨fun pair => leaves pair.1 ++ leaves pair.2, fun pair => nodes pair.1 ++ nodes pair.2⟩

instance : Leafy (Option Identifier) := ⟨Identifier.leaves?, Identifier.nodes?⟩

instance : Leafy (Option Expr) := ⟨Expr.leaves?, Expr.nodes?⟩

instance : Leafy (Option Block) := ⟨Block.leaves?, Block.nodes?⟩

instance : Leafy (List Identifier) := ⟨List.map Identifier.token, Identifier.nodesEach⟩

instance : Leafy (List Expr) := ⟨Expr.leavesEach, Expr.nodesEach⟩

instance : Leafy (List Stmt) := ⟨Stmt.leavesEach, Stmt.nodesEach⟩

instance : Leafy (List (Expr × Expr)) := ⟨Expr.leavesPairs, Expr.nodesPairs⟩

instance : Leafy (List CaseClause) := ⟨CaseClause.leavesEach, CaseClause.nodesEach⟩

instance : Leafy (List MatchCase) := ⟨MatchCase.leavesEach, MatchCase.nodesEach⟩

instance : Leafy (List (Identifier × Expr)) := ⟨Stmt.leavesMembers, Stmt.nodesMembers⟩

instance : Leafy (List Parameter) := ⟨List.flatMap leaves, List.flatMap nodes⟩

/-- The values of a clause; the default clause has none. -/
instance : Leafy (Option (List Expr)) :=
  ⟨fun values => leaves (values.getD []), fun values => nodes (values.getD [])⟩

end Leafy

/-! ## The defaults of parameters -/

namespace Defaults

variable {name other : String} {value : Expr} {defaults : Defaults} {parameters : List Parameter}

/-- A default is the first of its name. -/
theorem find?_cons (entry : String × Expr) :
    find? (entry :: defaults) name =
      if name = entry.1 then some entry.2 else find? defaults name := by
  unfold find?
  rw [List.lookup_cons]
  by_cases h : name = entry.1
  · simp [h]
  · simp [h, beq_eq_false_iff_ne.2 h]

/-- A value that is put in is found, and all other names keep theirs. -/
theorem find?_insert :
    find? (insert name value defaults) other = if other = name then some value
      else find? defaults other := by
  fun_induction insert name value defaults with
  | case1 => rw [find?_cons]
  | case2 current rest =>
    rw [find?_cons, find?_cons]
    split_ifs <;> rfl
  | case3 => rw [find?_cons]
  | case4 next current rest hname _ ih =>
    rw [find?_cons, find?_cons, ih]
    by_cases hnext : other = next
    · subst hnext
      rw [if_pos rfl, if_neg (Ne.symm hname), if_pos rfl]
    · rw [if_neg hnext, if_neg hnext]

/-- The defaults with what one more parameter declares. -/
def declare (defaults : Defaults) (parameter : Parameter) : Defaults :=
  match parameter.2 with
  | some value => insert parameter.1.name value defaults
  | none => defaults

/-- The default that was declared last under the name. -/
def lastDeclared? (parameters : List Parameter) (name : String) : Option Expr :=
  ((parameters.filter fun parameter => parameter.1.name = name).filterMap Prod.snd).getLast?

/-- A parameter that has a default replaces what its name had before. -/
theorem find?_foldl_declare (parameters : List Parameter) (defaults : Defaults) (name : String) :
    find? (parameters.foldl declare defaults) name =
      (lastDeclared? parameters name).or (find? defaults name) := by
  induction parameters generalizing defaults with
  | nil => rfl
  | cons first rest ih =>
    obtain ⟨id, default⟩ := first
    rw [List.foldl_cons, ih, lastDeclared?, lastDeclared?, List.filter_cons]
    cases default with
    | none =>
      rw [declare]
      split_ifs <;> rfl
    | some value =>
      rw [declare, find?_insert]
      by_cases hname : name = id.name
      · rw [if_pos hname, if_pos (decide_eq_true hname.symm), List.filterMap_cons,
          List.getLast?_cons]
        cases (List.filterMap _ _).getLast? <;> rfl
      · rw [if_neg hname, if_neg (by simpa using Ne.symm hname)]

/-- A name has the default that was declared last under it. -/
theorem find?_ofParameters_eq (parameters : List Parameter) (name : String) :
    find? (ofParameters parameters) name = lastDeclared? parameters name := by
  rw [← Option.or_none (o := lastDeclared? parameters name)]
  exact find?_foldl_declare parameters [] name

/-- A parameter whose name no other one has declares the default of the name. -/
theorem lastDeclared?_of_unique {parameter : Parameter} (hmem : parameter ∈ parameters)
    (hunique : ∀ other ∈ parameters, other.1.name = parameter.1.name → other = parameter) :
    lastDeclared? parameters parameter.1.name = parameter.2 := by
  let named := parameters.filter fun other => other.1.name = parameter.1.name
  have hnamed : named = List.replicate named.length parameter := by
    refine List.eq_replicate_of_mem fun other hother => ?_
    obtain ⟨hother, hname⟩ := List.mem_filter.1 hother
    exact hunique other hother (of_decide_eq_true hname)
  have hlength : named.length ≠ 0 := by
    have hself : parameter ∈ named := List.mem_filter.2 ⟨hmem, decide_eq_true rfl⟩
    exact Nat.ne_of_gt (List.length_pos_of_mem hself)
  change (named.filterMap Prod.snd).getLast? = parameter.2
  rw [hnamed]
  cases hdefault : parameter.2 with
  | none => rw [List.filterMap_replicate_of_none hdefault, List.getLast?_nil]
  | some value =>
    rw [List.filterMap_replicate_of_some hdefault, List.getLast?_replicate, if_neg hlength]

/-- Where the names are distinct, the default of a parameter is the one it was declared with. -/
theorem find?_ofParameters (hnodup : (parameters.map fun parameter => parameter.1.name).Nodup)
    {parameter : Parameter} (hmem : parameter ∈ parameters) :
    find? (ofParameters parameters) parameter.1.name = parameter.2 := by
  rw [find?_ofParameters_eq]
  exact lastDeclared?_of_unique hmem fun other hother hname =>
    List.inj_on_of_nodup_map hnodup hother hmem hname

/-- The leaves of a default are those of the expression that is found under its name. -/
theorem leavesDefault_eq : Expr.leavesDefault name defaults =
    Expr.leaves? (find? defaults name) := by
  induction defaults with
  | nil => rfl
  | cons entry rest ih =>
    rw [find?_cons]
    simp only [Expr.leavesDefault]
    split_ifs with h
    · rfl
    · exact ih

/-- The expressions in the default of a name are among those in the defaults. -/
theorem nodes?_find?_subset (name : String) :
    Expr.nodes? (find? defaults name) ⊆ Expr.nodesDefaults defaults := by
  induction defaults with
  | nil => exact List.nil_subset _
  | cons entry rest ih =>
    rw [find?_cons]
    simp only [Expr.nodesDefaults]
    split_ifs with h
    · exact List.subset_append_left _ _
    · exact List.Subset.trans ih (List.subset_append_right _ _)

end Defaults

open Leafy in
/-- Where the names are distinct, the leaves of a function's parameters and defaults are those of
the parameters as they were declared. -/
theorem leaves_ofParameters {parameters : List Parameter}
    (hnodup : (parameters.map fun parameter => parameter.1.name).Nodup) :
    (parameters.map Prod.fst).flatMap (fun id =>
      [id.token] ++ Expr.leavesDefault id.name (Defaults.ofParameters parameters)) =
        leaves parameters := by
  rw [List.flatMap_map]
  refine List.flatMap_congr fun parameter hmem => ?_
  rw [Defaults.leavesDefault_eq, Defaults.find?_ofParameters hnodup hmem]
  rfl

open Leafy in
/-- Where the names are distinct, no expression in a declared default is lost. -/
theorem nodes_subset_ofParameters {parameters : List Parameter}
    (hnodup : (parameters.map fun parameter => parameter.1.name).Nodup) :
    nodes parameters ⊆ Identifier.nodesEach (parameters.map Prod.fst) ++
      Expr.nodesDefaults (Defaults.ofParameters parameters) := by
  intro node hnode
  obtain ⟨parameter, hmem, hnode⟩ := List.mem_flatMap.1 hnode
  rcases List.mem_append.1 hnode with hname | hdefault
  · refine List.mem_append_left _ (List.mem_map.2 ⟨parameter.1, List.mem_map_of_mem hmem, ?_⟩)
    exact (List.mem_singleton.1 hname).symm
  · refine List.mem_append_right _ (Defaults.nodes?_find?_subset parameter.1.name ?_)
    rw [Defaults.find?_ofParameters hnodup hmem]
    exact hdefault

end ScriptFront
