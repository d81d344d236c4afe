import ScriptFront.Proofs.Printing.Groups
import ScriptFront.Proofs.Printing.Parameters

/-!
# Reading loops, branches and functions

A block ends with its own brace, so it is told from anything that stands behind it. The words of
loops, branches and functions are read up to the block that each of them ends with.

* `Block.Reads`, `CaseClause.Reads`, `MatchCase.Reads` — the text of a block, a clause or a case is
  told from what stands behind it, and shows all of it.
* `Expr.headReads_conditional` and its like — loops, branches and functions are read, if what stands
  in them is.
-/

namespace ScriptFront

open Lexeme

/-- The text of the block is told from what stands behind it, and shows all of the block. -/
def Block.Reads (b : Block) : Prop :=
  ∀ ⦃b' : Block⦄ ⦃rest rest' : List Char⦄, b'.Obeys spelledLaw → b.text ++ rest = b'.text ++ rest' →
    b.shown = b'.shown ∧ rest = rest'

/-- The same of a clause. -/
def CaseClause.Reads (c : CaseClause) : Prop :=
  ∀ ⦃c' : CaseClause⦄ ⦃rest rest' : List Char⦄, c'.Obeys spelledLaw →
    c.text ++ rest = c'.text ++ rest' → c.shown = c'.shown ∧ rest = rest'

/-- The same of a case. -/
def MatchCase.Reads (c : MatchCase) : Prop :=
  ∀ ⦃c' : MatchCase⦄ ⦃rest rest' : List Char⦄, c'.Obeys spelledLaw →
    c.text ++ rest = c'.text ++ rest' → c.shown = c'.shown ∧ rest = rest'

/-- A block begins with its brace and a space. -/
theorem Block.exists_text (b : Block) : ∃ more, b.text = '\x7b' :: ' ' :: more := by
  obtain ⟨token, body⟩ := b
  cases body with
  | nil => exact ⟨['\x7d'], Block.text_nil token⟩
  | cons s body => exact ⟨_, Block.text_cons token s body⟩

section Parts

variable {e e' : Expr} {b b' : Block} {rest rest' : List Char}

/-- A block ends the expression in front of it. -/
theorem Block.follow (b : Block) {place : Place} : Follow place (' ' :: (b.text ++ rest)) := by
  obtain ⟨more, htext⟩ := b.exists_text
  rw [htext]
  exact follow_space_cons (by decide)

/-- A block behind a list closes it. -/
theorem Block.closes (b : Block) (mark : Mark) : Closes mark (' ' :: (b.text ++ rest)) := by
  obtain ⟨more, htext⟩ := b.exists_text
  rw [htext]
  exact closes_space (by simp)

/-- An expression with a block behind it. -/
theorem append_cancel_body (h : e.Readable) (h' : e'.Lawful) (hb : b.Reads)
    (hb' : b'.Obeys spelledLaw)
    (heq : e.text ++ ' ' :: (b.text ++ rest) = e'.text ++ ' ' :: (b'.text ++ rest')) :
    e.shown = e'.shown ∧ b.shown = b'.shown ∧ rest = rest' := by
  obtain ⟨hshown, heq⟩ := h.reads.whole h' b.follow b'.follow heq
  exact ⟨hshown, hb hb' (List.cons.inj heq).2⟩

/-- An expression in parentheses. -/
theorem append_cancel_parens (h : e.Readable) (h' : e'.Lawful)
    (heq : e.text ++ ')' :: ' ' :: rest = e'.text ++ ')' :: ' ' :: rest') :
    e.shown = e'.shown ∧ rest = rest' := by
  obtain ⟨hshown, heq⟩ := h.reads.whole h' (follow_cons (by decide)) (follow_cons (by decide)) heq
  exact ⟨hshown, by simpa using heq⟩

end Parts

namespace Expr

variable {e : Expr} {id : Identifier} {token : Token} {b : Block}

/-! ## Branches and loops -/

/-- A conditional is read, if its condition and its blocks are. -/
theorem headReads_conditional {alternative : Option Block}
    (h : (conditional token e b alternative).Lawful) (he : e.Readable) (hb : b.Reads)
    (halternative : ∀ other ∈ alternative, other.Reads) :
    (conditional token e b alternative).HeadReads := by
  intro place e' rest rest' hfits h' hhead' hfits' hrest hrest' heq
  have hfamily := family_eq h rfl h' hhead' hrest hrest' heq
  -- the word `else` is not where an expression ends
  have hne : ∀ {rest tail : List Char}, Ends place rest → rest ≠ " else ".toList ++ tail := by
    rintro rest tail hrest rfl
    rcases hrest.space ("else ".toList ++ tail) rfl with hword | hin | hif
    · exact absurd (hword 'e' rfl) (by decide)
    · simp at hin
    · simp at hif
  cases e' <;> cases hfamily
  case conditional token' e' b' alternative' =>
    obtain ⟨site', -, he', hb', halternative'⟩ := h'
    cases alternative with
    | none =>
      cases alternative' with
      | none =>
        simp only [text_conditional, List.append_assoc, List.cons_append,
          List.append_cancel_left_eq] at heq
        obtain ⟨hcondition, heq⟩ := append_cancel_parens he he'.lawful heq
        obtain ⟨hblock, heq⟩ := hb hb' heq
        exact ⟨congrArg₂ (conditional default · · none) hcondition hblock, heq⟩
      | some other' =>
        simp only [text_conditional, text_conditional_else, List.append_assoc, List.cons_append,
          List.append_cancel_left_eq] at heq
        obtain ⟨-, heq⟩ := append_cancel_parens he he'.lawful heq
        exact absurd (hb hb' heq).2 (hne hrest)
    | some other =>
      cases alternative' with
      | none =>
        simp only [text_conditional, text_conditional_else, List.append_assoc, List.cons_append,
          List.append_cancel_left_eq] at heq
        obtain ⟨-, heq⟩ := append_cancel_parens he he'.lawful heq
        exact absurd (hb hb' heq).2.symm (hne hrest')
      | some other' =>
        simp only [text_conditional_else, List.append_assoc, List.cons_append,
          List.append_cancel_left_eq] at heq
        obtain ⟨hcondition, heq⟩ := append_cancel_parens he he'.lawful heq
        obtain ⟨hblock, heq⟩ := hb hb' heq
        rw [List.append_cancel_left_eq] at heq
        obtain ⟨hother, heq⟩ := halternative other rfl halternative' heq
        refine ⟨?_, heq⟩
        change conditional default e.shown b.shown (some other.shown) =
          conditional default e'.shown b'.shown (some other'.shown)
        rw [hcondition, hblock, hother]

/-- A `while` loop is read, if its condition and its block are. -/
theorem headReads_whileLoop (h : (whileLoop token e b).Lawful) (he : e.Readable) (hb : b.Reads) :
    (whileLoop token e b).HeadReads := by
  intro place e' rest rest' hfits h' hhead' hfits' hrest hrest' heq
  have hfamily := family_eq h rfl h' hhead' hrest hrest' heq
  cases e' <;> cases hfamily
  case whileLoop token' e' b' =>
    obtain ⟨site', -, he', hb'⟩ := h'
    simp only [text_whileLoop, List.append_assoc, List.cons_append,
      List.append_cancel_left_eq] at heq
    obtain ⟨hcondition, heq⟩ := append_cancel_parens he he'.lawful heq
    obtain ⟨hblock, heq⟩ := hb hb' heq
    exact ⟨congrArg₂ (whileLoop default) hcondition hblock, heq⟩

/-- A `for` loop is read, if what it runs over and its block are. -/
theorem headReads_forLoop {key : Option Identifier} (h : (forLoop token key id e b).Lawful)
    (he : e.Readable) (hb : b.Reads) : (forLoop token key id e b).HeadReads := by
  intro place e' rest rest' hfits h' hhead' hfits' hrest hrest' heq
  have hfamily := family_eq h rfl h' hhead' hrest hrest' heq
  cases e' <;> cases hfamily
  case forLoop token' key' id' e' b' =>
    obtain ⟨site, -, hkey, hid, -⟩ := h
    obtain ⟨site', -, hkey', hid', he', hb'⟩ := h'
    have hnamed : ∀ {key : Option Identifier} {id : Identifier}, (∀ k ∈ key, spelledLaw.name k) →
        spelledLaw.name id → ∀ k ∈ key.toList ++ [id], k.Named := by
      intro key id hkey hid k hk
      apply Identifier.named_of_law
      rcases List.mem_append.1 hk with hk | hk
      · exact hkey k (Option.mem_toList.1 hk)
      · exact List.mem_singleton.1 hk ▸ hid
    have hin : ∀ tail, Ends .whole (" in ".toList ++ tail) :=
      fun tail => (follow_space (.inr (.inl ⟨tail, rfl⟩))).toEnds
    simp only [text_forLoop, List.append_assoc, List.append_cancel_left_eq] at heq
    obtain ⟨hnames, heq⟩ := append_cancel_names (hnamed hkey hid) (hnamed hkey' hid') (hin _)
      (hin _)
      heq
    rw [List.append_cancel_left_eq, List.cons_append, List.cons_append] at heq
    obtain ⟨hiterable, hblock, heq⟩ := append_cancel_body he he'.lawful hb hb' heq
    have hids : key.map Identifier.erase = key'.map Identifier.erase ∧ id.erase = id'.erase := by
      rw [← Identifier.map_erase_inj] at hnames
      cases key <;> cases key' <;> simp at hnames <;> simp [hnames]
    refine ⟨?_, heq⟩
    change forLoop default (key.map Identifier.erase) id.erase e.shown b.shown =
      forLoop default (key'.map Identifier.erase) id'.erase e'.shown b'.shown
    rw [hids.1, hids.2, hiterable, hblock]

/-- A `repeat` loop is read, if its count and its block are. -/
theorem headReads_repeatLoop {counter : String} (h : (repeatLoop token counter e b).Lawful)
    (he : e.Readable) (hb : b.Reads) : (repeatLoop token counter e b).HeadReads := by
  intro place e' rest rest' hfits h' hhead' hfits' hrest hrest' heq
  have hfamily := family_eq h rfl h' hhead' hrest hrest' heq
  cases e' <;> cases hfamily
  case repeatLoop token' counter' e' b' =>
    obtain ⟨site, hcounter, -⟩ := h
    obtain ⟨site', hcounter', he', hb'⟩ := h'
    have hword : ∀ {counter : String}, (counter = "i" ∨ ∃ token : Token, token.Spelled ∧
        token.kind = .identifier ∧ token.value = counter) →
          ∀ c ∈ counter.toList, isWordPart c = true := by
      rintro counter (rfl | ⟨token, hspelled, hkind, rfl⟩)
      · exact List.all_eq_true.1 (by decide)
      · have hnamed : (Identifier.ofToken token).Named := hspelled.named hkind
        exact hnamed.exists_text.choose_spec.choose_spec.2.2
    simp only [text_repeatLoop, List.append_assoc, List.cons_append,
      List.append_cancel_left_eq] at heq
    obtain ⟨hname, heq⟩ := append_cancel_runs (hword hcounter) (hword hcounter') (by simp; decide)
      (by simp; decide) heq
    simp only [List.cons.injEq, true_and] at heq
    obtain ⟨hcount, hblock, heq⟩ := append_cancel_body he he'.lawful hb hb' heq
    refine ⟨?_, heq⟩
    change repeatLoop default counter e.shown b.shown =
      repeatLoop default counter' e'.shown b'.shown
    rw [String.toList_inj.1 hname, hcount, hblock]

/-! ## Clauses and cases -/

/-- What is shown of a switch is put together of its subject and its clauses. -/
theorem shown_switch (clauses : List CaseClause) :
    (switch token e clauses).shown = .switch default e.shown (clauses.map CaseClause.shown) := by
  have hclauses : CaseClause.regroupEach (CaseClause.mapTokensEach (fun _ => default) clauses) =
      clauses.map CaseClause.shown := by
    induction clauses with
    | nil => rfl
    | cons clause clauses ih =>
      rw [List.map_cons, ← ih]
      rfl
  exact congrArg (Expr.switch default e.shown) hclauses

/-- What is shown of a match is put together of its subject and its cases. -/
theorem shown_matching (cases : List MatchCase) :
    (matching token e cases).shown = .matching default e.shown (cases.map MatchCase.shown) := by
  have hcases : MatchCase.regroupEach (MatchCase.mapTokensEach (fun _ => default) cases) =
      cases.map MatchCase.shown := by
    induction cases with
    | nil => rfl
    | cons each cases ih =>
      rw [List.map_cons, ← ih]
      rfl
  exact congrArg (Expr.matching default e.shown) hcases

end Expr

/-- Clauses obey a law if each of them does. -/
theorem CaseClause.obeysEach_iff {law : Law} {clauses : List CaseClause} :
    CaseClause.ObeysEach law clauses ↔ ∀ c ∈ clauses, c.Obeys law := by
  induction clauses with
  | nil => simp [CaseClause.ObeysEach]
  | cons c clauses ih => simp [CaseClause.ObeysEach, ih]

/-- Cases obey a law if each of them does. -/
theorem MatchCase.obeysEach_iff {law : Law} {cases : List MatchCase} :
    MatchCase.ObeysEach law cases ↔ ∀ c ∈ cases, c.Obeys law := by
  induction cases with
  | nil => simp [MatchCase.ObeysEach]
  | cons c cases ih => simp [MatchCase.ObeysEach, ih]

section Clauses

variable {token : Token} {e : Expr} {values : List Expr} {guard : Option Expr} {b : Block}
  {isDefault : Bool}

/-- A clause is read, if its values and its block are. -/
theorem CaseClause.reads (h : (CaseClause.mk token isDefault values b).Obeys spelledLaw)
    (hvalues : ∀ v ∈ values, v.Readable) (hb : b.Reads) :
    (CaseClause.mk token isDefault values b).Reads := by
  intro c' rest rest' h' heq
  obtain ⟨token', isDefault', values', b'⟩ := c'
  obtain ⟨hdefault, -⟩ := h
  obtain ⟨hdefault', hvalues', hb'⟩ := h'
  cases isDefault with
  | true =>
    cases isDefault' with
    | true =>
      -- a clause without a value is the default one, and shows no values
      obtain rfl : values = [] := hdefault.1 rfl
      obtain rfl : values' = [] := hdefault'.1 rfl
      simp only [text_default, List.append_assoc, List.append_cancel_left_eq] at heq
      obtain ⟨hblock, heq⟩ := hb hb' heq
      exact ⟨congrArg (CaseClause.mk default true []) hblock, heq⟩
    | false => simp at heq
  | false =>
    cases isDefault' with
    | true => simp at heq
    | false =>
      simp only [text_case, List.append_assoc, List.append_cancel_left_eq, List.cons_append] at heq
      obtain ⟨hshown, heq⟩ := append_cancel_items hvalues (Expr.lawful_of_mem hvalues') b.closes
        b'.closes heq
      obtain ⟨hblock, heq⟩ := hb hb' (List.cons.inj heq).2
      exact ⟨congrArg₂ (CaseClause.mk default false) hshown hblock, heq⟩

/-- A case is read, if its pattern, its condition and its block are. -/
theorem MatchCase.reads (he : e.Readable) (hguard : ∀ g ∈ guard, g.Readable) (hb : b.Reads) :
    (MatchCase.mk token e guard b).Reads := by
  intro c' rest rest' h' heq
  obtain ⟨token', e', guard', b'⟩ := c'
  obtain ⟨he', hguard', hb'⟩ := h'
  have harrow : ∀ tail, Follow .whole (" => ".toList ++ tail) :=
    fun tail => follow_space_cons (by decide)
  have hif : ∀ tail, Follow .whole (" if ".toList ++ tail) :=
    fun tail => follow_space (.inr (.inr ⟨tail, rfl⟩))
  have hbehind : ∀ (guard : Option Expr) (tail : List Char), Follow .whole
      ((guard.toList.flatMap fun g => " if ".toList ++ g.text) ++ (" => ".toList ++ tail)) := by
    intro guard tail
    cases guard with
    | none => exact harrow tail
    | some g =>
      rw [Option.toList_some, List.flatMap_singleton, List.append_assoc]
      exact hif _
  simp only [text_mk, List.append_assoc] at heq
  obtain ⟨hpattern, heq⟩ := he.reads.whole he'.lawful (hbehind guard _) (hbehind guard' _) heq
  cases guard with
  | none =>
    cases guard' with
    | none =>
      simp only [Option.toList_none, List.flatMap_nil, List.nil_append,
        List.append_cancel_left_eq] at heq
      obtain ⟨hblock, heq⟩ := hb hb' heq
      exact ⟨congrArg₂ (MatchCase.mk default · none ·) hpattern hblock, heq⟩
    | some g' => simp at heq
  | some g =>
    cases guard' with
    | none => simp at heq
    | some g' =>
      simp only [Option.toList_some, List.flatMap_singleton, List.append_assoc,
        List.append_cancel_left_eq] at heq
      obtain ⟨hcondition, heq⟩ := (hguard g rfl).reads.whole (Expr.Obeys.lawful hguard') (harrow _)
        (harrow _) heq
      rw [List.append_cancel_left_eq] at heq
      obtain ⟨hblock, heq⟩ := hb hb' heq
      refine ⟨?_, heq⟩
      change MatchCase.mk default e.shown (some g.shown) b.shown =
        MatchCase.mk default e'.shown (some g'.shown) b'.shown
      rw [hpattern, hcondition, hblock]

end Clauses

namespace Expr

variable {e : Expr} {id : Identifier} {token : Token} {b : Block}

/-- A switch is read, if its subject and its clauses are. -/
theorem headReads_switch {clauses : List CaseClause} (h : (switch token e clauses).Lawful)
    (he : e.Readable) (hclauses : ∀ c ∈ clauses, c.Reads) : (switch token e clauses).HeadReads := by
  intro place e' rest rest' hfits h' hhead' hfits' hrest hrest' heq
  have hfamily := family_eq h rfl h' hhead' hrest hrest' heq
  cases e' <;> cases hfamily
  case switch token' e' clauses' =>
    obtain ⟨site', -, he', hclauses'⟩ := h'
    rw [CaseClause.obeysEach_iff] at hclauses'
    have hend : ∀ (c : CaseClause) (rest tail : List Char),
        '\x7d' :: rest ≠ c.text ++ [' '] ++ tail := by
      rintro ⟨token, isDefault, values, b⟩ rest tail
      cases isDefault <;> simp
    have hpiece : ∀ c ∈ clauses, ∀ c' ∈ clauses', ∀ tail tail' : List Char, True → True →
        c.text ++ [' '] ++ tail = c'.text ++ [' '] ++ tail' → c.shown = c'.shown ∧ tail =
          tail' := by
      intro c hc c' hc' tail tail' _ _ hsame
      rw [List.append_assoc, List.append_assoc] at hsame
      obtain ⟨hshown, hsame⟩ := hclauses c hc (hclauses' c' hc') hsame
      exact ⟨hshown, (List.cons.inj hsame).2⟩
    simp only [text_switch, List.append_assoc, List.cons_append, List.nil_append,
      List.append_cancel_left_eq] at heq
    obtain ⟨hsubject, heq⟩ := append_cancel_parens he he'.lawful heq
    simp only [List.cons.injEq, true_and] at heq
    obtain ⟨hshown, heq⟩ := append_cancel_flatMap (fun _ => True) hpiece (fun _ _ _ _ => trivial)
      (fun _ _ _ _ => trivial) (fun c _ => hend c rest)
        (fun c _ => hend c rest') trivial trivial heq
    rw [shown_switch, shown_switch, hsubject, hshown]
    exact ⟨rfl, (List.cons.inj heq).2⟩

/-- A match is read, if its subject and its cases are. -/
theorem headReads_matching {cases : List MatchCase} (h : (matching token e cases).Lawful)
    (he : e.Readable) (hcases : ∀ c ∈ cases, c.Reads) : (matching token e cases).HeadReads := by
  intro place e' rest rest' hfits h' hhead' hfits' hrest hrest' heq
  have hfamily := family_eq h rfl h' hhead' hrest hrest' heq
  cases e' <;> cases hfamily
  case matching token' e' cases' =>
    obtain ⟨site', -, he', hcases'⟩ := h'
    obtain ⟨site, -, -, hown⟩ := h
    rw [MatchCase.obeysEach_iff] at hcases' hown
    have hopen : ∀ {c : MatchCase}, c.Obeys spelledLaw → ∀ rest tail : List Char,
        ' ' :: '\x7d' :: rest ≠ c.text ++ tail := by
      rintro ⟨token, pattern, guard, b⟩ ⟨hpattern, -⟩ rest tail hsame
      obtain ⟨c, more, htext, hc⟩ := hpattern.lawful.exists_opening
      simp only [MatchCase.text_mk, htext, List.cons_append, List.cons.injEq] at hsame
      rw [← hsame.1] at hc
      exact absurd hc (by decide)
    simp only [text_matching, List.append_assoc, List.cons_append, List.nil_append,
      List.append_cancel_left_eq] at heq
    obtain ⟨hsubject, heq⟩ := he.reads.whole he'.lawful (follow_space_cons (by decide))
      (follow_space_cons (by decide)) heq
    simp only [List.cons.injEq, true_and] at heq
    obtain ⟨hshown, heq⟩ := append_cancel_joined (fun _ => True)
      (fun c hc c' hc' tail tail' _ _ => hcases c hc (hcases' c' hc')) (fun _ => trivial) (by simp)
      (by simp) (fun c hc => hopen (hcases' c hc) rest)
        (fun c hc => hopen (hown c hc) rest') trivial
      trivial heq
    rw [shown_matching, shown_matching, hsubject, hshown]
    exact ⟨rfl, by simpa using heq⟩

/-! ## Functions and packages -/

/-- A package is read, if its block is. -/
theorem headReads_package (h : (package token id b).Lawful) (hb : b.Reads) :
    (package token id b).HeadReads := by
  intro place e' rest rest' hfits h' hhead' hfits' hrest hrest' heq
  have hfamily := family_eq h rfl h' hhead' hrest hrest' heq
  cases e' <;> cases hfamily
  case package token' id' b' =>
    obtain ⟨site, -, hid, -⟩ := h
    obtain ⟨site', -, hid', hb'⟩ := h'
    simp only [text_package, List.append_assoc, List.cons_append, List.append_cancel_left_eq] at heq
    obtain ⟨hname, heq⟩ := Identifier.append_cancel (Identifier.named_of_law hid)
      (Identifier.named_of_law hid') (by simp; decide) (by simp; decide) heq
    obtain ⟨hblock, heq⟩ := hb hb' (List.cons.inj heq).2
    exact ⟨congrArg₂ (package default) (Identifier.erase_inj.2 hname) hblock, heq⟩

/-- What is shown of a function is put together of its name, its parameters with their defaults and
its block. -/
theorem shown_function (async : Bool) (name : Option Identifier) (parameters : List Identifier)
    (defaults : Defaults) :
    (function async token name parameters defaults b).shown =
      .function async default (name.map Identifier.erase) (parameters.map Identifier.erase)
        defaults.shown b.shown := by
  have hdefaults : Expr.regroupDefaults (Expr.mapTokensDefaults (fun _ => default) defaults) =
      defaults.shown := by
    induction defaults with
    | nil => rfl
    | cons entry defaults ih =>
      rw [Defaults.shown, List.map_cons, ← Defaults.shown, ← ih]
      rfl
  rw [← hdefaults]
  rfl

/-- Each of some defaults that obey the law is lawful. -/
theorem lawful_defaults {defaults : Defaults} (h : Expr.ObeysDefaults spelledLaw defaults) :
    ∀ entry ∈ defaults, entry.2.Lawful := by
  induction defaults with
  | nil => simp
  | cons entry defaults ih =>
    rw [List.forall_mem_cons]
    exact ⟨h.1.lawful, ih h.2⟩

/-- The name of a function, or none, is told from its parameters. -/
theorem append_cancel_function_name {name name' : Option Identifier} {rest rest' : List Char}
    (h : ∀ id ∈ name, spelledLaw.name id) (h' : ∀ id ∈ name', spelledLaw.name id)
    (heq : (name.toList.flatMap fun id => ' ' :: id.text) ++ '(' :: rest =
      (name'.toList.flatMap fun id => ' ' :: id.text) ++ '(' :: rest') :
    name.map Identifier.erase = name'.map Identifier.erase ∧ rest = rest' := by
  cases name with
  | none =>
    cases name' with
    | none => exact ⟨rfl, by simpa using heq⟩
    | some id' => simp at heq
  | some id =>
    cases name' with
    | none => simp at heq
    | some id' =>
      simp only [Option.toList_some, List.flatMap_singleton, List.cons_append, List.cons.injEq,
        true_and] at heq
      obtain ⟨hname, heq⟩ := Identifier.append_cancel (Identifier.named_of_law (h id rfl))
        (Identifier.named_of_law (h' id' rfl)) (by simp; decide) (by simp; decide) heq
      exact ⟨congrArg some (Identifier.erase_inj.2 hname), (List.cons.inj heq).2⟩

/-- A function is read, if its defaults and its block are. -/
theorem headReads_function {async : Bool} {name : Option Identifier} {parameters : List Identifier}
    {defaults : Defaults} (h : (function async token name parameters defaults b).Lawful)
    (hdefaults : ∀ entry ∈ defaults, entry.2.Readable) (hb : b.Reads) :
    (function async token name parameters defaults b).HeadReads := by
  intro place e' rest rest' hfits h' hhead' hfits' hrest hrest' heq
  have hfamily := family_eq h rfl h' hhead' hrest hrest' heq
  cases e' <;> cases hfamily
  case function async' token' name' parameters' defaults' b' =>
    obtain ⟨site, hfit, hname, hparameters, -⟩ := h
    obtain ⟨site', hfit', hname', hparameters', hdefaults', hb'⟩ := h'
    simp only [text_function, List.append_assoc, List.cons_append] at heq
    obtain rfl : async = async' := by cases async <;> cases async' <;> simp at heq ⊢
    rw [List.append_cancel_left_eq] at heq
    obtain ⟨hnamed, heq⟩ := append_cancel_function_name hname hname' heq
    obtain ⟨hids, hshown, heq⟩ := append_cancel_parameters hparameters hparameters' hdefaults
      (lawful_defaults hdefaults') hfit hfit' (closes_cons (by simp)) (closes_cons (by simp)) heq
    simp only [List.cons.injEq, true_and] at heq
    obtain ⟨hblock, heq⟩ := hb hb' heq
    rw [shown_function, shown_function, hnamed, Identifier.map_erase_inj.2 hids, hshown, hblock]
    exact ⟨rfl, heq⟩

end Expr

end ScriptFront
