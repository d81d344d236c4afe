import Mathlib.Data.List.TakeWhile
import ScriptFront.Proofs.Parser.StoppingTokens

/-!
# Parsing runs to the end of input

* `Parser.afterStatement` — where one round of a loop over statements leads, be it the loop over a
  program or the one over a block: behind the statement, or where skipping stopped.
* `position_lt_afterStatement` — every round takes a token at least.
* `slots_eq_program`, `program_of_ne`, `program_induction` — budgets and rounds aside, a program is
  read round by round until the end of input, and what holds there and is handed back by every round
  holds from the start.
* `current_iterate_ofTokens` — a parser for a list meets its tokens, and then ends of input on the
  line of the last one.
* `parsing_runs_to_end` — the parser of any list of tokens stops exactly on the first end of input.
-/

namespace ScriptFront

namespace Parser

/-! ## One round -/

/-- What a round of the loop over a program puts into its slot. -/
def slot (p : Parser) : Option Stmt :=
  (pursue p.budget .stmt p).1.toOption

/-- Where a round of a loop over statements leads. -/
def afterStatement (inBlock : Bool) (p : Parser) : Parser :=
  match pursue p.budget .stmt p with
  | (.found _, after) => after.advance
  | (.absent, after) => after.synchronize p.checkpoint inBlock
  | (.exhausted, after) => after

/-- A round of a loop over statements leads to a later state. -/
theorem afterStatement_later (inBlock : Bool) (p : Parser) :
    Later p (p.afterStatement inBlock) := by
  have hlater := pursue_later p.budget .stmt p
  unfold afterStatement
  split <;> rename_i heq <;> rw [heq] at hlater
  · exact hlater.advance
  · exact hlater.trans (synchronize_later _ _ _)
  · exact hlater

variable {p q : Parser}

/-- Every round takes a token at least. -/
theorem position_lt_afterStatement (hgrammar : p.grammar = .standard) (hkind : p.kind ≠ .eof)
    (inBlock : Bool) : p.position < (p.afterStatement inBlock).position := by
  have hlater := pursue_later p.budget .stmt p
  have hreply := pursue_ne_exhausted hgrammar .stmt (Nat.le_refl p.budget)
  unfold afterStatement
  split <;> rename_i heq <;> rw [heq] at hlater hreply
  · exact Nat.lt_succ_of_le hlater.position_le
  · exact position_lt_synchronize hlater hkind inBlock
  · exact absurd rfl hreply

/-- Once it has left a token other than the end of input, a parser has less in front of it. -/
theorem Later.remaining_lt (h : Later p q) (hkind : p.kind ≠ .eof)
    (hposition : p.position < q.position) : q.remaining < p.remaining := by
  induction h with
  | refl => exact absurd hposition (Nat.lt_irrefl _)
  | @advance q hq ih =>
    by_cases hmoved : p.position < q.position
    · exact Nat.lt_of_le_of_lt (remaining_advance_le q) (ih hmoved)
    · have hsame : q.position = p.position := Nat.le_antisymm (Nat.not_lt.1 hmoved) hq.position_le
      have hkind' : q.kind ≠ .eof := by rwa [kind, hq.window_eq hsame]
      exact Nat.lt_of_lt_of_le (advance_remaining_lt q hkind') hq.remaining_le
  | report _ _ ih => exact ih hposition

/-- A round leaves less in front of the parser. -/
theorem remaining_afterStatement_lt (hgrammar : p.grammar = .standard) (hkind : p.kind ≠ .eof)
    (inBlock : Bool) : (p.afterStatement inBlock).remaining < p.remaining :=
  (afterStatement_later inBlock p).remaining_lt hkind
    (position_lt_afterStatement hgrammar hkind inBlock)

/-! ## The loop over a program -/

/-- On the end of input, there are no more slots. -/
theorem slots_of_eof (h : p.kind = .eof) (budget rounds : Nat) :
    p.slots budget rounds = ([], p) := by
  cases rounds with
  | zero => rfl
  | succ rounds => rw [slots, if_pos h]

/-- Before the end of input, the first slot is that of one round, and the others come from where it
leads. -/
theorem slots_succ (hgrammar : p.grammar = .standard) (hkind : p.kind ≠ .eof) {budget : Nat}
    (hbudget : p.budget ≤ budget) (rounds : Nat) :
    p.slots budget (rounds + 1) =
      (p.slot :: ((p.afterStatement false).slots budget rounds).1,
        ((p.afterStatement false).slots budget rounds).2) := by
  have hreply := pursue_ne_exhausted hgrammar .stmt (Nat.le_refl p.budget)
  rw [slots, if_neg hkind, pursue_eq_of_budget_le hgrammar .stmt hbudget, slot, afterStatement]
  rcases heq : pursue p.budget .stmt p with ⟨statement | _ | _, after⟩ <;> rw [heq] at hreply
  · rfl
  · rfl
  · exact absurd rfl hreply

/-- With nothing in front of it, a parser stands on the end of input. -/
theorem kind_of_remaining_eq_zero (h : p.remaining = 0) : p.kind = .eof := by
  by_contra hkind
  have hweight : p.window.current.weight = 1 := Token.weight_of_ne hkind
  unfold remaining at h
  omega

/-- Neither the budget nor the number of rounds decides how a program is read. -/
theorem slots_eq_slots (hgrammar : p.grammar = .standard) {budget budget' rounds rounds' : Nat}
    (hbudget : p.budget ≤ budget) (hbudget' : p.budget ≤ budget') (hrounds : p.remaining ≤ rounds)
    (hrounds' : p.remaining ≤ rounds') : p.slots budget rounds = p.slots budget' rounds' := by
  induction rounds generalizing p rounds' with
  | zero =>
    have heof := kind_of_remaining_eq_zero (Nat.le_zero.1 hrounds)
    rw [slots_of_eof heof, slots_of_eof heof]
  | succ rounds ih =>
    by_cases heof : p.kind = .eof
    · rw [slots_of_eof heof, slots_of_eof heof]
    have hless := remaining_afterStatement_lt hgrammar heof false
    have hlater := afterStatement_later false p
    have hbudgets := budget_le_of_later hlater
    obtain ⟨rounds', rfl⟩ : ∃ r, rounds' = r + 1 := ⟨rounds' - 1, by omega⟩
    have hrest : (p.afterStatement false).slots budget rounds =
        (p.afterStatement false).slots budget' rounds' :=
      ih (hlater.grammar_eq.trans hgrammar) (Nat.le_trans hbudgets hbudget)
        (Nat.le_trans hbudgets hbudget') (by omega) (by omega)
    rw [slots_succ hgrammar heof hbudget, slots_succ hgrammar heof hbudget', hrest]

/-- With enough to spend, the slots are those of the program. -/
theorem slots_eq_program (hgrammar : p.grammar = .standard) {budget rounds : Nat}
    (hbudget : p.budget ≤ budget) (hrounds : p.remaining ≤ rounds) :
    p.slots budget rounds = (p.program.1.slots, p.program.2) :=
  slots_eq_slots hgrammar hbudget (Nat.le_refl _) hrounds (Nat.le_refl _)

/-- On the end of input, the program is empty. -/
theorem program_of_eof (h : p.kind = .eof) : p.program = (⟨[]⟩, p) := by
  rw [program, slots_of_eof h]

/-- Before the end of input, a program is one round and the program from there. -/
theorem program_of_ne (hgrammar : p.grammar = .standard) (hkind : p.kind ≠ .eof) :
    p.program = (⟨p.slot :: (p.afterStatement false).program.1.slots⟩,
      (p.afterStatement false).program.2) := by
  have hlater := afterStatement_later false p
  have hless := remaining_afterStatement_lt hgrammar hkind false
  have hslots := slots_eq_program hgrammar (Nat.le_refl _) (Nat.le_succ p.remaining)
  rw [slots_succ hgrammar hkind (Nat.le_refl _), slots_eq_program (hlater.grammar_eq.trans hgrammar)
    (budget_le_of_later hlater) (Nat.le_of_lt hless)] at hslots
  have hfst := congrArg Prod.fst hslots
  have hsnd := congrArg Prod.snd hslots
  exact Prod.ext (congrArg Program.mk hfst.symm) hsnd.symm

/-- What holds on the end of input, and before a round when it holds behind it, holds everywhere. -/
theorem program_induction {motive : Parser → Prop}
    (eof : ∀ p, p.grammar = .standard → p.kind = .eof → motive p)
    (round : ∀ p, p.grammar = .standard → p.kind ≠ .eof → motive (p.afterStatement false) →
      motive p) (p : Parser) (hgrammar : p.grammar = .standard) : motive p := by
  induction hremaining : p.remaining using Nat.strongRecOn generalizing p with
  | ind remaining ih =>
    by_cases hkind : p.kind = .eof
    · exact eof p hgrammar hkind
    · have hless := remaining_afterStatement_lt hgrammar hkind false
      exact round p hgrammar hkind (ih _ (hremaining ▸ hless) _
        ((afterStatement_later false p).grammar_eq.trans hgrammar) rfl)

/-- The program ends in a later state, on the end of input. -/
theorem program_later (hgrammar : p.grammar = .standard) :
    Later p p.program.2 ∧ p.program.2.kind = .eof := by
  refine program_induction (motive := fun p => Later p p.program.2 ∧ p.program.2.kind = .eof)
    (fun p _ heof => ?_) (fun p hgrammar hkind ih => ?_) p hgrammar
  · rw [program_of_eof heof]
    exact ⟨.refl, heof⟩
  · rw [program_of_ne hgrammar hkind]
    exact ⟨(afterStatement_later false p).trans ih.1, ih.2⟩

/-! ## The loop over a block -/

/-- The plan for what is left of a block, by the kind of the token at hand. -/
def statementsAt (kind : Kind) : Rule (List Stmt) :=
  if kind = .closeCurly then .done []
  else if kind = .eof then .fail .unclosedBlock
  else
    .salvage .stmt (fun first => .shift (.need .statements fun rest => .done (first :: rest)))
      .statements

/-- What is left of a block is read by the plan for the token at hand. -/
theorem pursue_statements (hgrammar : p.grammar = .standard) (budget : Nat) :
    pursue (budget + 1) .statements p = (statementsAt p.kind).follow (pursue budget) p := by
  rw [pursue, hgrammar]
  rfl

/-- Before the end of input and the closing brace, what is left of a block is read by one round and
from where it leads. -/
theorem pursue_statements_of_ne (hgrammar : p.grammar = .standard) (hkind : p.kind ≠ .eof)
    (hclose : p.kind ≠ .closeCurly) {budget : Nat} (hbudget : p.budget ≤ budget) :
    (pursue (budget + 1) .statements p).2 =
      (pursue budget .statements (p.afterStatement true)).2 := by
  have hreply := pursue_ne_exhausted hgrammar .stmt (Nat.le_refl p.budget)
  rw [pursue_statements hgrammar, statementsAt, if_neg hclose, if_neg hkind, Rule.follow,
    pursue_eq_of_budget_le hgrammar .stmt hbudget, afterStatement]
  rcases heq : pursue p.budget .stmt p with ⟨statement | _ | _, after⟩ <;> rw [heq] at hreply
  · simp only [Rule.follow]
    rcases pursue budget .statements after.advance with ⟨rest | _ | _, last⟩ <;> rfl
  · exact absurd rfl hreply

/-! ## The tokens ahead -/

/-- A later parser sees what it would see after as many shifts, with as many braces open. -/
theorem Later.eq_iterate (h : Later p q) :
    q.source = (Parser.advance^[q.position - p.position] p).source ∧
      q.window = (Parser.advance^[q.position - p.position] p).window ∧
      q.depth = (Parser.advance^[q.position - p.position] p).depth := by
  induction h with
  | refl => simp
  | @advance q hq ih =>
    obtain ⟨hsource, hwindow, hdepth⟩ := ih
    have hcount : q.advance.position - p.position = (q.position - p.position) + 1 :=
      Nat.succ_sub hq.position_le
    rw [hcount, Function.iterate_succ_apply']
    simp only [Parser.advance, ← hsource, ← hwindow, ← hdepth, and_self]
  | report _ _ ih => exact ih

end Parser

/-- The source behind its next token. -/
def Source.rest (source : Source) : Source :=
  source.next.2

namespace Parser

/-- The line of the last token of a list, or the given one. -/
def lastLine (line : Nat) (tokens : List Token) : Nat :=
  (tokens.getLast?.map Token.line).getD line

/-- Behind a first token, the last line of a list does not depend on the given one. -/
@[simp] theorem lastLine_cons (line : Nat) (token : Token) (tokens : List Token) :
    lastLine line (token :: tokens) = lastLine token.line tokens := by
  unfold lastLine
  rw [List.getLast?_cons]
  cases tokens.getLast? <;> rfl

/-- A list that has given some of its tokens holds the others and the line of the last one given. -/
theorem rest_iterate_list (tokens : List Token) (line count : Nat) :
    Source.rest^[count] (.list tokens line) =
      .list (tokens.drop count) (lastLine line (tokens.take count)) := by
  induction count generalizing tokens line with
  | zero => simp [lastLine]
  | succ count ih =>
    rw [Function.iterate_succ_apply]
    cases tokens with
    | nil =>
      have hspent := ih [] line
      simp only [List.drop_nil, List.take_nil] at hspent ⊢
      exact hspent
    | cons token tokens =>
      rw [List.drop_succ_cons, List.take_succ_cons, lastLine_cons]
      exact ih tokens token.line

/-- A parser meets the tokens of its source in their order. -/
theorem iterate_ofSource (source : Source) (count : Nat) :
    (advance^[count] (ofSource source)).window.current = (Source.rest^[count] source).next.1 ∧
      (advance^[count] (ofSource source)).window.peek = (Source.rest^[count + 1] source).next.1 ∧
      (advance^[count] (ofSource source)).source = Source.rest^[count + 2] source := by
  induction count with
  | zero => exact ⟨rfl, rfl, rfl⟩
  | succ count ih =>
    obtain ⟨-, hpeek, hsource⟩ := ih
    rw [Function.iterate_succ_apply' advance]
    refine ⟨hpeek, ?_, ?_⟩
    · rw [← hsource]
      rfl
    · rw [Function.iterate_succ_apply' Source.rest, ← hsource]
      rfl

/-- A parser for a list meets its tokens, and then ends of input on the line of the last one. -/
theorem current_iterate_ofTokens (tokens : List Token) (count : Nat) :
    (advance^[count] (ofTokens tokens)).window.current =
      tokens[count]?.getD (Token.eof (lastLine 1 tokens)) := by
  have hcurrent := (iterate_ofSource (.ofTokens tokens) count).1
  rw [ofTokens, hcurrent, Source.ofTokens, rest_iterate_list, ← List.head?_drop]
  by_cases hlt : count < tokens.length
  · rw [List.drop_eq_getElem_cons hlt]
    rfl
  · rw [Nat.not_lt] at hlt
    rw [List.drop_of_length_le hlt, List.take_of_length_le hlt]
    rfl

/-! ## Rounds before a stopping token -/

variable {n : Nat}

/-- A round that begins before a stopping token stays within it. -/
theorem Inside.afterStatement (hgrammar : p.grammar = .standard) (h : Inside n p) :
    Within n (p.afterStatement false) := by
  have hmeets := Contract.pursue_meets (stopContract_kept n) p.budget .stmt hgrammar h
  have hlater := pursue_later p.budget .stmt p
  have hreply := pursue_ne_exhausted hgrammar .stmt (Nat.le_refl p.budget)
  unfold Parser.afterStatement
  split <;> rename_i heq <;> rw [heq] at hmeets hlater hreply
  · exact Inside.advance hmeets.toInside
  · exact Within.synchronize (hlater.grammar_eq.trans hgrammar) hmeets.1 h.position_lt false
  · exact absurd rfl hreply

/-- Up to a stopping token that is the first end of input, a program takes every token and has no
more slots than there are tokens. -/
theorem program_before_eof (hgrammar : p.grammar = .standard) (h : Within n p)
    (hfirst : ∀ q, Later p q → q.position ≤ n → (q.kind = .eof ↔ q.position = n)) :
    p.program.2.position = n ∧ p.program.1.slots.length ≤ n - p.position := by
  revert h hfirst
  refine program_induction
    (motive := fun p => Within n p →
      (∀ q, Later p q → q.position ≤ n → (q.kind = .eof ↔ q.position = n)) →
        p.program.2.position = n ∧ p.program.1.slots.length ≤ n - p.position)
    (fun p _ heof h hfirst => ?_) (fun p hgrammar hkind ih h hfirst => ?_) p hgrammar
  · rw [program_of_eof heof]
    exact ⟨(hfirst p .refl h.position_le).1 heof, Nat.zero_le _⟩
  · have hbefore : p.position < n := Nat.lt_of_le_of_ne h.position_le fun heq =>
      hkind ((hfirst p .refl h.position_le).2 heq)
    have hlater := afterStatement_later false p
    have hmoved := position_lt_afterStatement hgrammar hkind false
    have hwithin := Inside.afterStatement hgrammar ⟨h, hbefore⟩
    have hle := hwithin.position_le
    obtain ⟨hposition, hlength⟩ := ih hwithin fun q hq => hfirst q (hlater.trans hq)
    rw [program_of_ne hgrammar hkind]
    refine ⟨hposition, ?_⟩
    rw [List.length_cons]
    omega

/-- Up to the first end of input in a list, a parser for the list stands on the end of input only
there. -/
theorem kind_iterate_ofTokens {tokens : List Token} {count : Nat}
    (h : count ≤ (tokens.takeWhile (·.kind ≠ .eof)).length) :
    (advance^[count] (ofTokens tokens)).kind = .eof ↔
      count = (tokens.takeWhile (·.kind ≠ .eof)).length := by
  have hcurrent := current_iterate_ofTokens tokens count
  rw [kind, hcurrent]
  have hsplit : tokens.takeWhile (·.kind ≠ .eof) ++ tokens.dropWhile (·.kind ≠ .eof) = tokens :=
    List.takeWhile_append_dropWhile
  rcases Nat.lt_or_eq_of_le h with hlt | heq
  · have hget : tokens[count]? = some (tokens.takeWhile (·.kind ≠ .eof))[count] := by
      rw [← List.getElem?_eq_getElem hlt, ← List.getElem?_append_left hlt, hsplit]
    have hne := List.mem_takeWhile_imp (List.getElem_mem hlt)
    rw [hget]
    exact ⟨fun heof => absurd heof (of_decide_eq_true hne), fun heq =>
      absurd heq (Nat.ne_of_lt hlt)⟩
  · have hget : tokens[count]? = (tokens.dropWhile (·.kind ≠ .eof)).head? := by
      have hdrop := @List.drop_left _ (tokens.takeWhile (·.kind ≠ .eof))
        (tokens.dropWhile (·.kind ≠ .eof))
      rw [hsplit] at hdrop
      rw [← List.head?_drop, heq, hdrop]
    have hhead := List.head?_dropWhile_not (fun token : Token => decide (token.kind ≠ .eof)) tokens
    rw [hget]
    refine ⟨fun _ => heq, fun _ => ?_⟩
    cases hdrop : (tokens.dropWhile (·.kind ≠ .eof)).head? with
    | none => rfl
    | some token =>
      rw [hdrop] at hhead
      simpa using hhead

end Parser

open ScriptFront.Parser

/-- A program ends on the first end of input, with no more slots than there are tokens before it. -/
theorem program_ofTokens_end (tokens : List Token) :
    (ofTokens tokens).program.2.position = (tokens.takeWhile (·.kind ≠ .eof)).length ∧
      (ofTokens tokens).program.1.slots.length ≤ (tokens.takeWhile (·.kind ≠ .eof)).length := by
  have hstart : (ofTokens tokens).position = 0 := rfl
  have heof := (kind_iterate_ofTokens (Nat.le_refl _)).2
    (rfl : (tokens.takeWhile (·.kind ≠ .eof)).length = _)
  have hwithin : Within (tokens.takeWhile (·.kind ≠ .eof)).length (ofTokens tokens) :=
    ⟨Nat.zero_le _, .inl heof, fun hne => absurd heof hne⟩
  refine program_before_eof rfl hwithin fun q hq hle => ?_
  obtain ⟨-, hwindow, -⟩ := hq.eq_iterate
  rw [hstart, Nat.sub_zero] at hwindow
  rw [kind, hwindow]
  exact kind_iterate_ofTokens hle

/-- **Parsing runs exactly to the end of input.** For any list of tokens, the loop over the program
comes to its end by itself: larger bounds on nesting and on rounds change nothing. It ends on the
end of input, all tokens before the first one taken, and with no more slots than these. Every round
of the loop over a program, and of the loop over a block, begins and ends with no bound met and
takes a token at least. -/
theorem parsing_runs_to_end (tokens : List Token) :
    (∀ budget rounds, (ofTokens tokens).budget ≤ budget → (ofTokens tokens).remaining ≤ rounds →
      (ofTokens tokens).slots budget rounds =
        ((ofTokens tokens).program.1.slots, (ofTokens tokens).program.2)) ∧
    (ofTokens tokens).program.2.kind = .eof ∧
    (ofTokens tokens).program.2.position = (tokens.takeWhile (·.kind ≠ .eof)).length ∧
    (parseTokens tokens).1.slots.length ≤ (tokens.takeWhile (·.kind ≠ .eof)).length ∧
    ∀ p : Parser, p.grammar = .standard → p.kind ≠ .eof →
      (∀ budget, p.budget ≤ budget → (pursue budget .stmt p).1 ≠ .exhausted) ∧
      (∀ inBlock, p.position < (p.afterStatement inBlock).position) ∧
      p.program = (⟨p.slot :: (p.afterStatement false).program.1.slots⟩,
        (p.afterStatement false).program.2) ∧
      (p.kind ≠ .closeCurly → ∀ budget, p.budget ≤ budget →
        (pursue (budget + 1) .statements p).2 =
          (pursue budget .statements (p.afterStatement true)).2) := by
  have hgrammar : (ofTokens tokens).grammar = .standard := rfl
  obtain ⟨hposition, hlength⟩ := program_ofTokens_end tokens
  refine ⟨fun budget rounds => slots_eq_program hgrammar, (program_later hgrammar).2, hposition,
    hlength, fun p hgrammar hkind => ⟨fun budget => pursue_ne_exhausted hgrammar .stmt,
      position_lt_afterStatement hgrammar hkind, program_of_ne hgrammar hkind,
      fun hclose budget => pursue_statements_of_ne hgrammar hkind hclose⟩⟩

/-- The law at a list with an end of input in its middle, on a brace that is never closed. -/
theorem parsing_runs_to_end_middle :
    let p := ofTokens [⟨.openCurly, "\x7b", 1⟩, ⟨.eof, "", 1⟩, ⟨.letWord, "let", 2⟩]
    p.program.2.position = 1 ∧ p.grammar = .standard ∧ p.kind ≠ .eof ∧
      ∀ inBlock, 0 < (p.afterStatement inBlock).position := by
  intro p
  have h := parsing_runs_to_end [⟨.openCurly, "\x7b", 1⟩, ⟨.eof, "", 1⟩, ⟨.letWord, "let", 2⟩]
  exact ⟨h.2.2.1, rfl, by decide, (h.2.2.2.2 p rfl (by decide)).2.1⟩

end ScriptFront
