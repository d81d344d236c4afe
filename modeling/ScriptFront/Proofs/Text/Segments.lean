import Mathlib.Data.List.TakeWhile
import ScriptFront.Proofs.Lexer.Scans

/-!
# Lines and places in a text

A place in a text is given by what stands before it. Its line is counted by the newlines there, and
the line with that number is the stretch around the place in which there is no newline.

* `Segment` — a stretch of a text between newlines, or between a newline and an end of the text.
* `line?_of_segment` — the line with the number of a segment is the segment, less a carriage return
  before its newline. An empty segment at the end of the text is no line.
* `line?_eq_none_of_le` — that is the only way in which a line that the newlines promise is missing.
-/

namespace ScriptFront.Text

/-! ## Splitting at a place -/

/-- What a text has after its last newline, in reverse, when it already began with `begun`. -/
def unfinished (begun : List Char) : List Char → List Char
  | [] => begun
  | c :: rest => if c = '\n' then unfinished [] rest else unfinished (c :: begun) rest

/-- The lines from that of a place on are made of what is unfinished there and what follows. -/
theorem drop_linesAfter (begun front back : List Char) :
    (linesAfter begun (front ++ back)).drop (newlines front) =
      linesAfter (unfinished begun front) back := by
  induction front generalizing begun with
  | nil => rfl
  | cons c front ih =>
    by_cases hc : c = '\n'
    · subst hc
      simpa [linesAfter, unfinished, newlines] using ih []
    · simpa [linesAfter, unfinished, newlines, hc] using ih (c :: begun)

/-- A text has a line for each newline, and one more when something is unfinished at its end. -/
theorem length_linesAfter (begun text : List Char) :
    (linesAfter begun text).length =
      newlines text + if unfinished begun text = [] then 0 else 1 := by
  induction text generalizing begun with
  | nil => by_cases hbegun : begun = [] <;> simp [linesAfter, unfinished, newlines, hbegun]
  | cons c text ih =>
    by_cases hc : c = '\n'
    · subst hc
      simp only [linesAfter, unfinished, newlines, if_true, List.length_cons, List.count_cons_self]
      rw [ih, newlines]
      omega
    · simpa [linesAfter, unfinished, newlines, hc] using ih (c :: begun)

/-- A text without newlines goes on with the line that was begun. -/
theorem unfinished_of_newline_not_mem {text : List Char} (h : '\n' ∉ text) (begun : List Char) :
    unfinished begun text = text.reverse ++ begun := by
  induction text generalizing begun with
  | nil => rfl
  | cons c text ih =>
    rw [List.mem_cons, not_or] at h
    rw [unfinished, if_neg (Ne.symm h.1), ih h.2]
    simp

/-- Behind a newline, a new line is begun. -/
theorem unfinished_append_newline (begun head segment : List Char) :
    unfinished begun (head ++ '\n' :: segment) = unfinished [] segment := by
  induction head generalizing begun with
  | nil => simp [unfinished]
  | cons c head ih =>
    rw [List.cons_append, unfinished]
    split <;> exact ih _

/-! ## Segments -/

/-- Either nothing, or a text that ends with a newline. -/
def Closed (text : List Char) : Prop :=
  text = [] ∨ ∃ body, text = body ++ ['\n']

/-- The text is cut before and behind a stretch without newlines: before it there is nothing or a
newline, and so there is behind it. -/
structure Segment (text head segment tail : List Char) : Prop where
  text_eq : text = head ++ segment ++ tail
  newline_not_mem : '\n' ∉ segment
  head_closed : Closed head
  tail_opens : ∀ c ∈ tail.head?, c = '\n'

/-- A segment as a line: without the carriage return right before its newline. -/
def shown (segment tail : List Char) : List Char :=
  if tail ≠ [] ∧ segment.getLast? = some '\r' then segment.dropLast else segment

/-- The stretch before a place, back to the last newline. -/
theorem exists_closed_append (front : List Char) :
    ∃ head begun, front = head ++ begun ∧ '\n' ∉ begun ∧ Closed head := by
  induction front using List.reverseRecOn with
  | nil => exact ⟨[], [], rfl, by simp, .inl rfl⟩
  | append_singleton front c ih =>
    by_cases hc : c = '\n'
    · subst hc
      exact ⟨front ++ ['\n'], [], by simp, by simp, .inr ⟨front, rfl⟩⟩
    · obtain ⟨head, begun, rfl, hbegun, hhead⟩ := ih
      exact ⟨head, begun ++ [c], by simp, by simp [hbegun, Ne.symm hc], hhead⟩

/-- Every place stands in a segment, unless it is right before a newline or at the end of the text,
and the newlines before the place are those before the segment. -/
theorem exists_segment (front back : List Char) :
    ∃ head segment tail, Segment (front ++ back) head segment tail ∧
      head.length ≤ front.length ∧ newlines front = newlines head ∧
      ∀ c ∈ back.head?, c ≠ '\n' → front.length < head.length + segment.length := by
  obtain ⟨head, begun, rfl, hbegun, hhead⟩ := exists_closed_append front
  refine ⟨head, begun ++ back.takeWhile (· != '\n'), back.dropWhile (· != '\n'),
    ⟨?_, ?_, hhead, head?_dropWhile_newline back⟩, by simp, ?_, ?_⟩
  · simp [List.append_assoc, List.takeWhile_append_dropWhile]
  · simp [hbegun, newline_not_mem_takeWhile]
  · rw [newlines_append]
    simp [newlines, List.count_eq_zero.2 hbegun]
  · intro c hc hne
    obtain ⟨rest, rfl⟩ : ∃ rest, back = c :: rest := by
      cases back with
      | nil => cases hc
      | cons d rest =>
        cases hc
        exact ⟨rest, rfl⟩
    simp [hne]

/-- A line loses the carriage return at its end, if there is one. -/
theorem dropReturn_reverse (segment : List Char) :
    (dropReturn segment.reverse).reverse =
      if segment.getLast? = some '\r' then segment.dropLast else segment := by
  induction segment using List.reverseRecOn with
  | nil => rfl
  | append_singleton segment c =>
    rw [List.reverse_append, List.reverse_singleton, List.singleton_append, dropReturn]
    by_cases hc : c = '\r' <;> simp [hc]

/-- Behind a text that ends with a newline, no line is begun. -/
theorem unfinished_of_closed {head : List Char} (h : Closed head) : unfinished [] head = [] := by
  rcases h with rfl | ⟨body, rfl⟩
  · rfl
  · rw [unfinished_append_newline]
    rfl

/-- The line with the number of a segment. -/
theorem line?_of_segment {text : String} {head segment tail : List Char}
    (h : Segment text.toList head segment tail) :
    line? text (1 + newlines head) =
      if segment = [] ∧ tail = [] then none else some (String.ofList (shown segment tail)) := by
  have hdrop := drop_linesAfter [] head (segment ++ tail)
  rw [unfinished_of_closed h.head_closed, ← List.append_assoc, ← h.text_eq] at hdrop
  have hline : line? text (1 + newlines head) =
      (linesAfter [] (segment ++ tail)).head?.map String.ofList := by
    rw [← hdrop, List.head?_drop, Nat.add_comm]
    rfl
  have hrest := drop_linesAfter [] segment tail
  rw [newlines, List.count_eq_zero.2 h.newline_not_mem, List.drop_zero,
    unfinished_of_newline_not_mem h.newline_not_mem, List.append_nil] at hrest
  rw [hline, hrest]
  cases tail with
  | nil => by_cases hsegment : segment = [] <;> simp [linesAfter, shown, hsegment]
  | cons c tail =>
    obtain rfl : c = '\n' := h.tail_opens c rfl
    simp [linesAfter, shown, dropReturn_reverse]

/-- A line that the newlines of a text promise is missing only if it is the last, and the text is
empty or ends with a newline. -/
theorem line?_eq_none_of_le {text : String} {number : Nat} (hpos : 1 ≤ number)
    (hle : number ≤ 1 + newlines text.toList) (hnone : line? text number = none) :
    number = 1 + newlines text.toList ∧ Closed text.toList := by
  obtain ⟨index, rfl⟩ := Nat.exists_eq_add_of_le hpos
  have hlength : (lines text.toList).length ≤ index := by
    rw [Nat.add_comm] at hnone
    simpa [line?] using hnone
  rw [lines, length_linesAfter] at hlength
  obtain ⟨head, begun, htext, hbegun, hhead⟩ := exists_closed_append text.toList
  split at hlength
  · refine ⟨by omega, ?_⟩
    next hunfinished =>
    rcases hhead with rfl | ⟨body, rfl⟩
    · rw [htext, List.nil_append, unfinished_of_newline_not_mem hbegun] at hunfinished
      exact .inl (by simpa [htext] using hunfinished)
    · rw [htext, List.append_assoc, List.singleton_append, unfinished_append_newline,
        unfinished_of_newline_not_mem hbegun] at hunfinished
      exact .inr ⟨body, by simpa [htext] using hunfinished⟩
  · omega

/-- Where something follows a place, the line of the place is there. -/
theorem line?_isSome_of_ne_nil {text : String} {front back : List Char}
    (htext : text.toList = front ++ back) (hback : back ≠ []) :
    (line? text (1 + newlines front)).isSome := by
  rw [← Option.ne_none_iff_isSome]
  intro hnone
  have hcount : newlines text.toList = newlines front + newlines back := by
    rw [htext, newlines_append]
  obtain ⟨hlast, hclosed⟩ := line?_eq_none_of_le (Nat.le_add_right _ _) (by omega) hnone
  have hzero : newlines back = 0 := by omega
  rw [htext] at hclosed
  rcases hclosed with hnil | ⟨body, hbody⟩
  · exact hback (List.append_eq_nil_iff.1 hnil).2
  · have hmem : '\n' ∈ back := by
      rw [← List.dropLast_append_getLast hback, ← List.append_assoc] at hbody
      obtain ⟨-, hnewline⟩ := List.append_inj' hbody rfl
      rw [← List.singleton_inj.1 hnewline]
      exact List.getLast_mem hback
    exact absurd (List.count_pos_iff.2 hmem) (by rw [newlines] at hzero; omega)

end ScriptFront.Text
