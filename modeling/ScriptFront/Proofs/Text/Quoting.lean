import Mathlib.Data.Nat.Digits.Defs
import ScriptFront.Text.Quoted

/-!
# Quoting can be undone

No quoted text is the beginning of another one: `append_cancel_quoteChars` tells two quoted texts
from what stands behind them, whatever that is. It comes down to single characters
(`append_cancel_quoteChar`), and for those that are shown by their code to the digits of the code.
-/

namespace ScriptFront.Text

/-! ## Codes -/

/-- Below sixteen, a number is known from its digit. -/
theorem digitChar_inj {m n : Nat} (hm : m < 16) (hn : n < 16) (h : m.digitChar = n.digitChar) :
    m = n := by
  have hall : ∀ m < 16, ∀ n < 16, m.digitChar = n.digitChar → m = n := by decide
  exact hall m hm n hn h

/-- No digit is a closing brace. -/
theorem brace_not_mem_toDigits (n : Nat) : '\x7d' ∉ Nat.toDigits 16 n := by
  induction n using Nat.strongRecOn with
  | _ n ih =>
    rw [Nat.toDigits_eq_if (by decide)]
    split
    · simp
    · next hn =>
      simpa using ih (n / 16) (by omega)

/-- A number is known from its hexadecimal digits. -/
theorem toDigits_inj {m n : Nat} (h : Nat.toDigits 16 m = Nat.toDigits 16 n) : m = n := by
  induction m using Nat.strongRecOn generalizing n with
  | _ m ih =>
    have hpos (k : Nat) : 0 < (Nat.toDigits 16 k).length := Nat.length_toDigits_pos
    rw [Nat.toDigits_eq_if (by decide), Nat.toDigits_eq_if (b := 16) (n := n) (by decide)] at h
    -- the last digit is the rest and the others are the quotient, unless there is but one
    split at h <;> split at h
    · next hm hn => exact digitChar_inj hm hn (by simpa using h)
    · have hlength := congrArg List.length h
      have := hpos (n / 16)
      simp only [List.length_append, List.length_singleton] at hlength
      omega
    · have hlength := congrArg List.length h
      have := hpos (m / 16)
      simp only [List.length_append, List.length_singleton] at hlength
      omega
    · next hm hn =>
      obtain ⟨hfront, hlast⟩ := List.append_inj' h rfl
      have hquotient := ih (m / 16) (by omega) hfront
      have hrest := digitChar_inj (Nat.mod_lt m (by decide)) (Nat.mod_lt n (by decide))
        (by simpa using hlast)
      omega

/-- Two texts without a mark are told from what stands behind the mark. -/
theorem append_cancel_of_not_mem {mark : Char} {text text' rest rest' : List Char}
    (htext : mark ∉ text) (htext' : mark ∉ text') (h : text ++ mark :: rest =
      text' ++ mark :: rest') :
    text = text' ∧ rest = rest' := by
  induction text generalizing text' with
  | nil =>
    cases text' with
    | nil => simpa using h
    | cons c text' =>
      simp only [List.nil_append, List.cons_append, List.cons.injEq] at h
      simp [h.1] at htext'
  | cons c text ih =>
    cases text' with
    | nil =>
      simp only [List.nil_append, List.cons_append, List.cons.injEq] at h
      simp [h.1] at htext
    | cons d text' =>
      simp only [List.mem_cons, not_or] at htext htext'
      simp only [List.cons_append, List.cons.injEq] at h
      obtain ⟨rfl, hrest⟩ := ih htext.2 htext'.2 h.2
      exact ⟨by rw [h.1], hrest⟩

/-! ## Single characters -/

/-- The characters that stand behind a backslash for others, and what they stand for. -/
def shortNames : List (Char × Char) :=
  [('\x00', '0'), ('\t', 't'), ('\r', 'r'), ('\n', 'n'), ('\\', '\\'), ('\x22', '\x22')]

/-- A quoted character has a short name behind a backslash, or is shown by its code, or as it is. -/
theorem quoteChar_eq (c : Char) :
    (∃ name, (c, name) ∈ shortNames ∧ quoteChar c = ['\\', name]) ∨
      quoteChar c = '\\' :: 'u' :: '\x7b' :: (Nat.toDigits 16 c.toNat ++ ['\x7d']) ∨
      quoteChar c = [c] ∧ c ≠ '\\' ∧ c ≠ '\x22' := by
  unfold quoteChar
  split
  · next h => exact .inl ⟨'0', by simp [h, shortNames], rfl⟩
  split
  · next h => exact .inl ⟨'t', by simp [h, shortNames], rfl⟩
  split
  · next h => exact .inl ⟨'r', by simp [h, shortNames], rfl⟩
  split
  · next h => exact .inl ⟨'n', by simp [h, shortNames], rfl⟩
  split
  · next h => exact .inl ⟨'\\', by simp [h, shortNames], rfl⟩
  split
  · next h => exact .inl ⟨'\x22', by simp [h, shortNames], rfl⟩
  split
  · exact .inr (.inl (by simp [codeEscape]))
  · next hslash hquote _ => exact .inr (.inr ⟨rfl, hslash, hquote⟩)

/-- A character with a short name is known from it. -/
theorem shortNames_inj {c d name : Char} (hc : (c, name) ∈ shortNames)
    (hd : (d, name) ∈ shortNames) :
    c = d := by
  have hall : ∀ p ∈ shortNames, ∀ q ∈ shortNames, p.2 = q.2 → p.1 = q.1 := by decide
  exact hall _ hc _ hd rfl

/-- The letter that announces a code is no short name. -/
theorem ne_u_of_mem_shortNames {c name : Char} (h : (c, name) ∈ shortNames) : name ≠ 'u' := by
  have hall : ∀ p ∈ shortNames, p.2 ≠ 'u' := by decide
  exact hall _ h

/-- A quoted character is told from what stands behind it. -/
theorem append_cancel_quoteChar {c d : Char} {rest rest' : List Char}
    (h : quoteChar c ++ rest = quoteChar d ++ rest') : c = d ∧ rest = rest' := by
  rcases quoteChar_eq c with ⟨name, hname, hc⟩ | hc | ⟨hc, hslash, _⟩ <;>
    rcases quoteChar_eq d with ⟨name', hname', hd⟩ | hd | ⟨hd, hslash', _⟩ <;>
    simp only [hc, hd, List.cons_append, List.nil_append, List.cons.injEq, true_and] at h
  · obtain ⟨rfl, hrest⟩ := h
    exact ⟨shortNames_inj hname hname', hrest⟩
  · exact absurd h.1 (ne_u_of_mem_shortNames hname)
  · exact absurd h.1.symm hslash'
  · exact absurd h.1.symm (ne_u_of_mem_shortNames hname')
  · rw [List.append_assoc, List.append_assoc] at h
    obtain ⟨hdigits, hrest⟩ := append_cancel_of_not_mem (brace_not_mem_toDigits _)
      (brace_not_mem_toDigits _) h
    exact ⟨Char.toNat_inj.1 (toDigits_inj hdigits), hrest⟩
  · exact absurd h.1.symm hslash'
  · exact absurd h.1 hslash
  · exact absurd h.1 hslash
  · exact h

/-- No quoted character begins with a quote. -/
theorem quoteChar_ne_quote (c : Char) (rest rest' : List Char) :
    quoteChar c ++ rest ≠ '\x22' :: rest' := by
  rcases quoteChar_eq c with ⟨name, _, hc⟩ | hc | ⟨hc, _, hquote⟩ <;> simp_all

/-! ## Whole texts -/

/-- A quoted text is told from what stands behind it. -/
theorem append_cancel_quoteChars {text text' rest rest' : List Char}
    (h : quoteChars text ++ rest = quoteChars text' ++ rest') : text = text' ∧ rest = rest' := by
  simp only [quoteChars, List.cons_append, List.cons.injEq, true_and, List.append_assoc,
    List.nil_append] at h
  induction text generalizing text' with
  | nil =>
    cases text' with
    | nil => simpa using h
    | cons d text' =>
      rw [List.flatMap_cons, List.append_assoc] at h
      exact absurd h.symm (quoteChar_ne_quote d _ rest)
  | cons c text ih =>
    cases text' with
    | nil =>
      rw [List.flatMap_cons, List.append_assoc] at h
      exact absurd h (quoteChar_ne_quote c _ rest')
    | cons d text' =>
      rw [List.flatMap_cons, List.flatMap_cons, List.append_assoc, List.append_assoc] at h
      obtain ⟨rfl, hrest⟩ := append_cancel_quoteChar h
      obtain ⟨rfl, hbehind⟩ := ih hrest
      exact ⟨rfl, hbehind⟩

end ScriptFront.Text
