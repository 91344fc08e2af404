import Mathlib.Data.List.Basic

/-!
# Texts put together at a separator

Where the part before a separator, or the part after it, does not contain the separator, both parts
can be read off the text. The digits of a number contain no separator.
-/

namespace Text

variable {α : Type} [DecidableEq α] {sep : α} {before before' after after' : List α}

/-- The part before the first separator can be read off. -/
theorem append_first_inj (hbefore : sep ∉ before) (hbefore' : sep ∉ before')
    (h : before ++ sep :: after = before' ++ sep :: after') :
    before = before' ∧ after = after' := by
  have hsplit := congrArg (List.splitOn sep) h
  rw [List.splitOn_append_cons_self_of_not_mem hbefore,
    List.splitOn_append_cons_self_of_not_mem hbefore'] at hsplit
  obtain ⟨rfl, -⟩ := List.cons.inj hsplit
  exact ⟨rfl, (List.cons.inj (List.append_cancel_left h)).2⟩

/-- The part after the last separator can be read off. -/
theorem append_last_inj (hafter : sep ∉ after) (hafter' : sep ∉ after')
    (h : before ++ sep :: after = before' ++ sep :: after') :
    before = before' ∧ after = after' := by
  have hreverse := congrArg List.reverse h
  simp only [List.reverse_append, List.reverse_cons, List.append_assoc, List.singleton_append]
    at hreverse
  obtain ⟨hlast, hfirst⟩ := append_first_inj (fun hmem => hafter (List.mem_reverse.mp hmem))
    (fun hmem => hafter' (List.mem_reverse.mp hmem)) hreverse
  exact ⟨List.reverse_injective hfirst, List.reverse_injective hlast⟩

/-- The digits of a number contain no other characters. -/
theorem notMem_toDigits {c : Char} (hc : c.isDigit = false) (n : ℕ) : c ∉ Nat.toDigits 10 n := by
  intro hmem
  rw [Nat.isDigit_of_mem_toDigits (by decide) (by decide) hmem] at hc
  cases hc

/-- A number can be read off its digits. -/
theorem toDigits_inj {m n : ℕ} (h : Nat.toDigits 10 m = Nat.toDigits 10 n) : m = n := by
  have hvalue := congrArg (Nat.ofDigitChars 10 · 0) h
  simpa only [Nat.ofDigitChars_ten_toDigits] using hvalue

end Text
