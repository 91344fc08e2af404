import Mathlib.Data.List.Nodup

/-!
# Batches that stop at the first failure

A batch works through its items in order and ends with the first one that fails. What it has
reached is done, with or without success; the rest stays open. Open items are put into batches
again, as many at a time as there is room for. Every such round gets past a failing item or
finishes a whole batch, so the number of rounds is bounded.
-/

namespace Batch

variable {α : Type}

/-- The items that a batch reaches: those up to the first one that fails. -/
def reached (fails : α → Bool) : List α → List α
  | [] => []
  | x :: xs => x :: if fails x then [] else reached fails xs

/-- The rounds that the open items may still take, when each round has room for `room` items: one
for each failing item, and one for each batch that the others fill. -/
def roundsLeft (fails : α → Bool) (room : ℕ) (todo : List α) : ℕ :=
  (todo.filter fails).length + ((todo.filter fun x => !fails x).length + room - 1) / room

section Reached

variable {fails : α → Bool} {batch todo : List α}

/-- A batch reaches a part of its items. -/
theorem reached_sublist (fails : α → Bool) (batch : List α) :
    (reached fails batch).Sublist batch := by
  induction batch with
  | nil => exact List.Sublist.refl _
  | cons x xs ih =>
    rw [reached]
    apply List.Sublist.cons_cons
    split
    · exact List.nil_sublist xs
    · exact ih

/-- A batch without a failing item reaches all of its items. -/
theorem reached_of_none (h : ∀ x ∈ batch, fails x = false) : reached fails batch = batch := by
  induction batch with
  | nil => rfl
  | cons x xs ih =>
    have hx := h x List.mem_cons_self
    rw [reached, hx, if_neg Bool.false_ne_true, ih fun y hy => h y (List.mem_cons_of_mem x hy)]

/-- A batch with a failing item reaches one. -/
theorem exists_reached_fails (h : ∃ x ∈ batch, fails x = true) :
    ∃ x ∈ reached fails batch, fails x = true := by
  induction batch with
  | nil =>
    obtain ⟨x, hx, _⟩ := h
    cases hx
  | cons x xs ih =>
    cases hx : fails x with
    | true => exact ⟨x, List.mem_cons_self, hx⟩
    | false =>
      obtain ⟨y, hy, hfails⟩ := h
      rcases List.mem_cons.mp hy with rfl | hy
      · rw [hfails] at hx
        cases hx
      · obtain ⟨z, hz, hz'⟩ := ih ⟨y, hy, hfails⟩
        refine ⟨z, ?_, hz'⟩
        rw [reached, hx, if_neg Bool.false_ne_true]
        exact List.mem_cons_of_mem x hz

end Reached

section Rounds

variable {fails : α → Bool} {batch todo : List α} {room : ℕ}

/-- Nothing open takes no round. -/
theorem roundsLeft_nil (fails : α → Bool) (room : ℕ) : roundsLeft fails room [] = 0 := by
  rw [roundsLeft, List.filter_nil, List.filter_nil, List.length_nil]
  cases room with
  | zero => rfl
  | succ room =>
    have hlt : 0 + (room + 1) - 1 < room + 1 := by omega
    rw [Nat.div_eq_of_lt hlt]

/-- Once no round is left, nothing is open. -/
theorem eq_nil_of_roundsLeft (hroom : 0 < room) (h : roundsLeft fails room todo = 0) :
    todo = [] := by
  obtain ⟨hfailing, hothers⟩ := Nat.add_eq_zero_iff.mp h
  have hnone : (todo.filter fun x => !fails x).length = 0 := by
    have hlt := (Nat.div_eq_zero_iff_lt hroom).mp hothers
    omega
  rw [List.eq_nil_iff_forall_not_mem]
  intro x hx
  cases hfails : fails x with
  | true =>
    have hmem := List.mem_filter.mpr ⟨hx, hfails⟩
    rw [List.length_eq_zero_iff.mp hfailing] at hmem
    cases hmem
  | false =>
    have hmem : x ∈ todo.filter fun x => !fails x := List.mem_filter.mpr ⟨hx, by rw [hfails]; rfl⟩
    rw [List.length_eq_zero_iff.mp hnone] at hmem
    cases hmem

variable [DecidableEq α]

/-- The open items that a batch leaves open. -/
def remaining (fails : α → Bool) (batch : List α) (todo : List α) : List α :=
  todo.filter fun x => x ∉ reached fails batch

/-- A batch that is run again leaves the same items open. -/
theorem remaining_remaining (batch todo : List α) :
    remaining fails batch (remaining fails batch todo) = remaining fails batch todo := by
  simp [remaining, List.filter_filter]

/-- A batch goes on after an item that does not fail. -/
theorem remaining_cons {x : α} (hx : fails x = false) :
    remaining fails (x :: batch) todo =
      remaining fails batch (todo.filter fun y => decide (y ≠ x)) := by
  simp only [remaining, reached, hx, if_neg Bool.false_ne_true, List.filter_filter]
  apply List.filter_congr
  intro y _
  simp only [List.mem_cons, not_or, Bool.decide_and]
  exact Bool.and_comm _ _

/-- A batch ends with an item that fails. -/
theorem remaining_cons_fails {x : α} (hx : fails x = true) :
    remaining fails (x :: batch) todo = todo.filter fun y => decide (y ≠ x) := by
  simp [remaining, reached, hx]

/-- What is left of a part of the open items. -/
theorem length_filter_remaining (p : α → Bool) :
    ((remaining fails batch todo).filter p).length =
      ((todo.filter p).filter fun x => decide (x ∉ reached fails batch)).length := by
  rw [remaining, List.filter_comm]

/-- No part of the open items grows. -/
theorem length_filter_remaining_le (p : α → Bool) :
    ((remaining fails batch todo).filter p).length ≤ (todo.filter p).length := by
  rw [length_filter_remaining]
  exact List.length_filter_le _ _

/-- A part of the open items that holds a reached item shrinks. -/
theorem length_filter_remaining_lt {p : α → Bool} {x : α} (hx : x ∈ todo) (hp : p x = true)
    (hreached : x ∈ reached fails batch) :
    ((remaining fails batch todo).filter p).length < (todo.filter p).length := by
  rw [length_filter_remaining]
  apply List.length_filter_lt_length_iff_exists.mpr
  exact ⟨x, List.mem_filter.mpr ⟨hx, hp⟩, by simpa using hreached⟩

/-- What a part of the open items loses to a list of its items. -/
theorem length_filter_notMem {items part : List α} (hnodup : items.Nodup) (hsub : items ⊆ part) :
    (part.filter fun x => decide (x ∉ items)).length + items.length ≤ part.length := by
  have hinside : items.length ≤ (part.filter fun x => decide (x ∈ items)).length := by
    apply hnodup.length_le_of_subset
    intro x hx
    exact List.mem_filter.mpr ⟨hsub hx, decide_eq_true hx⟩
  have hsplit := @List.length_eq_length_filter_add _ part fun x => decide (x ∈ items)
  have hsame : (part.filter fun x => decide (x ∉ items)) =
      part.filter fun x => !decide (x ∈ items) := by
    apply List.filter_congr
    intro x _
    simp
  rw [hsame]
  omega

/-- A batch that reaches a failing open item gets past it. -/
theorem roundsLeft_of_reached {x : α} (hx : x ∈ todo) (hfails : fails x = true)
    (hreached : x ∈ reached fails batch) :
    roundsLeft fails room (remaining fails batch todo) + 1 ≤ roundsLeft fails room todo := by
  have hfewer := length_filter_remaining_lt hx hfails hreached
  have hothers : ((remaining fails batch todo).filter fun x => !fails x).length ≤
      (todo.filter fun x => !fails x).length := length_filter_remaining_le _
  have hbatches := Nat.div_le_div_right (c := room)
    (Nat.sub_le_sub_right (Nat.add_le_add_right hothers room) 1)
  unfold roundsLeft
  omega

/-- A batch that holds all open items, one of which fails, makes progress. -/
theorem roundsLeft_remaining_all (room : ℕ) (hall : todo ⊆ batch) (hbatch : batch ⊆ todo)
    (hfails : ∃ x ∈ todo, fails x = true) :
    roundsLeft fails room (remaining fails batch todo) + 1 ≤ roundsLeft fails room todo := by
  obtain ⟨x, hx, hx'⟩ := hfails
  obtain ⟨y, hy, hy'⟩ := exists_reached_fails ⟨x, hall hx, hx'⟩
  exact roundsLeft_of_reached (hbatch ((reached_sublist _ _).subset hy)) hy' hy

/-- A batch closes no more items than it reaches. -/
theorem length_le_remaining (batch : List α) (hnodup : todo.Nodup) :
    todo.length ≤ (remaining fails batch todo).length + (reached fails batch).length := by
  have hclosed : (todo.filter fun x => decide (x ∈ reached fails batch)).length ≤
      (reached fails batch).length := by
    apply (hnodup.filter _).length_le_of_subset
    intro x hx
    exact of_decide_eq_true (List.mem_filter.mp hx).2
  have hsplit := @List.length_eq_length_filter_add _ todo
    fun x => decide (x ∈ reached fails batch)
  have hsame : remaining fails batch todo =
      todo.filter fun x => !decide (x ∈ reached fails batch) := by
    apply List.filter_congr
    intro x _
    simp
  rw [hsame]
  omega

/-- A batch that holds all open items, none of which fails, leaves nothing open. -/
theorem remaining_eq_nil (hall : todo ⊆ batch) (hnone : ∀ x ∈ batch, fails x = false) :
    remaining fails batch todo = [] := by
  rw [remaining, reached_of_none hnone, List.filter_eq_nil_iff]
  intro x hx
  simpa using hall hx

/-- **A round makes progress:** a batch of different open items that leaves no room unused gets
past a failing item, or finishes all that it holds. -/
theorem roundsLeft_remaining (hroom : 0 < room) (hnodup : batch.Nodup) (hbatch : batch ⊆ todo)
    (hfull : min todo.length room ≤ batch.length) (htodo : todo ≠ []) :
    roundsLeft fails room (remaining fails batch todo) + 1 ≤ roundsLeft fails room todo := by
  by_cases hfails : ∃ x ∈ batch, fails x = true
  · obtain ⟨x, hx, hx'⟩ := exists_reached_fails hfails
    exact roundsLeft_of_reached (hbatch ((reached_sublist _ _).subset hx)) hx' hx
  · -- the whole batch is finished
    have hnone : ∀ x ∈ batch, fails x = false := by
      intro x hx
      cases hx' : fails x with
      | true => exact absurd ⟨x, hx, hx'⟩ hfails
      | false => rfl
    have hothers : batch ⊆ todo.filter fun x => !fails x := by
      intro x hx
      exact List.mem_filter.mpr ⟨hbatch hx, by rw [hnone x hx]; rfl⟩
    have hfinished := length_filter_notMem hnodup hothers
    have hleft : ((remaining fails batch todo).filter fun x => !fails x).length + batch.length ≤
        (todo.filter fun x => !fails x).length := by
      rw [length_filter_remaining, reached_of_none hnone]
      exact hfinished
    have hfailing : ((remaining fails batch todo).filter fails).length ≤
        (todo.filter fails).length := length_filter_remaining_le fails
    have hsplit := @List.length_eq_length_filter_add _ todo fails
    have hpos : 0 < todo.length := List.length_pos_iff.mpr htodo
    unfold roundsLeft
    generalize ((remaining fails batch todo).filter fun x => !fails x).length = left at *
    generalize (todo.filter fun x => !fails x).length = others at *
    by_cases hroom' : room ≤ batch.length
    · have hstep : (left + room - 1) / room + 1 = (left + room - 1 + room) / room :=
        (Nat.add_div_right _ hroom).symm
      have hle : (left + room - 1 + room) / room ≤ (others + room - 1) / room :=
        Nat.div_le_div_right (by omega)
      omega
    · have hzero : (left + room - 1) / room = 0 := Nat.div_eq_of_lt (by omega)
      have hone : 1 ≤ (others + room - 1) / room := (Nat.one_le_div_iff hroom).mpr (by omega)
      omega

end Rounds

end Batch
