import Mathlib.Algebra.BigOperators.Group.List.Lemmas
import Mathlib.Algebra.GroupWithZero.Nat
import Odiseo.Database.Table

/-!
# Sums over rows

A sum over rows is taken key by key.
-/

namespace Database

/-- A sum over rows is the sum over the keys of the sums over their rows. -/
theorem sum_map_by_key {ρ κ : Type} [DecidableEq κ] (g : ρ → κ) (f : ρ → ℕ) {keys : List κ}
    (hnodup : keys.Nodup) {rows : List ρ} (hall : ∀ r ∈ rows, g r ∈ keys) :
    (rows.map f).sum = (keys.map fun k => ((rows.filter fun r => g r = k).map f).sum).sum := by
  induction rows with
  | nil => simp
  | cons r rows ih =>
    obtain ⟨hr, hrows⟩ := List.forall_mem_cons.mp hall
    have hstep : ∀ k, (((r :: rows).filter fun r => g r = k).map f).sum =
        (if g r = k then f r else 0) + ((rows.filter fun r => g r = k).map f).sum := by
      intro k
      by_cases hk : g r = k <;> simp [hk]
    have hone : (keys.map fun k => if g r = k then f r else 0).sum = f r := by
      rw [List.sum_map_eq_nsmul_single (g r) _ fun k hk _ => if_neg fun h => hk h.symm,
        List.count_eq_one_of_mem hnodup hr, if_pos rfl, one_nsmul]
    simp only [hstep, List.map_cons, List.sum_cons]
    rw [List.sum_map_add, hone, ih hrows]

/-- A sum over a table is the sum over the keys of what is found under them. -/
theorem Table.sum_rows {κ ρ : Type} [Keyed κ ρ] [DecidableEq κ] (t : Table κ ρ) (f : ρ → ℕ)
    {keys : List κ} (hnodup : keys.Nodup) (hall : ∀ r ∈ t.rows, key r ∈ keys) :
    (t.rows.map f).sum = (keys.map fun k => ((t.find k).map f).getD 0).sum := by
  rw [sum_map_by_key key f hnodup hall]
  congr 1
  apply List.map_congr_left
  intro k _
  cases hfind : t.find k with
  | none =>
    have hnone : t.rows.filter (fun r => key r = k) = [] := by
      rw [List.filter_eq_nil_iff]
      intro r hr
      simpa using find_eq_none.mp hfind r hr
    rw [hnone]
    rfl
  | some r =>
    have hkey := key_of_find hfind
    have hone : t.rows.filter (fun r => key r = k) = [r] := by
      refine filter_eq_singleton (mem_of_find hfind) ?_ ?_
      · simpa using hkey
      · intro a _ ha
        rw [hkey]
        simpa using ha
    rw [hone]
    simp

end Database
