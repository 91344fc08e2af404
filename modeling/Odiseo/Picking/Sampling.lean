import Mathlib.Data.Finset.Card
import Mathlib.Data.List.Perm.Subperm

/-!
# Distinct elements in a sample with repetitions

A sample of some size is drawn from rows in which an element may occur several times. It has
a given number of distinct elements, whatever is drawn, exactly when fewer elements never have
enough rows to fill the sample.
-/

namespace Picking

variable {ι : Type} [DecidableEq ι]

/-- Fewer than `target` elements have fewer than `size` rows. -/
def Spread (rows : List ι) (size target : ℕ) : Prop :=
  ∀ Q : Finset ι, Q.card < target → rows.countP (· ∈ Q) < size

variable {rows : List ι} {size target : ℕ}

/-- **Every sample has as many distinct elements as asked for exactly when the rows are spread.** -/
theorem spread_iff :
    Spread rows size target ↔
      ∀ sample : List ι, sample.Subperm rows → sample.length = size →
        target ≤ sample.toFinset.card := by
  constructor
  · intro hspread sample hsample hlength
    by_contra hfew
    have hcount := hspread sample.toFinset (by omega)
    have hall : sample.countP (· ∈ sample.toFinset) = sample.length :=
      List.countP_eq_length.mpr fun a ha => by simpa using ha
    have hle := hsample.countP_le (· ∈ sample.toFinset)
    omega
  · intro hsamples Q hQ
    by_contra hmany
    -- The sample is drawn from the rows of the few elements.
    have hfilter : size ≤ (rows.filter (· ∈ Q)).length := by
      rw [← List.countP_eq_length_filter]
      omega
    have hsample : ((rows.filter (· ∈ Q)).take size).Subperm rows :=
      ((List.take_sublist size _).trans List.filter_sublist).subperm
    have htarget := hsamples _ hsample (by rw [List.length_take]; omega)
    have hsubset : ((rows.filter (· ∈ Q)).take size).toFinset ⊆ Q := by
      intro a ha
      have hmem := List.mem_of_mem_take (List.mem_toFinset.mp ha)
      simpa using (List.mem_filter.mp hmem).2
    have hcard := Finset.card_le_card hsubset
    omega

end Picking
