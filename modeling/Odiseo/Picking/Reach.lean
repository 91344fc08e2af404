import Odiseo.Picking.Greedy
import Mathlib.Algebra.BigOperators.Group.Finset.Basic
import Mathlib.Algebra.Order.BigOperators.Group.Finset
import Mathlib.Data.Fintype.BigOperators

/-!
# How many wishes can reach a kind

A wish that its own kind cannot serve falls back on any element. The elements of a kind that
a list of wishes takes are at most the wishes for it and those that can fall back. The bound is
met when the elements of this kind stand first in the pool.
-/

namespace Picking

variable {α κ : Type} [DecidableEq κ] (kind : α → Option κ)

/-- How many elements of a kind, or of none, the pool has. -/
def supply (pool : List α) (k : Option κ) : ℕ := (pool.map kind).count k

/-- How many wishes can take an element of a kind: those that name no kind, those that name this
one, and those of the others that their own kinds have no elements for. -/
def reach [Fintype κ] (ws : List (Option κ)) (pool : List α) (k : Option κ) : ℕ :=
  ∑ m : Option κ, if m = none ∨ m = k then ws.count m else ws.count m - supply kind pool m

variable {w : Option κ} {ws : List (Option κ)} {pool : List α} {k : Option κ}

@[simp]
theorem supply_nil : supply kind [] k = 0 := rfl

@[simp]
theorem supply_cons (a : α) :
    supply kind (a :: pool) k = supply kind pool k + if kind a = k then 1 else 0 := by
  simp [supply, List.count_cons]

@[simp]
theorem supply_append (pool₁ pool₂ : List α) :
    supply kind (pool₁ ++ pool₂) k = supply kind pool₁ k + supply kind pool₂ k := by
  simp [supply]

/-- The order of the pool does not matter for the supply. -/
theorem supply_eq_of_perm {pool' : List α} (hperm : pool.Perm pool') (k : Option κ) :
    supply kind pool k = supply kind pool' k :=
  (hperm.map kind).count_eq _

/-- A kind with no elements in the pool has no supply. -/
theorem supply_eq_zero_iff : supply kind pool k = 0 ↔ ∀ a ∈ pool, kind a ≠ k := by
  simp [supply, List.count_eq_zero]

/-- A pool of one kind. -/
theorem supply_eq_length (h : ∀ a ∈ pool, kind a = k) : supply kind pool k = pool.length := by
  rw [supply, List.count_eq_length.mpr, List.length_map]
  intro b hb
  obtain ⟨a, ha, rfl⟩ := List.mem_map.mp hb
  exact (h a ha).symm

/-- One wish takes from the supply of the kind of the element that it gets. -/
theorem supply_eq_pick_add (w : Option κ) (pool : List α) (k : Option κ) :
    supply kind pool k = supply kind (pick kind w pool).toList k +
      supply kind (rest kind w pool) k := by
  rw [← supply_append]
  exact (supply_eq_of_perm kind (pick_perm kind w pool) k).symm

/-- What the pool has of a kind is taken or left. -/
theorem supply_eq_taken_add_left (ws : List (Option κ)) (pool : List α) (k : Option κ) :
    supply kind pool k = supply kind (taken kind ws pool) k + supply kind (left kind ws pool) k := by
  rw [← supply_append]
  exact (supply_eq_of_perm kind (taken_perm kind ws pool) k).symm

/-- **A kind serves its own wishes first:** all of them are granted, or all its elements are
taken. -/
theorem min_le_supply_taken (ws : List (Option κ)) (pool : List α) (k : κ) :
    min (ws.count (some k)) (supply kind pool (some k)) ≤
      supply kind (taken kind ws pool) (some k) := by
  induction ws generalizing pool with
  | nil => simp
  | cons w ws ih =>
    have hrest := ih (rest kind w pool)
    have hpool := supply_eq_pick_add kind w pool (some k)
    rw [taken_cons, supply_append]
    by_cases hw : w = some k
    · subst hw
      rw [List.count_cons_self]
      by_cases hsupply : supply kind pool (some k) = 0
      · omega
      · have hmem := (supply_eq_zero_iff kind).not.mp hsupply
        push Not at hmem
        obtain ⟨a, ha, hkind⟩ := hmem
        obtain ⟨b, _, hpick, hb⟩ := kind_of_pick kind ha hkind
        simp only [hpick, Option.toList_some, supply_cons, supply_nil, hb, if_true] at hpool ⊢
        omega
    · rw [List.count_cons_of_ne hw]
      omega

section Bound

variable [Fintype κ]

/-- The elements of a pool by their kinds. -/
theorem sum_supply (pool : List α) : ∑ m, supply kind pool m = pool.length := by
  induction pool with
  | nil => simp
  | cons a pool ih => simp [Finset.sum_add_distrib, ih]

/-- A list of wishes by the kinds that they name. -/
theorem sum_count (ws : List (Option κ)) : ∑ m, ws.count m = ws.length := by
  have hsum := sum_supply id ws
  simpa only [supply, List.map_id] using hsum

/-- **No kind gives more** than the wishes that can reach it. -/
theorem supply_taken_le (ws : List (Option κ)) (pool : List α) (k : Option κ) :
    supply kind (taken kind ws pool) k ≤ reach kind ws pool k := by
  have hlength : (taken kind ws pool).length ≤ ws.length := by
    rw [length_taken]
    exact Nat.min_le_left _ _
  rw [← sum_supply kind, ← sum_count] at hlength
  have hothers : ∑ m, ws.count m ≤
      ∑ m, (if m = k then 0 else supply kind (taken kind ws pool) m) + reach kind ws pool k := by
    rw [reach, ← Finset.sum_add_distrib]
    refine Finset.sum_le_sum fun m _ => ?_
    by_cases hm : m = none ∨ m = k
    · rw [if_pos hm]
      omega
    · rw [if_neg hm, if_neg fun h => hm (Or.inr h)]
      obtain ⟨n, rfl⟩ := Option.ne_none_iff_exists'.mp fun h => hm (Or.inl h)
      have hmin := min_le_supply_taken kind ws pool n
      omega
  have hsplit : ∑ m, supply kind (taken kind ws pool) m = supply kind (taken kind ws pool) k +
      ∑ m, if m = k then 0 else supply kind (taken kind ws pool) m := by
    rw [Finset.sum_ite, Finset.sum_const_zero, Nat.zero_add,
      ← Finset.add_sum_erase _ _ (Finset.mem_univ k), Finset.filter_ne']
  omega

/-- The reach only goes by what the pool has of each kind. -/
theorem reach_congr {pool' : List α} (h : ∀ m, supply kind pool (some m) = supply kind pool' (some m))
    (ws : List (Option κ)) (k : Option κ) : reach kind ws pool k = reach kind ws pool' k := by
  unfold reach
  refine Finset.sum_congr rfl fun m _ => ?_
  cases m with
  | none => simp
  | some m => rw [h m]

/-- One more wish reaches a kind at most once more. -/
theorem reach_cons_le (w : Option κ) (ws : List (Option κ)) (pool : List α) (k : Option κ) :
    reach kind (w :: ws) pool k ≤ reach kind ws pool k + 1 := by
  have hone : 1 = ∑ m, if m = w then 1 else 0 := by simp
  unfold reach
  rw [hone, ← Finset.sum_add_distrib]
  refine Finset.sum_le_sum fun m _ => ?_
  by_cases hm : m = w
  · subst hm
    rw [List.count_cons_self, if_pos rfl]
    split <;> omega
  · rw [List.count_cons_of_ne (Ne.symm hm), if_neg hm]
    omega

/-- A wish that its own kind serves reaches no other. -/
theorem reach_cons_of_served {m : κ} (hm : some m ≠ k) {a : α} {pool' : List α}
    (hperm : pool.Perm (a :: pool')) (hkind : kind a = some m) (ws : List (Option κ)) :
    reach kind (some m :: ws) pool k = reach kind ws pool' k := by
  unfold reach
  refine Finset.sum_congr rfl fun n _ => ?_
  rw [supply_eq_of_perm kind hperm, supply_cons, hkind]
  by_cases hn : n = some m
  · subst hn
    have hother : ¬(some m = none ∨ some m = k) := by simp [hm]
    rw [List.count_cons_self, if_neg hother, if_neg hother, if_pos rfl]
    omega
  · rw [List.count_cons_of_ne (Ne.symm hn), if_neg (Ne.symm hn), Nat.add_zero]

/-- Elements of the kind itself do not matter for its reach. -/
theorem reach_cons_pool {a : α} (hkind : kind a = k) (ws : List (Option κ)) :
    reach kind ws (a :: pool) k = reach kind ws pool k := by
  unfold reach
  refine Finset.sum_congr rfl fun n _ => ?_
  by_cases hn : n = none ∨ n = k
  · rw [if_pos hn, if_pos hn]
  · rw [if_neg hn, if_neg hn, supply_cons, hkind, if_neg fun h => hn (Or.inr h.symm), Nat.add_zero]

/-- **The bound is met:** elements of one kind that stand first are taken until they run out. -/
theorem min_le_countP_taken {P : α → Bool} {S R : List α} (hS : ∀ a ∈ S, P a = true)
    (hkind : ∀ a ∈ S, kind a = k) (ws : List (Option κ)) :
    min S.length (reach kind ws (S ++ R) k) ≤ (taken kind ws (S ++ R)).countP P := by
  induction ws generalizing S R with
  | nil => simp [reach]
  | cons w ws ih =>
    cases S with
    | nil => simp
    | cons a S =>
      have ha := hkind a List.mem_cons_self
      have hhead : pick kind w (a :: (S ++ R)) = some a ∧ rest kind w (a :: (S ++ R)) = S ++ R →
          min (a :: S).length (reach kind (w :: ws) (a :: S ++ R) k) ≤
            (taken kind (w :: ws) (a :: S ++ R)).countP P := by
        intro ⟨hpick, hleft⟩
        have hrest := @ih S R (fun b hb => hS b (List.mem_cons_of_mem a hb))
          fun b hb => hkind b (List.mem_cons_of_mem a hb)
        have hle := reach_cons_le kind w ws (S ++ R) k
        rw [List.cons_append, reach_cons_pool kind ha, taken_cons, hpick, hleft,
          Option.toList_some, List.singleton_append,
          List.countP_cons_of_pos (hS a List.mem_cons_self), List.length_cons]
        omega
      by_cases hfit : fits kind w a = true
      · exact hhead (pick_cons_of_fits kind hfit)
      · have hnofit : ∀ b ∈ a :: S, fits kind w b = false := by
          intro b hb
          simpa [fits, hkind b hb, ha] using hfit
        by_cases hfits : ∃ b ∈ R, fits kind w b = true
        · -- Another kind serves its own wish.
          obtain ⟨b, hb, hfitb⟩ := hfits
          obtain ⟨m, rfl⟩ : ∃ m, w = some m := by
            cases w with
            | none => simp at hfitb
            | some m => exact ⟨m, rfl⟩
          obtain ⟨hpick, hleft⟩ := pick_append_of_fits kind hnofit hb hfitb
          obtain ⟨c, _, hc, hckind⟩ := kind_of_pick kind hb ((fits_some kind m b).mp hfitb)
          have hperm : (c :: (a :: S ++ rest kind (some m) R)).Perm (a :: S ++ R) := by
            have hperm := pick_perm kind (some m) (a :: S ++ R)
            rwa [hpick, hc, hleft] at hperm
          have hne : some m ≠ k := by
            rintro rfl
            exact hfit ((fits_some kind m a).mpr ha)
          have hrest := @ih (a :: S) (rest kind (some m) R) hS hkind
          rw [reach_cons_of_served kind hne hperm.symm hckind, taken_cons, hleft,
            List.countP_append]
          omega
        · -- Nothing fits, and the head of the pool is taken.
          push Not at hfits
          refine hhead (pick_cons_of_not_fits kind fun b hb => ?_)
          rcases List.mem_append.mp (show b ∈ (a :: S) ++ R from hb) with hb | hb
          · exact hnofit b hb
          · simpa using hfits b hb

/-- Elements of one kind that stand first, and that enough wishes can reach, are all taken. -/
theorem supply_left_eq_zero {S R : List α} (hS : ∀ a ∈ S, kind a = k)
    (hR : ∀ a ∈ R, kind a ≠ k) (hlength : S.length ≤ reach kind ws (S ++ R) k) :
    supply kind (left kind ws (S ++ R)) k = 0 := by
  have hmin := min_le_countP_taken kind (P := fun a => kind a == k) (R := R)
    (fun a ha => by simp [hS a ha]) hS ws
  have hcount : (taken kind ws (S ++ R)).countP (fun a => kind a == k) =
      supply kind (taken kind ws (S ++ R)) k := by
    rw [supply, List.count, List.countP_map]
    rfl
  have hsplit := supply_eq_taken_add_left kind ws (S ++ R) k
  rw [supply_append, supply_eq_length kind hS, (supply_eq_zero_iff kind).mpr hR] at hsplit
  omega

end Bound

end Picking
