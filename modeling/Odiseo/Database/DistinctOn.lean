import Odiseo.Database.Table
import Mathlib.Data.List.Sort
import Mathlib.Data.Prod.Lex

/-!
# Removing duplicates

`SELECT DISTINCT ON` keeps the first row of each group in the order of the query. A `DELETE` of all
other rows leaves a table in which no two rows are of one group, each group being left with its
least row. A unique index holds of a table exactly when no two of the rows that it covers have the
same key.
-/

namespace Database

section Rows

variable {α κ ρ : Type} [LinearOrder κ] [LinearOrder ρ] {group : α → κ} {rank : α → ρ}

/-- The first row of each group that has not been seen. -/
def distinctFrom (group : α → κ) : List κ → List α → List α
  | _, [] => []
  | seen, r :: rows =>
    if group r ∈ seen then distinctFrom group seen rows
    else r :: distinctFrom group (group r :: seen) rows

/-- `SELECT DISTINCT ON (group) ... ORDER BY group, rank`. -/
def distinctOn (group : α → κ) (rank : α → ρ) (rows : List α) : List α :=
  distinctFrom group [] (rows.insertionSort fun r s =>
    toLex (group r, rank r) ≤ toLex (group s, rank s))

/-- A row that is selected is the first one of its group. -/
theorem of_mem_distinctFrom {before : α → α → Prop} {seen : List κ} {rows : List α}
    (hrefl : ∀ r, before r r) (hsorted : rows.Pairwise before) {r : α}
    (hr : r ∈ distinctFrom group seen rows) :
    r ∈ rows ∧ group r ∉ seen ∧ ∀ s ∈ rows, group s = group r → before r s := by
  induction rows generalizing seen with
  | nil => cases hr
  | cons a rows ih =>
    obtain ⟨hfirst, hrest⟩ := List.pairwise_cons.mp hsorted
    rw [distinctFrom] at hr
    split at hr
    · rename_i ha
      obtain ⟨hmem, hseen, hleast⟩ := ih hrest hr
      refine ⟨List.mem_cons_of_mem _ hmem, hseen, fun s hs hgroup => ?_⟩
      rcases List.mem_cons.mp hs with rfl | hs
      · exact absurd (hgroup ▸ ha) hseen
      · exact hleast s hs hgroup
    · rename_i ha
      rcases List.mem_cons.mp hr with rfl | hr
      · refine ⟨List.mem_cons_self .., ha, fun s hs _ => ?_⟩
        rcases List.mem_cons.mp hs with rfl | hs
        · exact hrefl s
        · exact hfirst s hs
      · obtain ⟨hmem, hseen, hleast⟩ := ih hrest hr
        obtain ⟨hne, hseen⟩ := not_or.mp (mt List.mem_cons.mpr hseen)
        refine ⟨List.mem_cons_of_mem _ hmem, hseen, fun s hs hgroup => ?_⟩
        rcases List.mem_cons.mp hs with rfl | hs
        · exact absurd hgroup.symm hne
        · exact hleast s hs hgroup

/-- Each group that has not been seen is selected from. -/
theorem exists_mem_distinctFrom {seen : List κ} {rows : List α} {r : α} (hr : r ∈ rows)
    (hseen : group r ∉ seen) : ∃ s ∈ distinctFrom group seen rows, group s = group r := by
  induction rows generalizing seen with
  | nil => cases hr
  | cons a rows ih =>
    rw [distinctFrom]
    split
    · rename_i ha
      rcases List.mem_cons.mp hr with rfl | hr
      · exact absurd ha hseen
      · exact ih hr hseen
    · by_cases hgroup : group a = group r
      · exact ⟨a, List.mem_cons_self .., hgroup⟩
      · have hr : r ∈ rows := (List.mem_cons.mp hr).resolve_left fun h => hgroup (h ▸ rfl)
        obtain ⟨s, hs, hsame⟩ := ih hr fun h =>
          (List.mem_cons.mp h).elim (fun h => hgroup h.symm) hseen
        exact ⟨s, List.mem_cons_of_mem _ hs, hsame⟩

/-- **`DISTINCT ON`** selects the least rows of the groups, when rows of the same rank are the
same. -/
theorem mem_distinctOn {rows : List α}
    (hrank : ∀ r ∈ rows, ∀ s ∈ rows, rank r = rank s → r = s) {r : α} :
    r ∈ distinctOn group rank rows ↔
      r ∈ rows ∧ ∀ s ∈ rows, group s = group r → rank r ≤ rank s := by
  let before : α → α → Prop := fun r s => toLex (group r, rank r) ≤ toLex (group s, rank s)
  have hrefl (r : α) : before r r := le_refl (toLex (group r, rank r))
  have hsorted : (rows.insertionSort before).Pairwise before := List.pairwise_insertionSort ..
  have hmem (s : α) : s ∈ rows.insertionSort before ↔ s ∈ rows := List.mem_insertionSort _
  have hbefore {r s : α} (hgroup : group s = group r) : before r s ↔ rank r ≤ rank s := by
    simp [before, Prod.Lex.toLex_le_toLex, hgroup]
  constructor
  · intro hr
    obtain ⟨hmemr, -, hleast⟩ := of_mem_distinctFrom hrefl hsorted hr
    exact ⟨(hmem r).mp hmemr,
      fun s hs hgroup => (hbefore hgroup).mp (hleast s ((hmem s).mpr hs) hgroup)⟩
  · rintro ⟨hr, hleast⟩
    obtain ⟨s, hs, hgroup⟩ : ∃ s ∈ distinctOn group rank rows, group s = group r :=
      exists_mem_distinctFrom ((hmem r).mpr hr) List.not_mem_nil
    obtain ⟨hmems, -, hleasts⟩ := of_mem_distinctFrom hrefl hsorted hs
    have hle : rank s ≤ rank r := (hbefore hgroup.symm).mp (hleasts r ((hmem r).mpr hr) hgroup.symm)
    have hge : rank r ≤ rank s := hleast s ((hmem s).mp hmems) hgroup
    rw [hrank r hr s ((hmem s).mp hmems) (le_antisymm hge hle)]
    exact hs

end Rows

/-- A unique index on the rows that have a key. -/
def UniqueOn {α κ : Type} (index : α → Option κ) (rows : List α) : Prop :=
  (rows.filterMap index).Nodup

instance {α κ : Type} [DecidableEq κ] (index : α → Option κ) (rows : List α) :
    Decidable (UniqueOn index rows) :=
  inferInstanceAs (Decidable (List.Nodup _))

namespace Table

variable {ι α κ ρ : Type} [Keyed ι α] [DecidableEq ι] [LinearOrder κ] [LinearOrder ρ]
variable {group : α → κ} {rank : α → ρ} {t : Table ι α}

/-- `DELETE ... WHERE id NOT IN (ids)`. -/
def keep (t : Table ι α) (ids : List ι) : Table ι α := t.delete fun r => decide (key r ∉ ids)

/-- `DELETE ... WHERE id NOT IN (SELECT DISTINCT ON (group) id ... ORDER BY group, rank)`. -/
def collapse (t : Table ι α) (group : α → κ) (rank : α → ρ) : Table ι α :=
  t.keep ((distinctOn group rank t.rows).map key)

omit [DecidableEq ι] [LinearOrder κ] [LinearOrder ρ] in
/-- Rows of the same rank are the same row, when the rank ends with the primary key. -/
theorem eq_of_rank [DecidableEq ι] (hrank : ∀ r s : α, rank r = rank s → key r = key s) :
    ∀ r ∈ t.rows, ∀ s ∈ t.rows, rank r = rank s → r = s :=
  fun r hr s hs h => eq_of_key_eq hr hs (hrank r s h)

omit [LinearOrder κ] [LinearOrder ρ] in
/-- The rows that a deletion of all but some of them leaves. -/
theorem mem_keep_map {rows : List α} (hsub : rows ⊆ t.rows) {r : α} :
    r ∈ (t.keep (rows.map key)).rows ↔ r ∈ rows := by
  simp only [keep, delete, List.mem_filter, Bool.not_eq_eq_eq_not, Bool.not_true,
    decide_eq_false_iff_not, not_not, List.mem_map]
  constructor
  · rintro ⟨hr, s, hs, hkey⟩
    rwa [eq_of_key_eq hr (hsub hs) hkey.symm]
  · intro hr
    exact ⟨hsub hr, r, hr, rfl⟩

/-- **Collapsing** keeps the least row of each group and nothing else. -/
theorem mem_collapse (hrank : ∀ r s : α, rank r = rank s → key r = key s) {r : α} :
    r ∈ (t.collapse group rank).rows ↔
      r ∈ t.rows ∧ ∀ s ∈ t.rows, group s = group r → rank r ≤ rank s := by
  have hmem {r : α} : r ∈ distinctOn group rank t.rows ↔
      r ∈ t.rows ∧ ∀ s ∈ t.rows, group s = group r → rank r ≤ rank s :=
    mem_distinctOn (eq_of_rank hrank)
  rw [collapse, mem_keep_map fun r hr => (hmem.mp hr).1]
  exact hmem

/-- After the duplicates have been removed, the unique index holds. -/
theorem uniqueOn_collapse (hrank : ∀ r s : α, rank r = rank s → key r = key s) :
    UniqueOn (fun r => some (group r)) (t.collapse group rank).rows := by
  have hmap : (t.collapse group rank).rows.filterMap (fun r => some (group r)) =
      (t.collapse group rank).rows.map group :=
    congrFun List.filterMap_eq_map _
  rw [UniqueOn, hmap, List.nodup_map_iff_inj_on (List.Nodup.of_map _ (Table.nodup _))]
  intro r hr s hs hgroup
  rw [mem_collapse hrank] at hr hs
  exact eq_of_rank hrank r hr.1 s hs.1 (le_antisymm (hr.2 s hs.1 hgroup.symm) (hs.2 r hr.1 hgroup))

/-- `DELETE ... WHERE id NOT IN (SELECT id ... ORDER BY rank LIMIT 1)`. -/
def keepFirst (t : Table ι α) (rank : α → ρ) : Table ι α :=
  t.keep (((t.rows.insertionSort fun r s => rank r ≤ rank s).take 1).map key)

/-- What is left is the least row. -/
theorem mem_keepFirst (hrank : ∀ r s : α, rank r = rank s → key r = key s) {r : α} :
    r ∈ (t.keepFirst rank).rows ↔ r ∈ t.rows ∧ ∀ s ∈ t.rows, rank r ≤ rank s := by
  let before : α → α → Prop := fun r s => rank r ≤ rank s
  have hmem (s : α) : s ∈ t.rows.insertionSort before ↔ s ∈ t.rows := List.mem_insertionSort _
  have hsorted : (t.rows.insertionSort before).Pairwise before := List.pairwise_insertionSort ..
  rw [keepFirst, mem_keep_map fun s hs => (hmem s).mp (List.mem_of_mem_take hs)]
  cases hrows : t.rows.insertionSort before with
  | nil =>
    have hnone : r ∉ t.rows := fun hr => by simpa [hrows] using (hmem r).mpr hr
    simp [hnone]
  | cons a rows =>
    rw [hrows] at hsorted
    have hleast : ∀ s ∈ t.rows, rank a ≤ rank s := by
      intro s hs
      rcases List.mem_cons.mp (hrows ▸ (hmem s).mpr hs) with rfl | hs
      · exact le_rfl
      · exact (List.pairwise_cons.mp hsorted).1 s hs
    have ha : a ∈ t.rows := (hmem a).mp (hrows ▸ List.mem_cons_self ..)
    rw [List.take_succ_cons, List.take_zero, List.mem_singleton]
    constructor
    · rintro rfl
      exact ⟨ha, hleast⟩
    · rintro ⟨hr, hle⟩
      exact eq_of_rank hrank r hr a ha (le_antisymm (hle a ha) (hleast r hr))

/-- No two rows are left. -/
theorem eq_of_mem_keepFirst (hrank : ∀ r s : α, rank r = rank s → key r = key s) {r s : α}
    (hr : r ∈ (t.keepFirst rank).rows) (hs : s ∈ (t.keepFirst rank).rows) : r = s := by
  rw [mem_keepFirst hrank] at hr hs
  exact eq_of_rank hrank r hr.1 s hs.1 (le_antisymm (hr.2 s hs.1) (hs.2 r hr.1))

end Table

end Database
