import Mathlib.Data.List.Nodup

/-!
# Tables with a primary key

A table is a finite list of rows in insertion order, no two of which share a
primary key. The uniqueness is a field of the table, so every statement below
keeps it and no later argument has to assume it.
-/

namespace Database

/-- The primary key of a row type. -/
class Keyed (κ : outParam Type) (ρ : Type) where
  /-- The key of one row. -/
  key : ρ → κ

export Keyed (key)

/-- What the object mapper's `save` leaves in a column: the value in memory when it
differs from the row that was read again, else the value of the row. -/
def saved {α : Type} [DecidableEq α] (entity reread row : α) : α :=
  if entity = reread then row else entity

/-- When the row has not changed since it was read again, `save` leaves the value in memory. -/
theorem saved_current {α : Type} [DecidableEq α] (entity row : α) :
    saved entity row row = entity := by
  unfold saved
  split
  · rename_i h
    exact h.symm
  · rfl

/-- A table: rows in insertion order with pairwise distinct primary keys. -/
structure Table (κ ρ : Type) [Keyed κ ρ] where
  /-- The rows, oldest first. -/
  rows : List ρ
  /-- No two rows share a primary key. -/
  nodup : (rows.map key).Nodup

namespace Table

variable {κ ρ : Type} [Keyed κ ρ] [DecidableEq κ]

/-- The table without rows. -/
def empty : Table κ ρ := ⟨[], by simp⟩

/-- The row with a given primary key. -/
def find (t : Table κ ρ) (k : κ) : Option ρ := t.rows.find? fun r => key r = k

/-- The rows that satisfy a condition, in insertion order. -/
def filter (t : Table κ ρ) (p : ρ → Bool) : List ρ := t.rows.filter p

/-- `UPDATE` of the row with a given primary key by a change that keeps the key. -/
def modify (t : Table κ ρ) (k : κ) (f : ρ → ρ) (hf : ∀ r, key (f r) = key r := by intro; rfl) :
    Table κ ρ where
  rows := t.rows.map fun r => if key r = k then f r else r
  nodup := by
    have hkeys : (t.rows.map fun r => if key r = k then f r else r).map key = t.rows.map key := by
      rw [List.map_map]
      apply List.map_congr_left
      intro r _
      by_cases hr : key r = k <;> simp [hr, hf]
    rw [hkeys]
    exact t.nodup

/-- `UPDATE` of all rows by a change that keeps the key. -/
def modifyAll (t : Table κ ρ) (f : ρ → ρ)
    (hf : ∀ r, key (f r) = key r := by intro; split <;> rfl) : Table κ ρ where
  rows := t.rows.map f
  nodup := by
    have hkeys : (t.rows.map f).map key = t.rows.map key := by
      rw [List.map_map]
      exact List.map_congr_left fun r _ => hf r
    rw [hkeys]
    exact t.nodup

/-- `INSERT` of a row. A row whose key is already taken leaves the table as it
is; the statements that model `INSERT` test for that case before. -/
def insert (t : Table κ ρ) (r : ρ) : Table κ ρ :=
  if h : key r ∈ t.rows.map key then t
  else ⟨t.rows ++ [r], by
    simp only [List.map_append, List.map_cons, List.map_nil, List.nodup_append]
    refine ⟨t.nodup, by simp, ?_⟩
    intro a ha b hb hab
    simp only [List.mem_singleton] at hb
    exact h (hb ▸ hab ▸ ha)⟩

/-- `DELETE` of the rows that satisfy a condition. -/
def delete (t : Table κ ρ) (p : ρ → Bool) : Table κ ρ where
  rows := t.rows.filter fun r => !p r
  nodup := t.nodup.sublist ((List.filter_sublist).map key)

/-- A row that is found carries the key it was looked up by. -/
theorem key_of_find {t : Table κ ρ} {k : κ} {r : ρ} (h : t.find k = some r) : key r = k := by
  simpa using List.find?_some h

/-- A row that is found is a row of the table. -/
theorem mem_of_find {t : Table κ ρ} {k : κ} {r : ρ} (h : t.find k = some r) : r ∈ t.rows :=
  List.mem_of_find?_eq_some h

/-- Keys are unique, so every row of the table is found under its own key. -/
theorem find_of_mem {t : Table κ ρ} {r : ρ} (h : r ∈ t.rows) : t.find (key r) = some r := by
  obtain ⟨rows, nodup⟩ := t
  simp only [find]
  induction rows with
  | nil => simp at h
  | cons a rows ih =>
    simp only [List.map_cons, List.nodup_cons] at nodup
    rcases List.mem_cons.mp h with rfl | hr
    · simp
    · have hne : key a ≠ key r := fun heq => nodup.1 (heq ▸ List.mem_map_of_mem hr)
      rw [List.find?_cons_of_neg (by simpa using hne)]
      exact ih nodup.2 hr

/-- A key that is not found belongs to no row. -/
theorem find_eq_none {t : Table κ ρ} {k : κ} : t.find k = none ↔ ∀ r ∈ t.rows, key r ≠ k := by
  simp [find]

/-- Two rows of a table with the same key are the same row. -/
theorem eq_of_key_eq {t : Table κ ρ} {a b : ρ} (ha : a ∈ t.rows) (hb : b ∈ t.rows)
    (h : key a = key b) : a = b := by
  have hfa := find_of_mem ha
  rw [h, find_of_mem hb] at hfa
  exact (Option.some.inj hfa).symm

omit [DecidableEq κ] in
/-- Two tables with the same rows are the same. -/
theorem ext_rows {a b : Table κ ρ} (h : a.rows = b.rows) : a = b := by
  cases a
  cases b
  cases h
  rfl

/-- An update that changes no column changes nothing. -/
theorem modify_of_fixed (t : Table κ ρ) (k : κ) (f : ρ → ρ) (hf : ∀ r, key (f r) = key r)
    (hfixed : ∀ r, f r = r) : t.modify k f hf = t := by
  apply ext_rows
  simp [modify, hfixed]

/-- Looking a key up after an update of all rows. -/
theorem find_modifyAll (t : Table κ ρ) (f : ρ → ρ) (hf : ∀ r, key (f r) = key r) (k : κ) :
    (t.modifyAll f hf).find k = (t.find k).map f := by
  unfold find modifyAll
  rw [List.find?_map]
  congr 2
  funext r
  simp [hf]

/-- Looking a key up after an update of row `k`. -/
theorem find_modify (t : Table κ ρ) (k k' : κ) (f : ρ → ρ) (hf : ∀ r, key (f r) = key r) :
    (t.modify k f hf).find k' = if k' = k then (t.find k').map f else t.find k' := by
  obtain ⟨rows, nodup⟩ := t
  simp only [find, modify]
  clear nodup
  induction rows with
  | nil => simp
  | cons a rows ih =>
    by_cases ha : key a = k <;> by_cases hk : key a = k' <;>
      by_cases hkk : k' = k <;> simp_all

/-- The rows selected after an update of row `k`, when the update neither takes this row into
the selection nor out of it. -/
theorem filter_modify_of_find (t : Table κ ρ) (k : κ) (f : ρ → ρ)
    (hf : ∀ r, key (f r) = key r) (p : ρ → Bool)
    (hp : ∀ r, t.find k = some r → p (f r) = p r) :
    (t.modify k f hf).filter p = (t.filter p).map fun r => if key r = k then f r else r := by
  have hsame : ∀ r ∈ t.rows, p (if key r = k then f r else r) = p r := by
    intro r hr
    split
    · rename_i hkey
      exact hp r (hkey ▸ find_of_mem hr)
    · rfl
  simp only [filter, modify, List.filter_map]
  congr 1
  apply List.filter_congr
  intro r hr
  exact hsame r hr

/-- The rows selected after an update of row `k`, for a selection the update
cannot enter or leave. -/
theorem filter_modify (t : Table κ ρ) (k : κ) (f : ρ → ρ) (hf : ∀ r, key (f r) = key r)
    (p : ρ → Bool) (hp : ∀ r, p (f r) = p r) :
    (t.modify k f hf).filter p = (t.filter p).map fun r => if key r = k then f r else r :=
  filter_modify_of_find t k f hf p fun r _ => hp r

/-- An update of row `k` does not touch a selection that row `k` is not part of. -/
theorem filter_modify_of_not_mem (t : Table κ ρ) (k : κ) (f : ρ → ρ)
    (hf : ∀ r, key (f r) = key r) (p : ρ → Bool) (hp : ∀ r, p (f r) = p r)
    (hk : ∀ r, t.find k = some r → p r = false) :
    (t.modify k f hf).filter p = t.filter p := by
  rw [filter_modify t k f hf p hp]
  conv_rhs => rw [← List.map_id (t.filter p)]
  apply List.map_congr_left
  intro r hr
  obtain ⟨hmem, hpr⟩ := List.mem_filter.mp hr
  have hne : key r ≠ k := by
    intro heq
    have hfalse := hk r (heq ▸ find_of_mem hmem)
    rw [hfalse] at hpr
    exact Bool.false_ne_true hpr
  simp [hne]

/-- Looking a key up after an insert of a row with a fresh key. -/
theorem find_insert (t : Table κ ρ) (r : ρ) (k : κ) (h : t.find (key r) = none) :
    (t.insert r).find k = if k = key r then some r else t.find k := by
  have hfresh : key r ∉ t.rows.map key := by
    intro hmem
    obtain ⟨a, ha, heq⟩ := List.mem_map.mp hmem
    exact find_eq_none.mp h a ha heq
  simp only [insert, hfresh, dite_false, find, List.find?_append]
  by_cases hk : k = key r
  · subst hk
    have hnone : t.rows.find? (fun a => key a = key r) = none := h
    simp [hnone]
  · have hne : ¬ key r = k := fun heq => hk heq.symm
    simp [hk, hne]

/-- An insert does not touch the other keys. -/
theorem find_insert_of_ne (t : Table κ ρ) (r : ρ) (k : κ) (h : k ≠ key r) :
    (t.insert r).find k = t.find k := by
  unfold insert
  split
  · rfl
  · have hne : ¬ key r = k := fun heq => h heq.symm
    simp [find, List.find?_append, hne]

/-- An insert keeps every row. -/
theorem find_insert_of_some (t : Table κ ρ) (r a : ρ) (k : κ) (h : t.find k = some a) :
    (t.insert r).find k = some a := by
  unfold insert
  split
  · exact h
  · have hfirst : t.rows.find? (fun b => key b = k) = some a := h
    simp [find, List.find?_append, hfirst]

/-- `INSERT ... ON CONFLICT DO UPDATE`. -/
def upsert (t : Table κ ρ) (r : ρ) (f : ρ → ρ) (hf : ∀ a, key (f a) = key a := by intro; rfl) :
    Table κ ρ :=
  if (t.find (key r)).isSome then t.modify (key r) f hf else t.insert r

/-- Looking a key up after an upsert. -/
theorem find_upsert (t : Table κ ρ) (r : ρ) (f : ρ → ρ) (hf : ∀ a, key (f a) = key a) (k : κ) :
    (t.upsert r f hf).find k =
      if k = key r then some (((t.find k).map f).getD r) else t.find k := by
  unfold upsert
  cases hfind : t.find (key r) with
  | some a =>
    simp only [Option.isSome_some, if_true]
    rw [find_modify]
    by_cases hk : k = key r
    · rw [if_pos hk, if_pos hk, hk, hfind]
      rfl
    · rw [if_neg hk, if_neg hk]
  | none =>
    simp only [Option.isSome_none, Bool.false_eq_true, if_false]
    rw [find_insert _ _ _ hfind]
    by_cases hk : k = key r
    · rw [if_pos hk, if_pos hk, hk, hfind]
      rfl
    · rw [if_neg hk, if_neg hk]

/-- The rows of a table after an upsert. -/
theorem of_mem_upsert {t : Table κ ρ} {r : ρ} {f : ρ → ρ} {hf : ∀ a, key (f a) = key a}
    {p : ρ → Prop} (ht : ∀ a ∈ t.rows, p a) (hr : p r) (hset : ∀ a, p (f a)) :
    ∀ a ∈ (t.upsert r f hf).rows, p a := by
  intro a ha
  unfold upsert at ha
  split at ha
  · obtain ⟨b, hb, rfl⟩ := List.mem_map.mp ha
    split
    · exact hset b
    · exact ht b hb
  · unfold insert at ha
    split at ha
    · exact ht a ha
    · rcases List.mem_append.mp ha with ha | ha
      · exact ht a ha
      · exact List.mem_singleton.mp ha ▸ hr

/-- One `INSERT ... ON CONFLICT DO UPDATE` of several rows; `set r` is what the update with the
row `r` makes of the row that is there. -/
def upsertAll (t : Table κ ρ) (set : ρ → ρ → ρ) (hset : ∀ r a, key (set r a) = key a)
    (rows : List ρ) : Table κ ρ :=
  rows.foldl (fun t r => t.upsert r (set r) (hset r)) t

/-- The rows of a table after an upsert of several rows. -/
theorem of_mem_upsertAll {set : ρ → ρ → ρ} {hset : ∀ r a, key (set r a) = key a} {p : ρ → Prop}
    (rows : List ρ) {t : Table κ ρ} (ht : ∀ a ∈ t.rows, p a) (hr : ∀ r ∈ rows, p r)
    (hp : ∀ r ∈ rows, ∀ a, p (set r a)) : ∀ a ∈ (t.upsertAll set hset rows).rows, p a := by
  induction rows generalizing t with
  | nil => exact ht
  | cons r rows ih =>
    refine ih ?_ (fun b hb => hr b (List.mem_cons_of_mem r hb))
      fun b hb => hp b (List.mem_cons_of_mem r hb)
    exact of_mem_upsert ht (hr r (List.mem_cons_self ..)) (hp r (List.mem_cons_self ..))

/-- An upsert of several rows leaves the other keys alone. -/
theorem find_upsertAll_of_notMem (t : Table κ ρ) (set : ρ → ρ → ρ)
    (hset : ∀ r a, key (set r a) = key a) (rows : List ρ) (k : κ) (h : k ∉ rows.map key) :
    (t.upsertAll set hset rows).find k = t.find k := by
  induction rows generalizing t with
  | nil => rfl
  | cons r rows ih =>
    simp only [List.map_cons, List.mem_cons, not_or] at h
    refine (ih _ h.2).trans ?_
    rw [find_upsert, if_neg h.1]

/-- An upsert of several rows with distinct keys sets or adds each of them. -/
theorem find_upsertAll_of_mem (t : Table κ ρ) (set : ρ → ρ → ρ)
    (hset : ∀ r a, key (set r a) = key a) {rows : List ρ} (hnodup : (rows.map key).Nodup) {r : ρ}
    (hr : r ∈ rows) :
    (t.upsertAll set hset rows).find (key r) = some (((t.find (key r)).map (set r)).getD r) := by
  induction rows generalizing t with
  | nil => cases hr
  | cons a rows ih =>
    obtain ⟨hfirst, hrest⟩ := List.nodup_cons.mp hnodup
    rcases List.mem_cons.mp hr with rfl | hr
    · refine (find_upsertAll_of_notMem _ set hset rows _ hfirst).trans ?_
      rw [find_upsert, if_pos rfl]
    · have hne : key r ≠ key a := fun heq => hfirst (heq ▸ List.mem_map_of_mem hr)
      refine (ih _ hrest hr).trans ?_
      rw [find_upsert, if_neg hne]

/-- An upsert of several rows keeps every key. -/
theorem isSome_find_upsertAll (t : Table κ ρ) (set : ρ → ρ → ρ)
    (hset : ∀ r a, key (set r a) = key a) (rows : List ρ) (k : κ) (h : (t.find k).isSome) :
    ((t.upsertAll set hset rows).find k).isSome := by
  induction rows generalizing t with
  | nil => exact h
  | cons r rows ih =>
    refine ih _ ?_
    rw [find_upsert]
    split
    · rfl
    · exact h

/-- Several inserts keep every row. -/
theorem find_insertAll_of_some (t : Table κ ρ) (rows : List ρ) (a : ρ) (k : κ)
    (h : t.find k = some a) : (rows.foldl insert t).find k = some a := by
  induction rows generalizing t with
  | nil => exact h
  | cons r rows ih => exact ih _ (find_insert_of_some t r a k h)

/-- Several inserts of rows with fresh and distinct keys insert each of them. -/
theorem find_insertAll_of_mem (t : Table κ ρ) (rows : List ρ)
    (hfree : ∀ r ∈ rows, t.find (key r) = none) (hnodup : (rows.map key).Nodup) {r : ρ}
    (hr : r ∈ rows) : (rows.foldl insert t).find (key r) = some r := by
  induction rows generalizing t with
  | nil => cases hr
  | cons a rows ih =>
    obtain ⟨hfirst, hrest⟩ := List.nodup_cons.mp hnodup
    have hinsert := find_insert t a
    rw [List.foldl_cons]
    rcases List.mem_cons.mp hr with rfl | hr
    · refine find_insertAll_of_some _ _ _ _ ?_
      rw [hinsert _ (hfree r (List.mem_cons_self ..)), if_pos rfl]
    · refine ih _ (fun b hb => ?_) hrest hr
      have hne : key b ≠ key a := fun heq => hfirst (heq ▸ List.mem_map_of_mem hb)
      rw [hinsert _ (hfree a (List.mem_cons_self ..)), if_neg hne]
      exact hfree b (List.mem_cons_of_mem a hb)

/-- The rows selected after an insert of a row with a fresh key. -/
theorem filter_insert (t : Table κ ρ) (r : ρ) (p : ρ → Bool) (h : t.find (key r) = none) :
    (t.insert r).filter p = t.filter p ++ if p r then [r] else [] := by
  have hfresh : key r ∉ t.rows.map key := by
    intro hmem
    obtain ⟨a, ha, heq⟩ := List.mem_map.mp hmem
    exact find_eq_none.mp h a ha heq
  simp only [insert, hfresh, dite_false, filter, List.filter_append]
  by_cases hp : p r = true <;> simp [hp]

/-- An insert does not change a selection that the new row is not part of. -/
theorem filter_insert_of_not (t : Table κ ρ) (r : ρ) (p : ρ → Bool) (h : p r = false) :
    (t.insert r).filter p = t.filter p := by
  unfold insert
  split
  · rfl
  · simp [filter, List.filter_append, h]

/-- Several inserts do not change a selection that no new row is part of. -/
theorem filter_insertAll_of_not (t : Table κ ρ) (rows : List ρ) (p : ρ → Bool)
    (h : ∀ r ∈ rows, p r = false) : (rows.foldl insert t).filter p = t.filter p := by
  induction rows generalizing t with
  | nil => rfl
  | cons r rows ih =>
    rw [List.foldl_cons, ih _ fun a ha => h a (List.mem_cons_of_mem r ha)]
    exact filter_insert_of_not t r p (h r (List.mem_cons_self ..))

/-- Several inserts of rows with distinct free keys append them to a selection that they are part
of. -/
theorem filter_insertAll_of_fresh (t : Table κ ρ) (rows : List ρ) (p : ρ → Bool)
    (hp : ∀ r ∈ rows, p r = true) (hnodup : (rows.map key).Nodup)
    (hfresh : ∀ r ∈ rows, t.find (key r) = none) :
    (rows.foldl insert t).filter p = t.filter p ++ rows := by
  induction rows generalizing t with
  | nil => simp
  | cons r rows ih =>
    obtain ⟨hr, hrest⟩ := List.nodup_cons.mp hnodup
    have hfree : ∀ a ∈ rows, (t.insert r).find (key a) = none := by
      intro a ha
      have hne : key a ≠ key r := fun heq => hr (heq ▸ List.mem_map_of_mem ha)
      rw [find_insert_of_ne _ _ _ hne]
      exact hfresh a (List.mem_cons_of_mem r ha)
    rw [List.foldl_cons, ih _ (fun a ha => hp a (List.mem_cons_of_mem r ha)) hrest hfree,
      filter_insert _ _ _ (hfresh r List.mem_cons_self), if_pos (hp r List.mem_cons_self),
      List.append_assoc, List.singleton_append]

omit [DecidableEq κ] in
/-- A delete does not change a selection that it takes no row from. -/
theorem filter_delete_of_not (t : Table κ ρ) (q p : ρ → Bool)
    (h : ∀ r, q r = true → p r = false) : (t.delete q).filter p = t.filter p := by
  simp only [filter, delete, List.filter_filter]
  apply List.filter_congr
  intro r _
  cases hq : q r with
  | true => simp [h r hq]
  | false => simp

omit [DecidableEq κ] in
/-- A delete that takes a whole selection leaves nothing of it. -/
theorem filter_delete_of_all (t : Table κ ρ) (q p : ρ → Bool)
    (h : ∀ r ∈ t.rows, p r = true → q r = true) : (t.delete q).filter p = [] := by
  simp only [filter, delete, List.filter_filter, List.filter_eq_nil_iff]
  intro r hr
  cases hp : p r with
  | true => simp [h r hr hp]
  | false => simp

/-- A selection whose rows all have the key of one of them is this row. -/
theorem filter_eq_singleton {t : Table κ ρ} {p : ρ → Bool} {r : ρ} (hr : r ∈ t.rows)
    (hp : p r = true) (hall : ∀ a ∈ t.rows, p a = true → key a = key r) : t.filter p = [r] := by
  have hnodup : (t.filter p).Nodup := (List.Nodup.of_map key t.nodup).filter p
  have hmem : r ∈ t.filter p := List.mem_filter.mpr ⟨hr, hp⟩
  have hsame : ∀ a ∈ t.filter p, a = r := by
    intro a ha
    obtain ⟨ha, hpa⟩ := List.mem_filter.mp ha
    exact eq_of_key_eq ha hr (hall a ha hpa)
  by_contra hne
  obtain ⟨a, ha, hother⟩ := (hnodup.ne_singleton_iff r).mp hne |>.resolve_left
    (List.ne_nil_of_mem hmem)
  exact hother (hsame a ha)

/-- Several inserts into a selection: of the rows whose key is free, the first one of each key
is added. -/
theorem filter_insertAll (t : Table κ ρ) (rows : List ρ) (p : ρ → Bool) (same : ρ → ρ → Bool)
    (hp : ∀ r ∈ rows, p r = true)
    (hsame : ∀ a ∈ rows, ∀ b ∈ rows, same a b = decide (key a = key b)) :
    (rows.foldl insert t).filter p =
      t.filter p ++ (rows.filter fun r => (t.find (key r)).isNone).eraseDupsBy same := by
  induction rows generalizing t with
  | nil => simp
  | cons r rows ih =>
    have hrest := ih (t.insert r) (fun a ha => hp a (List.mem_cons_of_mem r ha))
      fun a ha b hb => hsame a (List.mem_cons_of_mem r ha) b (List.mem_cons_of_mem r hb)
    rw [List.foldl_cons, hrest]
    cases hfind : t.find (key r) with
    | some a =>
      -- the key is taken: the row is dropped
      have htaken : key r ∈ t.rows.map key :=
        List.mem_map.mpr ⟨a, mem_of_find hfind, key_of_find hfind⟩
      have hinsert : t.insert r = t := by simp [insert, htaken]
      rw [hinsert, List.filter_cons_of_neg (by simp [hfind])]
    | none =>
      have hfree : (rows.filter fun a => ((t.insert r).find (key a)).isNone) =
          (rows.filter fun a => (t.find (key a)).isNone).filter fun a => same a r = false := by
        rw [List.filter_filter]
        apply List.filter_congr
        intro a ha
        rw [hsame a (List.mem_cons_of_mem r ha) r (List.mem_cons_self ..), find_insert _ _ _ hfind]
        by_cases hkey : key a = key r <;> simp [hkey]
      rw [filter_insert _ _ _ hfind, if_pos (hp r (List.mem_cons_self ..)),
        List.filter_cons_of_pos (by simp [hfind]), List.eraseDupsBy_cons, hfree,
        List.append_assoc, List.singleton_append]

omit [DecidableEq κ] in
/-- The rows of a table after a delete are the rows that the condition spares. -/
theorem mem_delete {t : Table κ ρ} {p : ρ → Bool} {r : ρ} :
    r ∈ (t.delete p).rows ↔ r ∈ t.rows ∧ p r = false := by
  simp [delete]

/-- The rows of a table after an insert are old rows or the new one. -/
theorem mem_insert {t : Table κ ρ} {r a : ρ} (h : a ∈ (t.insert r).rows) : a ∈ t.rows ∨ a = r := by
  unfold insert at h
  split at h
  · exact .inl h
  · simpa using h

/-- The rows of a table after several inserts are old rows or new ones. -/
theorem mem_insertAll {t : Table κ ρ} {rows : List ρ} {a : ρ}
    (h : a ∈ (rows.foldl insert t).rows) : a ∈ t.rows ∨ a ∈ rows := by
  induction rows generalizing t with
  | nil => exact .inl h
  | cons r rows ih =>
    rcases ih h with hold | hnew
    · rcases mem_insert hold with hold | rfl
      · exact .inl hold
      · exact .inr (List.mem_cons_self ..)
    · exact .inr (List.mem_cons_of_mem r hnew)

/-- Several inserts keep the rows of a table. -/
theorem subset_insertAll (t : Table κ ρ) (rows : List ρ) :
    t.rows ⊆ (rows.foldl insert t).rows := by
  intro a ha
  exact mem_of_find (find_insertAll_of_some t rows a (key a) (find_of_mem ha))

end Table

end Database
