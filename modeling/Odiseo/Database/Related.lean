import Mathlib.Data.List.Forall2

/-!
# Lists that correspond entry by entry

Two lists correspond when their entries do, place by place: what a row by row reading of
data leaves. The rules to get from the data to its rows and back.
-/

namespace Database.Related

variable {α β γ ε : Type}

/-- A list is related to another one by the graph of a function on the entries that have a
property exactly when they all have it and the second list is the image. -/
theorem forall₂_graph {related : α → β → Prop} {holds : α → Prop} {f : α → β}
    (h : ∀ a b, related a b ↔ holds a ∧ b = f a) (l : List α) (u : List β) :
    List.Forall₂ related l u ↔ (∀ a ∈ l, holds a) ∧ u = l.map f := by
  induction l generalizing u with
  | nil => cases u <;> simp
  | cons a l ih =>
    cases u with
    | nil => simp
    | cons b u =>
      rw [List.forall₂_cons, ih, h]
      simp only [List.mem_cons, forall_eq_or_imp, List.map_cons, List.cons.injEq]
      tauto

/-- An entry of the first list has one of the second list. -/
theorem exists_of_mem_left {related : α → β → Prop} {l : List α} {u : List β}
    (h : List.Forall₂ related l u) {a : α} (ha : a ∈ l) : ∃ b ∈ u, related a b := by
  induction h with
  | nil => cases ha
  | cons hab _ ih =>
    rcases List.mem_cons.mp ha with rfl | ha
    · exact ⟨_, List.mem_cons_self .., hab⟩
    · obtain ⟨b, hb, hab⟩ := ih ha
      exact ⟨b, List.mem_cons_of_mem _ hb, hab⟩

/-- An entry of the second list has one of the first list. -/
theorem exists_of_mem_right {related : α → β → Prop} {l : List α} {u : List β}
    (h : List.Forall₂ related l u) {b : β} (hb : b ∈ u) : ∃ a ∈ l, related a b :=
  exists_of_mem_left (List.Forall₂.flip h) hb

/-- A list is read without an error exactly when each of its entries is. -/
theorem mapM_eq_ok_iff (f : α → Except ε β) (l : List α) (u : List β) :
    l.mapM f = .ok u ↔ List.Forall₂ (fun a b => f a = .ok b) l u := by
  induction l generalizing u with
  | nil =>
    rw [List.mapM_nil]
    constructor
    · intro h
      cases h
      exact .nil
    · intro h
      cases h
      rfl
  | cons a l ih =>
    rw [List.mapM_cons]
    constructor
    · intro h
      cases hb : f a with
      | error e =>
        rw [hb] at h
        cases h
      | ok b =>
        cases hu : l.mapM f with
        | error e =>
          rw [hb, hu] at h
          cases h
        | ok u' =>
          rw [hb, hu] at h
          cases h
          exact .cons hb ((ih u').mp hu)
    · intro h
      cases h with
      | cons hb hu =>
        rw [hb, (ih _).mpr hu]
        rfl

end Database.Related
