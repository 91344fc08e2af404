import Odiseo.Database.System

/-!
# Identifiers drawn at random

A call that inserts rows draws their identifiers when it starts. They are distinct, no row
carries one of them yet and no other open transaction has drawn it. When a commit adds no
identifiers but those of its own call, the identifiers of the open transactions stay fresh.
-/

namespace Database

variable {C σ K E ε α I : Type} (draws : C → List I) (mentions : σ → I → Prop)

/-- A call that starts draws distinct identifiers that occur nowhere. -/
def Draws (s : System C σ K E ε α) (e : Event C) : Prop :=
  ∀ call, e = .start call → (draws call).Nodup ∧
    ∀ i ∈ draws call, ¬mentions s.db i ∧ ∀ t ∈ s.active, i ∉ draws t.call

/-- The identifiers of the open transactions occur nowhere else. -/
def Fresh (s : System C σ K E ε α) : Prop :=
  ∀ t ∈ s.active, (∀ i ∈ draws t.call, ¬mentions s.db i) ∧
    ∀ u ∈ s.active, u.id ≠ t.id → (draws t.call).Disjoint (draws u.call)

variable {draws mentions} {s s' : System C σ K E ε α}

/-- The next statement of a transaction draws no identifier. -/
theorem fresh_of_replace (hfresh : Fresh draws mentions s) {t u : Transaction C σ K E ε α}
    (ht : t ∈ s.active) (hid : u.id = t.id) (hcall : u.call = t.call) :
    Fresh draws mentions (s.replace u) := by
  have hold := System.exists_call_of_mem_replace ht hid hcall
  intro w hw
  obtain ⟨v, hv, hvid, hvcall⟩ := hold w hw
  rw [← hvcall]
  obtain ⟨hunknown, hothers⟩ := hfresh v hv
  refine ⟨hunknown, fun x hx hne => ?_⟩
  obtain ⟨y, hy, hyid, hycall⟩ := hold x hx
  rw [← hycall]
  refine hothers y hy fun heq => hne ?_
  rw [← hyid, heq, hvid]

/-- Transactions that end leave the identifiers of the others fresh. -/
theorem fresh_of_drop (hfresh : Fresh draws mentions s) (id : ℕ) :
    Fresh draws mentions (s.drop id) := by
  intro t ht
  obtain ⟨hunknown, hothers⟩ := hfresh t (List.mem_filter.mp ht).1
  exact ⟨hunknown, fun u hu => hothers u (List.mem_filter.mp hu).1⟩

/-- **Step lemma:** drawn identifiers stay fresh, when a commit adds only those of its call. -/
theorem fresh_of_step [DecidableEq K] {m : Machine C σ K E ε α} {e : Event C}
    (hfresh : Fresh draws mentions s) (hdraws : Draws draws mentions s e)
    (hstep : m.step s e = some s')
    (hcommit : ∀ t ∈ s.active, ∀ a, t.program = .done a → e = .exec t.id →
      ∀ i, mentions (t.log s.db) i → mentions s.db i ∨ i ∈ draws t.call) :
    Fresh draws mentions s' := by
  cases Machine.moves_of_step hstep with
  | start call =>
    obtain ⟨_, hdrawn⟩ := hdraws call rfl
    intro t ht
    rcases List.mem_append.mp ht with ht | ht
    · obtain ⟨hunknown, hothers⟩ := hfresh t ht
      refine ⟨hunknown, fun u hu hid => ?_⟩
      rcases List.mem_append.mp hu with hu | hu
      · exact hothers u hu hid
      · obtain rfl := List.mem_singleton.mp hu
        exact fun i hi hnew => (hdrawn i hnew).2 t ht hi
    · obtain rfl := List.mem_singleton.mp ht
      refine ⟨fun i hi => (hdrawn i hi).1, fun u hu hid => ?_⟩
      rcases List.mem_append.mp hu with hu | hu
      · exact fun i hi hold => (hdrawn i hi).2 u hu hold
      · obtain rfl := List.mem_singleton.mp hu
        exact absurd rfl hid
  | commit t a ht hp =>
    intro u hu
    obtain ⟨hu, hne⟩ := List.mem_filter.mp hu
    obtain ⟨hunknown, hothers⟩ := hfresh u hu
    refine ⟨fun i hi hmention => ?_, fun w hw => hothers w (List.mem_filter.mp hw).1⟩
    have hid : t.id ≠ u.id := fun heq => by simp [heq] at hne
    rcases hcommit t ht a hp rfl i hmention with hold | hdrawn
    · exact hunknown i hi hold
    · exact hothers t ht hid hi hdrawn
  | statement t locks write next ht hp hfree => exact fresh_of_replace hfresh ht rfl rfl
  | enqueue t job next ht hp => exact fresh_of_replace hfresh ht rfl rfl
  | rollback _ t ht => exact fresh_of_drop hfresh t.id

/-- Nothing is open in the idle system. -/
theorem fresh_idle (db : σ) : Fresh draws mentions (System.idle db : System C σ K E ε α) :=
  fun _ ht => nomatch ht

end Database
