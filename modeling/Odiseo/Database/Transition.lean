import Mathlib.Logic.Relation
import Mathlib.Data.List.Basic

/-!
# Runs of a step function

A system is a step function that takes a state and an action to the next state, or to
nothing when the action cannot happen. The states that runs reach, and the rule that an
invariant of the single steps is an invariant of the runs.
-/

namespace Database.Transition

variable {S A : Type} (step : S → A → Option S)

/-- The states reached from `s` by actions that all meet a condition. -/
def Reaches (cond : S → A → Prop) : S → S → Prop :=
  Relation.ReflTransGen fun s s' => ∃ a, cond s a ∧ step s a = some s'

/-- Perform a list of actions; `none` when one of them cannot happen. -/
def run (s : S) : List A → Option S
  | [] => some s
  | a :: as => (step s a).bind fun s' => run s' as

/-- The state after a list of actions that can happen. -/
def after (s : S) (actions : List A) : S := (run step s actions).getD s

/-- A list of actions can happen, and each of them meets a condition where it happens. -/
def performs (cond : S → A → Prop) [∀ s a, Decidable (cond s a)] (s : S) : List A → Bool
  | [] => true
  | a :: as => decide (cond s a) && (step s a).any fun s' => performs cond s' as

variable {step}

/-- **Run rule:** what holds at the start and is kept by every step holds in every state
that is reached. -/
theorem Reaches.invariant {cond : S → A → Prop} {Inv : S → Prop} {s s' : S}
    (h : Reaches step cond s s') (hstart : Inv s)
    (hstep : ∀ s a s', Inv s → cond s a → step s a = some s' → Inv s') : Inv s' := by
  induction h with
  | refl => exact hstart
  | tail _ hlast ih =>
    obtain ⟨a, hcond, hs⟩ := hlast
    exact hstep _ a _ ih hcond hs

/-- A weaker condition reaches at least the same states. -/
theorem Reaches.mono {cond cond' : S → A → Prop} (himp : ∀ s a, cond s a → cond' s a) {s s' : S}
    (h : Reaches step cond s s') : Reaches step cond' s s' :=
  Relation.ReflTransGen.mono (fun _ _ ⟨a, ha, hs⟩ => ⟨a, himp _ a ha, hs⟩) _ _ h

/-- Under an invariant of the run, a condition that the actions meet there can be replaced. -/
theorem Reaches.mono_of_invariant {cond cond' : S → A → Prop} {Inv : S → Prop} {s s' : S}
    (h : Reaches step cond s s') (hstart : Inv s)
    (hstep : ∀ s a s', Inv s → cond s a → step s a = some s' → Inv s')
    (himp : ∀ s a, Inv s → cond s a → cond' s a) : Reaches step cond' s s' := by
  have hboth : Inv s' ∧ Reaches step cond' s s' := by
    induction h with
    | refl => exact ⟨hstart, .refl⟩
    | tail _ hlast ih =>
      obtain ⟨a, hcond, hs⟩ := hlast
      obtain ⟨hinv, hreach⟩ := ih
      exact ⟨hstep _ a _ hinv hcond hs, hreach.tail ⟨a, himp _ a hinv hcond, hs⟩⟩
  exact hboth.2

/-- A list of actions that meet the condition reaches its last state. -/
theorem reaches_of_run {cond : S → A → Prop} {s s' : S} {actions : List A}
    (hcond : ∀ s, ∀ a ∈ actions, cond s a) (h : run step s actions = some s') :
    Reaches step cond s s' := by
  induction actions generalizing s with
  | nil =>
    cases h
    exact .refl
  | cons a as ih =>
    obtain ⟨t, ht, hrest⟩ := Option.bind_eq_some_iff.mp h
    exact .head ⟨a, hcond s a (by simp), ht⟩
      (ih (fun u b hb => hcond u b (List.mem_cons_of_mem a hb)) hrest)

/-- The state after actions that can happen is reached. -/
theorem reaches_after {cond : S → A → Prop} {s : S} {actions : List A}
    (hruns : (run step s actions).isSome = true) (hcond : ∀ s, ∀ a ∈ actions, cond s a) :
    Reaches step cond s (after step s actions) := by
  obtain ⟨s', hs'⟩ := Option.isSome_iff_exists.mp hruns
  have hafter : after step s actions = s' := by simp [after, hs']
  rw [hafter]
  exact reaches_of_run hcond hs'

/-- A list of actions that can happen, each of which meets a condition where it happens,
reaches its last state. -/
theorem reaches_after_of_performs {cond : S → A → Prop} [∀ s a, Decidable (cond s a)] {s : S}
    {actions : List A} (h : performs step cond s actions = true) :
    Reaches step cond s (after step s actions) := by
  have hrun : ∃ s', run step s actions = some s' ∧ Reaches step cond s s' := by
    induction actions generalizing s with
    | nil => exact ⟨s, rfl, .refl⟩
    | cons a as ih =>
      obtain ⟨hfirst, hrest⟩ := Bool.and_eq_true_iff.mp h
      obtain ⟨t, ht, hperforms⟩ := (Option.any_eq_true _ _).mp hrest
      obtain ⟨s', hs', hreach⟩ := ih hperforms
      exact ⟨s', by simp [run, ht, hs'], .head ⟨a, of_decide_eq_true hfirst, ht⟩ hreach⟩
  obtain ⟨s', hs', hreach⟩ := hrun
  have hafter : after step s actions = s' := by simp [after, hs']
  rwa [hafter]

end Database.Transition
