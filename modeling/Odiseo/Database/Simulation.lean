import Odiseo.Database.System
import Mathlib.Data.List.Forall2

/-!
# Simulation between two machines

Two machines may run the same calls by programs that only differ where a statement sees a
database of a certain kind. A run that keeps clear of these databases is then a run of the
other machine as well, with the same commits and the same open transactions.
-/

namespace Database

variable {C σ K E ε α β : Type}

namespace Program

/-- The second program does what the first one does, as long as every statement of the
first one sees a database that `pre` allows. -/
inductive Sim (pre : Program σ K E ε α → σ → Prop) :
    Program σ K E ε α → Program σ K E ε α → Prop
  | done (a : α) : Sim pre (.done a) (.done a)
  | fail (e : ε) : Sim pre (.fail e) (.fail e)
  | statement (locks : σ → List K) {write write' : σ → σ → σ}
      {next next' : σ → Program σ K E ε α}
      (hwrite : ∀ v, pre (.statement locks write next) v → write v = write' v)
      (hnext : ∀ v, pre (.statement locks write next) v → Sim pre (next v) (next' v)) :
      Sim pre (.statement locks write next) (.statement locks write' next')
  | enqueue (job : E) {next next' : Program σ K E ε α} (hnext : Sim pre next next') :
      Sim pre (.enqueue job next) (.enqueue job next')

variable {pre : Program σ K E ε α → σ → Prop}

/-- The same program, followed by programs of which one simulates the other. -/
theorem Sim.bind (p : Program σ K E ε β) {k k' : β → Program σ K E ε α}
    (h : ∀ b, Sim pre (k b) (k' b)) : Sim pre (p.bind k) (p.bind k') := by
  induction p with
  | done b => exact h b
  | fail e => exact .fail e
  | statement locks write next ih => exact .statement locks (fun _ _ => rfl) fun v _ => ih v
  | enqueue job next ih => exact .enqueue job ih

/-- Every program simulates itself. -/
theorem Sim.refl (p : Program σ K E ε α) : Sim pre p p := by
  induction p with
  | done a => exact .done a
  | fail e => exact .fail e
  | statement locks write next ih => exact .statement locks (fun _ _ => rfl) fun v _ => ih v
  | enqueue job next ih => exact .enqueue job ih

/-- A program waits for the same rows as the one that simulates it. -/
theorem Sim.wants {p p' : Program σ K E ε α} (h : Sim pre p p') : p'.wants = p.wants := by
  cases h <;> rfl

/-- A program that is done is simulated by itself alone. -/
theorem Sim.eq_done {a : α} {p : Program σ K E ε α} (h : Sim pre (.done a) p) : p = .done a := by
  cases h
  rfl

/-- A program that has failed is simulated by itself alone. -/
theorem Sim.eq_fail {e : ε} {p : Program σ K E ε α} (h : Sim pre (.fail e) p) : p = .fail e := by
  cases h
  rfl

end Program

/-- The second transaction has done what the first one has done, and simulates the rest. -/
def Transaction.Sim (pre : Program σ K E ε α → σ → Prop) (t t' : Transaction C σ K E ε α) : Prop :=
  t'.toContext = t.toContext ∧ Program.Sim pre t.program t'.program

/-- The systems have the same commits, and the open transactions of the second one
simulate those of the first one. -/
structure System.Sim (pre : Program σ K E ε α → σ → Prop) (s s' : System C σ K E ε α) : Prop where
  toSnapshot : s'.toSnapshot = s.toSnapshot
  nextId : s'.nextId = s.nextId
  active : List.Forall₂ (Transaction.Sim pre) s.active s'.active

namespace System

variable {pre : Program σ K E ε α → σ → Prop} {s s' : System C σ K E ε α}

/-- The same open transaction is found in both systems. -/
theorem Sim.find (h : s.Sim pre s') (id : ℕ) :
    Option.Rel (Transaction.Sim pre) (s.find id) (s'.find id) := by
  have hactive := h.active
  unfold System.find
  generalize s.active = ts, s'.active = ts' at hactive
  induction hactive with
  | nil => exact .none
  | @cons t t' ts ts' htt' _ ih =>
    rw [List.find?_cons, List.find?_cons, htt'.1]
    cases t.id == id with
    | true => exact .some htt'
    | false => exact ih

/-- An open transaction is simulated by one that is open in the other system. -/
theorem Sim.exists_of_mem (h : s.Sim pre s') {t : Transaction C σ K E ε α} (ht : t ∈ s.active) :
    ∃ t' ∈ s'.active, t.Sim pre t' := by
  have hactive := h.active
  generalize s.active = ts, s'.active = ts' at hactive ht ⊢
  induction hactive with
  | nil => cases ht
  | @cons u u' us us' huu' _ ih =>
    rcases List.mem_cons.mp ht with rfl | ht
    · exact ⟨u', List.mem_cons_self .., huu'⟩
    · obtain ⟨t', ht', htt'⟩ := ih ht
      exact ⟨t', List.mem_cons_of_mem _ ht', htt'⟩

/-- The open transactions of both systems carry the same identifiers. -/
theorem Sim.ids (h : s.Sim pre s') :
    s'.active.map (fun t => t.id) = s.active.map (fun t => t.id) := by
  have hactive := h.active
  generalize s.active = ts, s'.active = ts' at hactive
  induction hactive with
  | nil => rfl
  | cons htt' _ ih => rw [List.map_cons, List.map_cons, ih, htt'.1]

/-- A transaction waits in both systems or in none. -/
theorem Sim.blocked [DecidableEq K] (h : s.Sim pre s') {t t' : Transaction C σ K E ε α}
    (htt' : t.Sim pre t') : s'.blocked t' = s.blocked t := by
  have hactive := h.active
  unfold System.blocked
  rw [h.toSnapshot, htt'.1, htt'.2.wants]
  generalize s.active = ts, s'.active = ts' at hactive
  induction hactive with
  | nil => rfl
  | cons huu' _ ih => rw [List.any_cons, List.any_cons, ih, huu'.1]

/-- A transaction goes on in both systems. -/
theorem Sim.replace (h : s.Sim pre s') {t t' : Transaction C σ K E ε α} (htt' : t.Sim pre t') :
    (s.replace t).Sim pre (s'.replace t') := by
  refine ⟨h.toSnapshot, h.nextId, ?_⟩
  refine List.forall₂_map_left_iff.mpr (List.forall₂_map_right_iff.mpr ?_)
  refine h.active.imp fun u u' huu' => ?_
  have hid : u'.id = u.id := congrArg Context.id huu'.1
  have hid' : t'.id = t.id := congrArg Context.id htt'.1
  rw [hid, hid']
  split
  · exact htt'
  · exact huu'

/-- A transaction ends in both systems, which then agree on the snapshot `v`. -/
theorem Sim.drop (h : s.Sim pre s') (id : ℕ) (v : Snapshot C σ E α) :
    System.Sim pre { s.drop id with toSnapshot := v } { s'.drop id with toSnapshot := v } := by
  refine ⟨rfl, h.nextId, ?_⟩
  have hactive := h.active
  simp only [System.drop]
  generalize s.active = ts, s'.active = ts' at hactive
  induction hactive with
  | nil => exact .nil
  | @cons u u' us us' huu' _ ih =>
    have hid : u'.id = u.id := congrArg Context.id huu'.1
    rw [List.filter_cons, List.filter_cons, hid]
    split
    · exact .cons huu' ih
    · exact ih

/-- A transaction is rolled back in both systems. -/
theorem Sim.forget (h : s.Sim pre s') (id : ℕ) : (s.drop id).Sim pre (s'.drop id) :=
  ⟨h.toSnapshot, h.nextId, (h.drop id s.toSnapshot).active⟩

end System

namespace Machine

/-- Every program of the second machine simulates the one of the first machine, and the
callers of both enqueue the same jobs. -/
structure Sim (pre : Program σ K E ε α → σ → Prop) (m m' : Machine C σ K E ε α) : Prop where
  program : ∀ call, Program.Sim pre (m.program call) (m'.program call)
  dispatched : m'.dispatched = m.dispatched

/-- The transaction that the event runs is about to see a database that `pre` allows. -/
def Allows (pre : Program σ K E ε α → σ → Prop) (s : System C σ K E ε α) (e : Event C) : Prop :=
  ∀ t ∈ s.active, e = .exec t.id → pre t.program (t.view s.toSnapshot)

variable [DecidableEq K] {pre : Program σ K E ε α → σ → Prop} {m m' : Machine C σ K E ε α}
  {s s' u : System C σ K E ε α}

/-- **Step lemma:** an allowed step is a step of the other machine, too. -/
theorem Sim.step (hsim : m.Sim pre m') (h : s.Sim pre s') {e : Event C} (hallows : Allows pre s e)
    (hstep : m.step s e = some u) : ∃ u', m'.step s' e = some u' ∧ u.Sim pre u' := by
  cases e with
  | start call =>
    cases hstep
    refine ⟨_, rfl, h.toSnapshot, congrArg (· + 1) h.nextId, ?_⟩
    refine List.rel_append h.active (.cons ⟨?_, hsim.program call⟩ .nil)
    rw [h.nextId, h.toSnapshot]
  | exec id =>
    have hfind := h.find id
    simp only [Machine.step] at hstep ⊢
    cases ht : s.find id with
    | none => simp [ht] at hstep
    | some t =>
      rw [ht] at hfind hstep
      obtain ⟨hmem, rfl⟩ := System.of_find ht
      cases ht' : s'.find t.id with
      | none =>
        rw [ht'] at hfind
        cases hfind
      | some t' =>
        rw [ht'] at hfind
        cases hfind with
        | some htt' =>
        have hpre := hallows t hmem rfl
        have hcontext := htt'.1
        have hview : t'.view s'.toSnapshot = t.view s.toSnapshot := by
          rw [hcontext, h.toSnapshot]
        have hprograms := htt'.2
        generalize hp' : t'.program = p' at hprograms
        cases hp : t.program with
        | done a =>
          rw [hp] at hprograms
          cases hprograms
          simp only [hp, Option.some.injEq] at hstep
          subst hstep
          refine ⟨_, by simp only [hp']; rfl, ?_⟩
          rw [hcontext, hsim.dispatched, h.toSnapshot]
          exact h.drop t.id _
        | fail err =>
          rw [hp] at hprograms
          cases hprograms
          simp only [hp] at hstep
          simp only [hp', hcontext]
          split at hstep
          · rename_i hout
            cases hstep
            rw [if_pos hout]
            exact ⟨_, rfl, h.forget t.id⟩
          · cases hstep
        | statement locks write next =>
          rw [hp] at hprograms hpre
          cases hprograms with
          | statement _ hwrite hnext =>
          simp only [hp] at hstep
          simp only [hp', h.blocked htt']
          split at hstep
          · cases hstep
          · rename_i hfree
            cases hstep
            rw [if_neg hfree]
            refine ⟨_, rfl, h.replace ⟨?_, ?_⟩⟩
            · rw [hview, hcontext, hwrite _ hpre]
            · rw [hview]
              exact hnext _ hpre
        | enqueue job next =>
          rw [hp] at hprograms
          cases hprograms with
          | enqueue _ hnext =>
          simp only [hp, Option.some.injEq] at hstep
          subst hstep
          refine ⟨_, by simp only [hp']; rfl, h.replace ⟨?_, hnext⟩⟩
          rw [hcontext]
  | abort id =>
    have hfind := h.find id
    simp only [Machine.step] at hstep ⊢
    cases ht : s.find id with
    | none => simp [ht] at hstep
    | some t =>
      rw [ht] at hfind hstep
      cases ht' : s'.find id with
      | none =>
        rw [ht'] at hfind
        cases hfind
      | some t' =>
        rw [ht'] at hfind
        cases hfind with
        | some htt' =>
        simp only at hstep ⊢
        rw [htt'.1]
        split at hstep
        · rename_i hout
          cases hstep
          rw [if_pos hout]
          exact ⟨_, rfl, h.forget id⟩
        · cases hstep

/-- **Run lemma:** a run of allowed steps is a run of the other machine, too. -/
theorem Sim.reaches (hsim : m.Sim pre m') {cond cond' : System C σ K E ε α → Event C → Prop}
    (hallows : ∀ s e, cond s e → Allows pre s e)
    (hcond : ∀ s s' e, s.Sim pre s' → cond s e → cond' s' e)
    (h : s.Sim pre s') (hreach : m.Reaches cond s u) :
    ∃ u', m'.Reaches cond' s' u' ∧ u.Sim pre u' := by
  induction hreach with
  | refl => exact ⟨s', .refl, h⟩
  | tail _ hstep ih =>
    obtain ⟨v', hv', hv⟩ := ih
    obtain ⟨e, he, hs⟩ := hstep
    obtain ⟨u', hu', hu⟩ := hsim.step hv (hallows _ e he) hs
    exact ⟨u', hv'.tail ⟨e, hcond _ _ e hv he, hu'⟩, hu⟩

end Machine

/-- Two idle systems on one database. -/
theorem System.sim_idle (pre : Program σ K E ε α → σ → Prop) (db : σ) :
    (System.idle db : System C σ K E ε α).Sim pre (System.idle db) :=
  ⟨rfl, rfl, .nil⟩

end Database
