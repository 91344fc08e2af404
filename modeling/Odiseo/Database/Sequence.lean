import Odiseo.Database.System

/-!
# Calls one after the other

The interleaving in which each call ends before the next one starts. A call that meets no other
does what its program does alone, and when only one call starts there is no other run. The
transactions here add no jobs to the queue.
-/

namespace Database

variable {C σ K E ε α : Type}

/-- The calls that start in a run. -/
def starts : List (Event C) → List C
  | [] => []
  | .start call :: events => call :: starts events
  | _ :: events => starts events

/-- The database rolls no transaction back on its own. -/
def Undisturbed (events : List (Event C)) : Prop := ∀ id, .abort id ∉ events

/-- Where there are no jobs, a transaction has added none. -/
theorem Context.out_eq_nil [IsEmpty E] (t : Context C σ K E) : t.out = [] := by
  cases t.out with
  | nil => rfl
  | cons job jobs => exact isEmptyElim job

namespace Machine

/-- The state after a call has run from its start to its end with nobody else. -/
def alone (m : Machine C σ K E ε α) (s : System C σ K E ε α) (call : C) : System C σ K E ε α :=
  match (m.program call).run s.db with
  | .ok (a, db, _) =>
    { db := db
      commits := s.commits ++ [⟨call, s.commits.length, a, m.dispatched a⟩]
      active := []
      nextId := s.nextId + 1 }
  | .error _ => { s with active := [], nextId := s.nextId + 1 }

/-- The state after calls have run one after the other. -/
def serially (m : Machine C σ K E ε α) (s : System C σ K E ε α) (calls : List C) :
    System C σ K E ε α := calls.foldl m.alone s

/-- The end of the only open transaction, whose program ends as it does alone. -/
def concluded (m : Machine C σ K E ε α) (s : System C σ K E ε α) (t : Context C σ K E) :
    Except ε (α × σ × List E) → System C σ K E ε α
  | .ok (a, db, _) =>
    { s with
      db := db
      commits := s.commits ++ [⟨t.call, t.since, a, t.out ++ m.dispatched a⟩]
      active := [] }
  | .error _ => { s with active := [] }

variable {m : Machine C σ K E ε α}

/-- Nothing is open after a call that ran alone. -/
theorem alone_active (s : System C σ K E ε α) (call : C) : (m.alone s call).active = [] := by
  unfold alone
  split <;> rfl

/-- The runs of a sequence of calls are the run of the first one and those of the others. -/
theorem serially_cons (s : System C σ K E ε α) (call : C) (calls : List C) :
    m.serially s (call :: calls) = m.serially (m.alone s call) calls := rfl

/-- Nothing is open after calls that ran one after the other. -/
theorem serially_active (calls : List C) (s : System C σ K E ε α) (hactive : s.active = []) :
    (m.serially s calls).active = [] := by
  induction calls generalizing s with
  | nil => exact hactive
  | cons call calls ih => exact ih (m.alone s call) (alone_active s call)

/-- A call that has been opened alone and ends has run alone. -/
theorem concluded_opened (s : System C σ K E ε α) (call : C) :
    m.concluded
      { s with
        active := [{ Context.opened s.nextId call s.commits.length with program := m.program call }]
        nextId := s.nextId + 1 }
      (Context.opened s.nextId call s.commits.length)
      ((m.program call).run ((Context.opened s.nextId call s.commits.length :
        Context C σ K E).log s.db)) = m.alone s call := by
  simp only [alone, Context.opened_log]
  cases (m.program call).run s.db with
  | ok out => rfl
  | error e => rfl

variable [DecidableEq K]

/-- The only open transaction runs on. -/
theorem step_exec_only {s : System C σ K E ε α} {t : Transaction C σ K E ε α}
    (hactive : s.active = [t]) : m.step s (.exec t.id) =
      match t.program with
      | .done a => some { s with
          toSnapshot := s.toSnapshot.commit t.toContext a (m.dispatched a)
          active := [] }
      | .fail _ => if t.out.isEmpty then some { s with active := [] } else none
      | .statement locks write next => some { s with
          active := [{ t.wrote (locks (t.view s.toSnapshot)) (write (t.view s.toSnapshot)) with
            program := next (t.view s.toSnapshot) }] }
      | .enqueue job next => some { s with active := [{ t.added job with program := next }] } := by
  have hfind : s.find t.id = some t := by simp [System.find, hactive]
  have hdrop : s.drop t.id = { s with active := [] } := by simp [System.drop, hactive]
  have hfree : s.blocked t = false := by simp [System.blocked, hactive]
  simp only [step, hfind]
  cases t.program with
  | done a => simp [hdrop]
  | fail e => simp [hdrop]
  | statement locks write next => simp [hfree, System.replace, hactive]
  | enqueue job next => simp [System.replace, hactive]

/-- Another transaction than the only open one cannot run. -/
theorem eq_id_of_step {s s' : System C σ K E ε α} {t : Transaction C σ K E ε α} {id : ℕ}
    (hactive : s.active = [t]) (h : m.step s (.exec id) = some s') : id = t.id := by
  by_contra hne
  have hfind : s.find id = none := by
    have hneq : ¬t.id = id := fun heq => hne heq.symm
    simp [System.find, hactive, hneq]
  simp [step, hfind] at h

/-- Nothing runs where nothing is open. -/
theorem step_exec_idle {s : System C σ K E ε α} (hactive : s.active = []) (id : ℕ) :
    m.step s (.exec id) = none := by
  simp [step, System.find, hactive]

/-- **The only open transaction can run to its end.** -/
theorem runEvents_only [IsEmpty E] (p : Program σ K E ε α) {s : System C σ K E ε α}
    {t : Context C σ K E} (hactive : s.active = [{ t with program := p }]) :
    ∃ k, m.runEvents s (List.replicate k (.exec t.id)) =
      some (m.concluded s t (p.run (t.log s.db))) := by
  induction p generalizing s t with
  | done a =>
    refine ⟨1, ?_⟩
    have hstep := step_exec_only (m := m) hactive
    simp only at hstep
    simp only [List.replicate_one, runEvents, hstep, Option.bind_some]
    rfl
  | fail e =>
    refine ⟨1, ?_⟩
    have hout := Context.out_eq_nil t
    have hstep := step_exec_only (m := m) hactive
    simp only [hout, List.isEmpty_nil, if_true] at hstep
    simp only [List.replicate_one, runEvents, hstep, Option.bind_some]
    rfl
  | statement locks write next ih =>
    have hstep := step_exec_only (m := m) hactive
    simp only at hstep
    obtain ⟨k, hk⟩ := ih (t.view s.toSnapshot)
      (s := { s with active := [{ t.wrote (locks (t.view s.toSnapshot))
        (write (t.view s.toSnapshot)) with program := next (t.view s.toSnapshot) }] })
      (t := t.wrote (locks (t.view s.toSnapshot)) (write (t.view s.toSnapshot))) rfl
    refine ⟨k + 1, ?_⟩
    simp only [List.replicate_succ, runEvents, hstep, Option.bind_some]
    exact hk
  | enqueue job next ih => exact isEmptyElim job

/-- **A call that meets no other runs to its end.** -/
theorem runEvents_alone [IsEmpty E] {s : System C σ K E ε α} (hactive : s.active = [])
    (call : C) : ∃ k, m.runEvents s (.start call :: List.replicate k (.exec s.nextId)) =
      some (m.alone s call) := by
  obtain ⟨k, hk⟩ := runEvents_only (m := m) (m.program call)
    (s := { s with
      active := [{ Context.opened s.nextId call s.commits.length with program := m.program call }]
      nextId := s.nextId + 1 })
    (t := Context.opened s.nextId call s.commits.length) rfl
  refine ⟨k, ?_⟩
  simp only [runEvents, step, hactive, List.nil_append, Option.bind_some]
  exact hk.trans (congrArg some (concluded_opened s call))

/-- A run of statements starts no call. -/
theorem starts_replicate_exec (k id : ℕ) :
    starts (List.replicate k (Event.exec id : Event C)) = [] := by
  induction k with
  | zero => rfl
  | succ k ih => simp [List.replicate_succ, starts, ih]

/-- The calls of a run in two parts. -/
theorem starts_append (events more : List (Event C)) :
    starts (events ++ more) = starts events ++ starts more := by
  induction events with
  | nil => rfl
  | cons e events ih => cases e <;> simp [starts, ih]

/-- **Calls can run one after the other.** -/
theorem runEvents_serially [IsEmpty E] (calls : List C) {s : System C σ K E ε α}
    (hactive : s.active = []) : ∃ events, m.runEvents s events = some (m.serially s calls) ∧
      starts events = calls ∧ Undisturbed events := by
  induction calls generalizing s with
  | nil => exact ⟨[], rfl, rfl, fun _ => List.not_mem_nil⟩
  | cons call calls ih =>
    obtain ⟨k, hfirst⟩ := runEvents_alone (m := m) hactive call
    obtain ⟨events, hrest, hstarts, hquiet⟩ := ih (alone_active (m := m) s call)
    refine ⟨(.start call :: List.replicate k (.exec s.nextId)) ++ events, ?_, ?_, ?_⟩
    · rw [runEvents_append, hfirst]
      exact hrest
    · rw [starts_append, starts, starts_replicate_exec, hstarts]
      rfl
    · intro id hmem
      rcases List.mem_append.mp hmem with hmem | hmem
      · rcases List.mem_cons.mp hmem with heq | hmem
        · cases heq
        · cases List.eq_of_mem_replicate hmem
      · exact hquiet id hmem

/-- A run of statements from a state in which nothing is open is empty. -/
theorem eq_of_runEvents_idle {s s' : System C σ K E ε α} {events : List (Event C)}
    (hactive : s.active = []) (hstarts : starts events = []) (hquiet : Undisturbed events)
    (h : m.runEvents s events = some s') : s' = s := by
  cases events with
  | nil =>
    cases h
    rfl
  | cons e events =>
    cases e with
    | start call => cases hstarts
    | exec id => simp [runEvents, step_exec_idle hactive] at h
    | abort id => exact absurd List.mem_cons_self (hquiet id)

/-- A run in which the only open transaction ends begins with one of its statements. -/
theorem eq_exec_of_runEvents {s s' : System C σ K E ε α} {t : Transaction C σ K E ε α}
    {events : List (Event C)} (hactive : s.active = [t]) (hstarts : starts events = [])
    (hquiet : Undisturbed events) (h : m.runEvents s events = some s') (hend : s'.active = []) :
    ∃ mid more, m.step s (.exec t.id) = some mid ∧ m.runEvents mid more = some s' ∧
      starts more = [] ∧ Undisturbed more := by
  cases events with
  | nil =>
    cases h
    rw [hactive] at hend
    cases hend
  | cons e more =>
    cases e with
    | start call => cases hstarts
    | abort id => exact absurd List.mem_cons_self (hquiet id)
    | exec id =>
      obtain ⟨mid, hmid, hrest⟩ := Option.bind_eq_some_iff.mp h
      obtain rfl := eq_id_of_step hactive hmid
      exact ⟨mid, more, hmid, hrest, hstarts, fun i hi => hquiet i (List.mem_cons_of_mem _ hi)⟩

/-- **The only open transaction ends as its program does alone.** -/
theorem eq_concluded_of_runEvents [IsEmpty E] (p : Program σ K E ε α)
    {s s' : System C σ K E ε α} {t : Context C σ K E} {events : List (Event C)}
    (hactive : s.active = [{ t with program := p }]) (hstarts : starts events = [])
    (hquiet : Undisturbed events) (h : m.runEvents s events = some s') (hend : s'.active = []) :
    s' = m.concluded s t (p.run (t.log s.db)) := by
  induction p generalizing s t events with
  | done a =>
    obtain ⟨mid, more, hmid, hrest, hstarts, hquiet⟩ :=
      eq_exec_of_runEvents hactive hstarts hquiet h hend
    rw [step_exec_only hactive] at hmid
    cases hmid
    exact eq_of_runEvents_idle rfl hstarts hquiet hrest
  | fail e =>
    obtain ⟨mid, more, hmid, hrest, hstarts, hquiet⟩ :=
      eq_exec_of_runEvents hactive hstarts hquiet h hend
    simp only [step_exec_only hactive, Context.out_eq_nil, List.isEmpty_nil, if_true] at hmid
    cases hmid
    exact eq_of_runEvents_idle rfl hstarts hquiet hrest
  | statement locks write next ih =>
    obtain ⟨mid, more, hmid, hrest, hstarts, hquiet⟩ :=
      eq_exec_of_runEvents hactive hstarts hquiet h hend
    rw [step_exec_only hactive] at hmid
    cases hmid
    exact ih (t.view s.toSnapshot)
      (s := { s with active := [{ t.wrote (locks (t.view s.toSnapshot))
        (write (t.view s.toSnapshot)) with program := next (t.view s.toSnapshot) }] })
      (t := t.wrote (locks (t.view s.toSnapshot)) (write (t.view s.toSnapshot)))
      rfl hstarts hquiet hrest
  | enqueue job next ih => exact isEmptyElim job

/-- **When only one call starts, it ends as if it ran alone.** -/
theorem eq_alone_of_runEvents [IsEmpty E] {s s' : System C σ K E ε α} {call : C}
    {events : List (Event C)} (hactive : s.active = []) (hstarts : starts events = [call])
    (hquiet : Undisturbed events) (h : m.runEvents s events = some s') (hend : s'.active = []) :
    s' = m.alone s call := by
  cases events with
  | nil => cases hstarts
  | cons e events =>
    cases e with
    | exec id => simp [runEvents, step_exec_idle hactive] at h
    | abort id => exact absurd List.mem_cons_self (hquiet id)
    | start first =>
      obtain ⟨rfl, hlater⟩ := List.cons.inj hstarts
      simp only [runEvents, step, hactive, List.nil_append, Option.bind_some] at h
      have hconcluded := eq_concluded_of_runEvents (m := m) (m.program first)
        (t := Context.opened s.nextId first s.commits.length) rfl hlater
        (fun id hid => hquiet id (List.mem_cons_of_mem _ hid)) h hend
      rw [hconcluded, concluded_opened]

end Machine

end Database
