import Odiseo.Database.Program
import Mathlib.Data.List.Induction
import Mathlib.Data.List.Nodup
import Mathlib.Logic.Relation

/-!
# Interleaved transactions under READ COMMITTED

Any number of transactions are open at once. Each statement sees the committed
database overlaid by the writes of its own transaction. A statement that needs
the lock of a row waits while another open transaction holds it; locks are
released at the end of the transaction, and a commit publishes all its writes at
once. The events of a run are the starts of calls, single statements (a commit is
the last one) and rollbacks by the database.
-/

namespace Database

/-- What a transaction has done so far. -/
structure Context (C σ K E : Type) where
  /-- The identifier of the transaction in the run. -/
  id : ℕ
  /-- The call that opened it. -/
  call : C
  /-- How many transactions had committed when it was opened. -/
  since : ℕ
  /-- Its own uncommitted writes, as a change of the database. -/
  log : σ → σ
  /-- The row locks it holds. -/
  held : List K
  /-- The jobs it has added to the queue. -/
  out : List E

/-- An open transaction: what it has done and what it still has to do. -/
structure Transaction (C σ K E ε α : Type) extends Context C σ K E where
  /-- The statements that remain. -/
  program : Program σ K E ε α

/-- A call whose transaction committed, with its answer and the jobs it enqueued. -/
structure Commit (C E α : Type) where
  /-- The call. -/
  call : C
  /-- How many transactions had committed when its transaction was opened. -/
  since : ℕ
  /-- Its answer. -/
  result : α
  /-- The jobs added inside the transaction and right after it. -/
  jobs : List E
  deriving DecidableEq

/-- What the committed transactions have left behind. -/
structure Snapshot (C σ E α : Type) where
  /-- The committed database. -/
  db : σ
  /-- The committed calls, oldest first. -/
  commits : List (Commit C E α)

/-- A program for each call, and the jobs that the caller enqueues once the
transaction has committed. -/
structure Machine (C σ K E ε α : Type) where
  /-- The transaction of a call. -/
  program : C → Program σ K E ε α
  /-- The jobs enqueued after the commit. -/
  dispatched : α → List E

/-- A state of the run. -/
structure System (C σ K E ε α : Type) extends Snapshot C σ E α where
  /-- The open transactions. -/
  active : List (Transaction C σ K E ε α)
  /-- The identifier of the next transaction. -/
  nextId : ℕ

/-- One step of a run. -/
inductive Event (C : Type) where
  /-- A call opens its transaction. -/
  | start (call : C)
  /-- A transaction runs its next statement, or commits after its last one. -/
  | exec (id : ℕ)
  /-- The database rolls a transaction back (a deadlock, a lost connection). -/
  | abort (id : ℕ)

variable {C σ K E ε α : Type}

namespace Context

/-- The state of a transaction that has just been opened. -/
def opened (id : ℕ) (call : C) (since : ℕ) : Context C σ K E where
  id := id
  call := call
  since := since
  log := fun db => db
  held := []
  out := []

/-- The database as the next statement of the transaction sees it. -/
def view (t : Context C σ K E) (s : Snapshot C σ E α) : σ := t.log s.db

/-- The context after a statement that locked `locks` and changed the database. -/
def wrote (t : Context C σ K E) (locks : List K) (change : σ → σ) : Context C σ K E :=
  { t with log := fun db => change (t.log db), held := t.held ++ locks }

/-- The context after a job was added to the queue. -/
def added (t : Context C σ K E) (job : E) : Context C σ K E := { t with out := t.out ++ [job] }

/-- The transaction has gone on: it is the same call and holds at least the same locks. -/
structure Extends (u t : Context C σ K E) : Prop where
  call : u.call = t.call
  since : u.since = t.since
  held : t.held ⊆ u.held

/-- Nothing has happened. -/
theorem Extends.refl (t : Context C σ K E) : t.Extends t := ⟨rfl, rfl, fun _ h => h⟩

/-- A transaction goes on and on. -/
theorem Extends.trans {t u v : Context C σ K E} (hvu : v.Extends u) (hut : u.Extends t) :
    v.Extends t :=
  ⟨hvu.call.trans hut.call, hvu.since.trans hut.since, fun _ h => hvu.held (hut.held h)⟩

/-- A statement extends the transaction. -/
theorem extends_wrote (t : Context C σ K E) (locks : List K) (change : σ → σ) :
    (t.wrote locks change).Extends t :=
  ⟨rfl, rfl, List.subset_append_left _ _⟩

@[simp] theorem opened_log (id : ℕ) (call : C) (since : ℕ) (db : σ) :
    (opened id call since : Context C σ K E).log db = db := rfl

@[simp] theorem opened_call (id : ℕ) (call : C) (since : ℕ) :
    (opened id call since : Context C σ K E).call = call := rfl

@[simp] theorem opened_held (id : ℕ) (call : C) (since : ℕ) :
    (opened id call since : Context C σ K E).held = [] := rfl

@[simp] theorem opened_out (id : ℕ) (call : C) (since : ℕ) :
    (opened id call since : Context C σ K E).out = [] := rfl

@[simp] theorem opened_since (id : ℕ) (call : C) (since : ℕ) :
    (opened id call since : Context C σ K E).since = since := rfl

@[simp] theorem wrote_call (t : Context C σ K E) (locks : List K) (change : σ → σ) :
    (t.wrote locks change).call = t.call := rfl

@[simp] theorem wrote_id (t : Context C σ K E) (locks : List K) (change : σ → σ) :
    (t.wrote locks change).id = t.id := rfl

@[simp] theorem wrote_since (t : Context C σ K E) (locks : List K) (change : σ → σ) :
    (t.wrote locks change).since = t.since := rfl

@[simp] theorem wrote_log (t : Context C σ K E) (locks : List K) (change : σ → σ) (db : σ) :
    (t.wrote locks change).log db = change (t.log db) := rfl

@[simp] theorem wrote_held (t : Context C σ K E) (locks : List K) (change : σ → σ) :
    (t.wrote locks change).held = t.held ++ locks := rfl

@[simp] theorem wrote_out (t : Context C σ K E) (locks : List K) (change : σ → σ) :
    (t.wrote locks change).out = t.out := rfl

@[simp] theorem wrote_select (t : Context C σ K E) : t.wrote [] (fun db => db) = t := by
  simp [wrote]

@[simp] theorem added_call (t : Context C σ K E) (job : E) : (t.added job).call = t.call := rfl

@[simp] theorem added_id (t : Context C σ K E) (job : E) : (t.added job).id = t.id := rfl

@[simp] theorem added_since (t : Context C σ K E) (job : E) : (t.added job).since = t.since := rfl

@[simp] theorem added_log (t : Context C σ K E) (job : E) : (t.added job).log = t.log := rfl

@[simp] theorem added_held (t : Context C σ K E) (job : E) : (t.added job).held = t.held := rfl

@[simp] theorem added_out (t : Context C σ K E) (job : E) :
    (t.added job).out = t.out ++ [job] := rfl

end Context

/-- The snapshot after a transaction has committed with an answer. -/
def Snapshot.commit (s : Snapshot C σ E α) (t : Context C σ K E) (a : α) (after : List E) :
    Snapshot C σ E α where
  db := t.log s.db
  commits := s.commits ++ [⟨t.call, t.since, a, t.out ++ after⟩]

@[simp] theorem Snapshot.commit_db (s : Snapshot C σ E α) (t : Context C σ K E) (a : α)
    (after : List E) : (s.commit t a after).db = t.log s.db := rfl

@[simp] theorem Snapshot.commit_commits (s : Snapshot C σ E α) (t : Context C σ K E) (a : α)
    (after : List E) :
    (s.commit t a after).commits = s.commits ++ [⟨t.call, t.since, a, t.out ++ after⟩] := rfl

namespace System

/-- The system in which nothing is open and nothing has run yet. -/
def idle (db : σ) : System C σ K E ε α where
  db := db
  commits := []
  active := []
  nextId := 0

/-- The open transaction with a given identifier. -/
def find (s : System C σ K E ε α) (id : ℕ) : Option (Transaction C σ K E ε α) :=
  s.active.find? fun t => t.id == id

/-- A transaction that is found is open and carries the identifier. -/
theorem of_find {s : System C σ K E ε α} {id : ℕ} {t : Transaction C σ K E ε α}
    (h : s.find id = some t) : t ∈ s.active ∧ t.id = id :=
  ⟨List.mem_of_find?_eq_some h, by simpa using List.find?_some h⟩

/-- An open transaction is found under its identifier, when no two carry the same one. -/
theorem find_of_nodup {s : System C σ K E ε α} (h : (s.active.map fun t => t.id).Nodup)
    {t : Transaction C σ K E ε α} (ht : t ∈ s.active) : s.find t.id = some t := by
  have hsome : (s.find t.id).isSome = true := by
    rw [System.find, List.find?_isSome]
    exact ⟨t, ht, by simp⟩
  obtain ⟨u, hu⟩ := Option.isSome_iff_exists.mp hsome
  obtain ⟨hmem, hid⟩ := of_find hu
  rw [hu, List.inj_on_of_nodup_map h hmem ht hid]

/-- Another open transaction holds a row that the transaction has to lock. -/
def blocked [DecidableEq K] (s : System C σ K E ε α) (t : Transaction C σ K E ε α) : Bool :=
  s.active.any fun u => u.id != t.id &&
    (t.program.wants (t.view s.toSnapshot)).any fun k => u.held.contains k

/-- Replace an open transaction by its next state. -/
def replace (s : System C σ K E ε α) (t : Transaction C σ K E ε α) : System C σ K E ε α :=
  { s with active := s.active.map fun u => if u.id == t.id then t else u }

/-- Forget an open transaction, with its writes and its locks. -/
def drop (s : System C σ K E ε α) (id : ℕ) : System C σ K E ε α :=
  { s with active := s.active.filter fun u => u.id != id }

@[simp] theorem replace_toSnapshot (s : System C σ K E ε α) (t : Transaction C σ K E ε α) :
    (s.replace t).toSnapshot = s.toSnapshot := rfl

@[simp] theorem replace_nextId (s : System C σ K E ε α) (t : Transaction C σ K E ε α) :
    (s.replace t).nextId = s.nextId := rfl

@[simp] theorem drop_toSnapshot (s : System C σ K E ε α) (id : ℕ) :
    (s.drop id).toSnapshot = s.toSnapshot := rfl

/-- The next statement of a transaction leaves the calls of all as they are. -/
theorem exists_call_of_mem_replace {s : System C σ K E ε α} {t u : Transaction C σ K E ε α}
    (ht : t ∈ s.active) (hid : u.id = t.id) (hcall : u.call = t.call) :
    ∀ w ∈ (s.replace u).active, ∃ v ∈ s.active, v.id = w.id ∧ v.call = w.call := by
  intro w hw
  obtain ⟨v, hv, rfl⟩ := List.mem_map.mp hw
  by_cases hsame : v.id = u.id
  · refine ⟨t, ht, ?_⟩
    simp [hsame, hid, hcall]
  · exact ⟨v, hv, by simp [hsame]⟩

/-- All jobs on the queue: those of committed transactions and those that open
transactions have added already. -/
def queue (s : System C σ K E ε α) : List E :=
  s.commits.flatMap Commit.jobs ++ s.active.flatMap fun t => t.out

/-- A transaction that has enqueued nothing leaves no job behind when it is rolled back. -/
theorem queue_drop {s : System C σ K E ε α} {id : ℕ}
    (h : ∀ t ∈ s.active, t.id = id → t.out = []) : (s.drop id).queue = s.queue := by
  have hactive : ∀ ts : List (Transaction C σ K E ε α), (∀ t ∈ ts, t.id = id → t.out = []) →
      ((ts.filter fun u => u.id != id).flatMap fun t => t.out) = ts.flatMap fun t => t.out := by
    intro ts hts
    induction ts with
    | nil => rfl
    | cons t ts ih =>
      have hrest := ih fun u hu => hts u (List.mem_cons_of_mem t hu)
      by_cases hid : t.id = id
      · simp [hid, hrest, hts t (List.mem_cons_self ..) hid]
      · simp [hid, hrest]
  simp only [queue, drop, hactive s.active h]

end System

namespace Machine

variable (m : Machine C σ K E ε α)

/-- One event of a run, when it can happen. A rollback is modelled up to the first
job that a transaction enqueues; in the programs of this development `queue.add`
is the last thing before the commit. -/
def step [DecidableEq K] (s : System C σ K E ε α) : Event C → Option (System C σ K E ε α)
  | .start call =>
    some { s with
      active := s.active ++
        [{ Context.opened s.nextId call s.commits.length with program := m.program call }]
      nextId := s.nextId + 1 }
  | .exec id =>
    match s.find id with
    | none => none
    | some t =>
      match t.program with
      | .done a =>
        some { s.drop id with
          toSnapshot := s.toSnapshot.commit t.toContext a (m.dispatched a) }
      | .fail _ => if t.out.isEmpty then some (s.drop id) else none
      | .statement locks write next =>
        let v := t.view s.toSnapshot
        if s.blocked t then none
        else some (s.replace { t.wrote (locks v) (write v) with program := next v })
      | .enqueue job next => some (s.replace { t.added job with program := next })
  | .abort id =>
    match s.find id with
    | none => none
    | some t => if t.out.isEmpty then some (s.drop id) else none

/-- What a single event can do, one case for each kind of step. -/
inductive Moves [DecidableEq K] (s : System C σ K E ε α) :
    Event C → System C σ K E ε α → Prop where
  /-- A call opens its transaction. -/
  | start (call : C) : Moves s (.start call) { s with
      active := s.active ++ [{ Context.opened s.nextId call s.commits.length with
        program := m.program call }]
      nextId := s.nextId + 1 }
  /-- A transaction without further statements commits. -/
  | commit (t : Transaction C σ K E ε α) (a : α) (ht : t ∈ s.active) (hp : t.program = .done a) :
      Moves s (.exec t.id) { s.drop t.id with
        toSnapshot := s.toSnapshot.commit t.toContext a (m.dispatched a) }
  /-- A transaction runs a statement whose locks are free. -/
  | statement (t : Transaction C σ K E ε α) (locks : σ → List K) (write : σ → σ → σ)
      (next : σ → Program σ K E ε α) (ht : t ∈ s.active)
      (hp : t.program = .statement locks write next)
      (hfree : s.blocked t = false) :
      Moves s (.exec t.id) (s.replace
        { t.wrote (locks (t.view s.toSnapshot)) (write (t.view s.toSnapshot)) with
          program := next (t.view s.toSnapshot) })
  /-- A transaction adds a job to the queue. -/
  | enqueue (t : Transaction C σ K E ε α) (job : E) (next : Program σ K E ε α)
      (ht : t ∈ s.active) (hp : t.program = .enqueue job next) :
      Moves s (.exec t.id) (s.replace { t.added job with program := next })
  /-- A transaction is rolled back, by an exception or by the database. -/
  | rollback (e : Event C) (t : Transaction C σ K E ε α) (ht : t ∈ s.active) : Moves s e (s.drop t.id)

/-- Run a list of events; `none` when one of them cannot happen. -/
def runEvents [DecidableEq K] (s : System C σ K E ε α) :
    List (Event C) → Option (System C σ K E ε α)
  | [] => some s
  | e :: es => (m.step s e).bind fun s' => runEvents s' es

/-- One step whose event meets a condition on the run. -/
def Step [DecidableEq K] (cond : System C σ K E ε α → Event C → Prop)
    (s s' : System C σ K E ε α) : Prop := ∃ e, cond s e ∧ m.step s e = some s'

/-- The states reached from `s` by runs all of whose steps meet the condition. -/
def Reaches [DecidableEq K] (cond : System C σ K E ε α → Event C → Prop)
    (s s' : System C σ K E ε α) : Prop := Relation.ReflTransGen (m.Step cond) s s'

/-- The condition that only calls of a given kind are started. -/
def StartsOnly (allowed : C → Prop) (_ : System C σ K E ε α) (e : Event C) : Prop :=
  ∀ call, e = .start call → allowed call

variable [DecidableEq K] {m}

/-- A step is one of the five moves. -/
theorem moves_of_step {s s' : System C σ K E ε α} {e : Event C} (h : m.step s e = some s') :
    m.Moves s e s' := by
  cases e with
  | start call =>
    cases h
    exact .start call
  | exec id =>
    simp only [step] at h
    cases hfind : s.find id with
    | none => simp [hfind] at h
    | some t =>
      obtain ⟨ht, rfl⟩ := System.of_find hfind
      simp only [hfind] at h
      cases hp : t.program with
      | done a =>
        simp only [hp, Option.some.injEq] at h
        exact h ▸ .commit t a ht hp
      | fail err =>
        simp only [hp] at h
        split at h
        · cases h
          exact .rollback _ t ht
        · cases h
      | statement locks write next =>
        simp only [hp] at h
        split at h
        · cases h
        · rename_i hfree
          cases h
          exact .statement t locks write next ht hp (by simpa using hfree)
      | enqueue job next =>
        simp only [hp, Option.some.injEq] at h
        exact h ▸ .enqueue t job next ht hp
  | abort id =>
    simp only [step] at h
    cases hfind : s.find id with
    | none => simp [hfind] at h
    | some t =>
      obtain ⟨ht, rfl⟩ := System.of_find hfind
      simp only [hfind] at h
      split at h
      · cases h
        exact .rollback _ t ht
      · cases h

/-- Commits are never forgotten. -/
theorem commits_subset_of_step {s s' : System C σ K E ε α} {e : Event C}
    (h : m.step s e = some s') : s.commits ⊆ s'.commits := by
  cases moves_of_step h with
  | start call => exact fun _ h => h
  | commit t a ht hp => exact List.subset_append_left _ _
  | statement t locks write next ht hp hfree => exact fun _ h => h
  | enqueue t job next ht hp => exact fun _ h => h
  | rollback _ t ht => exact fun _ h => h

/-- A run given by its events reaches its last state, when every event meets the condition. -/
theorem reaches_of_runEvents {cond : System C σ K E ε α → Event C → Prop}
    {s s' : System C σ K E ε α} {events : List (Event C)} (hcond : ∀ s, ∀ e ∈ events, cond s e)
    (h : m.runEvents s events = some s') : m.Reaches cond s s' := by
  induction events generalizing s with
  | nil =>
    cases h
    exact .refl
  | cons e es ih =>
    obtain ⟨t, ht, hrest⟩ := Option.bind_eq_some_iff.mp h
    have hstep : m.Step cond s t := ⟨e, hcond s e (by simp), ht⟩
    exact .head hstep (ih (fun u e' he' => hcond u e' (by simp [he'])) hrest)

/-- The last state of a run that is given by its events. -/
def endState (m : Machine C σ K E ε α) (s : System C σ K E ε α) (events : List (Event C)) :
    System C σ K E ε α :=
  (m.runEvents s events).getD s

/-- The last state of a run that can happen is reached. -/
theorem reaches_endState {cond : System C σ K E ε α → Event C → Prop} {s : System C σ K E ε α}
    {events : List (Event C)} (hruns : (m.runEvents s events).isSome = true)
    (hcond : ∀ s, ∀ e ∈ events, cond s e) : m.Reaches cond s (m.endState s events) := by
  obtain ⟨s', hs'⟩ := Option.isSome_iff_exists.mp hruns
  have hend : m.endState s events = s' := by simp [endState, hs']
  rw [hend]
  exact reaches_of_runEvents hcond hs'

/-- A run in two parts. -/
theorem runEvents_append (s : System C σ K E ε α) (events more : List (Event C)) :
    m.runEvents s (events ++ more) = (m.runEvents s events).bind fun s' => m.runEvents s' more := by
  induction events generalizing s with
  | nil => rfl
  | cons e es ih =>
    rw [List.cons_append, runEvents, runEvents, Option.bind_assoc]
    exact congrArg _ (funext ih)

/-- The last step of a run that can happen. -/
theorem step_endState {s : System C σ K E ε α} {events : List (Event C)} {e : Event C}
    (hruns : (m.runEvents s (events ++ [e])).isSome = true) :
    m.step (m.endState s events) e = some (m.endState s (events ++ [e])) := by
  obtain ⟨s', hs'⟩ := Option.isSome_iff_exists.mp hruns
  have hend : m.endState s (events ++ [e]) = s' := by simp [endState, hs']
  rw [runEvents_append] at hs'
  obtain ⟨mid, hmid, hstep⟩ := Option.bind_eq_some_iff.mp hs'
  obtain ⟨last, hlast, hnil⟩ := Option.bind_eq_some_iff.mp hstep
  cases hnil
  rw [hend, endState, hmid, Option.getD_some, hlast]

/-- The last state of a run is reached when each event meets the condition in the state before
it. -/
theorem reaches_endState_of_steps {cond : System C σ K E ε α → Event C → Prop}
    {s : System C σ K E ε α} {events : List (Event C)}
    (hruns : (m.runEvents s events).isSome = true)
    (hcond : ∀ n e, events[n]? = some e → cond (m.endState s (events.take n)) e) :
    m.Reaches cond s (m.endState s events) := by
  induction events using List.reverseRecOn with
  | nil => exact .refl
  | append_singleton es e ih =>
    have hfirst : (m.runEvents s es).isSome = true := by
      rw [runEvents_append] at hruns
      exact Option.isSome_of_isSome_bind hruns
    refine .tail (ih hfirst fun n e' he' => ?_) ⟨e, ?_, step_endState hruns⟩
    · have hlt := (List.getElem?_eq_some_iff.mp he').1
      have hstep := hcond n e' (by rw [List.getElem?_append_left hlt, he'])
      rwa [List.take_append_of_le_length (Nat.le_of_lt hlt)] at hstep
    · have hstep := hcond es.length e (by simp)
      rwa [List.take_left] at hstep

/-- When only calls of a kind start, only calls of that kind are open. -/
theorem active_of_step {allowed : C → Prop} {s s' : System C σ K E ε α} {e : Event C}
    (hactive : ∀ t ∈ s.active, allowed t.call) (hstart : StartsOnly allowed s e)
    (h : m.step s e = some s') : ∀ t ∈ s'.active, allowed t.call := by
  cases moves_of_step h with
  | start call =>
    intro t ht
    rcases List.mem_append.mp ht with ht | ht
    · exact hactive t ht
    · obtain rfl := List.mem_singleton.mp ht
      exact hstart call rfl
  | commit t a ht hp => exact fun u hu => hactive u (List.mem_filter.mp hu).1
  | statement t locks write next ht hp hfree =>
    intro u hu
    obtain ⟨v, hv, rfl⟩ := List.mem_map.mp hu
    split
    · exact hactive t ht
    · exact hactive v hv
  | enqueue t job next ht hp =>
    intro u hu
    obtain ⟨v, hv, rfl⟩ := List.mem_map.mp hu
    split
    · exact hactive t ht
    · exact hactive v hv
  | rollback _ t ht => exact fun u hu => hactive u (List.mem_filter.mp hu).1

/-- A run in which only calls of a kind start meets every condition that such calls meet. -/
theorem Reaches.of_startsOnly {allowed : C → Prop} {cond : System C σ K E ε α → Event C → Prop}
    (himp : ∀ s e, (∀ t ∈ s.active, allowed t.call) → StartsOnly allowed s e → cond s e) {db : σ}
    {s : System C σ K E ε α} (h : m.Reaches (StartsOnly allowed) (System.idle db) s) :
    m.Reaches cond (System.idle db) s ∧ ∀ t ∈ s.active, allowed t.call := by
  induction h with
  | refl => exact ⟨.refl, fun t ht => nomatch ht⟩
  | tail _ hstep ih =>
    obtain ⟨e, hstart, hs⟩ := hstep
    exact ⟨.tail ih.1 ⟨e, himp _ e ih.2 hstart, hs⟩, active_of_step ih.2 hstart hs⟩

/-- A weaker condition reaches at least the same states. -/
theorem Reaches.mono {cond cond' : System C σ K E ε α → Event C → Prop}
    (himp : ∀ s e, cond s e → cond' s e) {s s' : System C σ K E ε α}
    (h : m.Reaches cond s s') : m.Reaches cond' s s' :=
  Relation.ReflTransGen.mono (fun _ _ ⟨e, he, hs⟩ => ⟨e, himp _ e he, hs⟩) _ _ h

end Machine

end Database
