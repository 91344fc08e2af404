import Mathlib.Algebra.GroupWithZero.Nat
import Mathlib.Data.Int.Notation
import Mathlib.Data.List.Nodup
import Odiseo.Database.Transition

/-!
# A map with at most so many tasks at once

`mapWithConcurrency` starts workers that share a cursor and the array of results. A worker takes the
next index, calls the task and waits for it. The tasks settle in any order, and the worker of a
settled task goes on at any later moment.
-/

namespace Odiseo.Common

open Database.Transition

variable {T R E : Type}

/-- A worker: waiting for the task of an index, about to go on after it, at the end of its loop, or
ended by a task that was rejected. -/
inductive Worker
  | awaiting (index : ℕ)
  | settled (index : ℕ)
  | returned
  | rejected
  deriving DecidableEq, Repr

/-- The state of a call, with the indices that the task has been called for so far. -/
structure Mapping (R E : Type) where
  nextIndex : ℕ
  /-- An index without a result is a hole of the array. -/
  results : List (Option R)
  workers : List Worker
  /-- What the first worker to be rejected is rejected with. -/
  rejection : Option E
  started : List ℕ
  deriving DecidableEq

/-- A number, as it is given for `concurrency`. -/
inductive Number
  | integer (n : ℤ)
  /-- A fraction, an infinity or `NaN`, by its text. -/
  | other (text : String)

/-- The text of a number. -/
def Number.text : Number → String
  | .integer n => toString n
  | .other text => text

/-- The integer that is given, when it is one and at least 1. -/
def Number.limit : Number → Option ℕ
  | .integer n => if n < 1 then none else some n.toNat
  | .other _ => none

/-- The head of the loop: a worker takes the next index and calls the task, or returns. -/
def takeNext (items : List T) (m : Mapping R E) : Worker × Mapping R E :=
  if m.nextIndex < items.length then
    (.awaiting m.nextIndex,
      { m with nextIndex := m.nextIndex + 1, started := m.started ++ [m.nextIndex] })
  else (.returned, m)

/-- Start so many workers, one after the other. -/
def startWorkers (items : List T) : ℕ → Mapping R E → Mapping R E
  | 0, m => m
  | k + 1, m =>
    let (worker, m) := takeNext items m
    startWorkers items k { m with workers := m.workers ++ [worker] }

/-- `mapWithConcurrency`, up to the `await` of the workers. -/
def mapWithConcurrency (items : List T) (concurrency : Number) :
    Except String (Mapping R E) :=
  match concurrency.limit with
  | none => .error
      s!"mapWithConcurrency requires a positive integer concurrency, got: {concurrency.text}"
  | some limit => .ok <| startWorkers items (min limit items.length)
      { nextIndex := 0
        results := List.replicate items.length none
        workers := []
        rejection := none
        started := [] }

/-- The task of a worker settles, or the worker goes on after it. -/
inductive MapEvent
  | settle (worker : ℕ)
  | resume (worker : ℕ)
  deriving DecidableEq, Repr

variable (items : List T) (task : T → ℕ → Except E R)

/-- A worker goes on: it writes the result and takes the next index, or it is rejected. -/
def resume (worker index : ℕ) (m : Mapping R E) : Option (Mapping R E) :=
  items[index]?.map fun item =>
    match task item index with
    | .ok value =>
      let (next, m) := takeNext items { m with results := m.results.set index (some value) }
      { m with workers := m.workers.set worker next }
    | .error e =>
      { m with workers := m.workers.set worker .rejected, rejection := m.rejection.or (some e) }

/-- One step of a call. -/
def mapStep (m : Mapping R E) : MapEvent → Option (Mapping R E)
  | .settle worker =>
    match m.workers[worker]? with
    | some (.awaiting index) =>
      some { m with workers := m.workers.set worker (.settled index) }
    | _ => none
  | .resume worker =>
    match m.workers[worker]? with
    | some (.settled index) => resume items task worker index m
    | _ => none

/-- The index of the task that a worker waits for. -/
def Worker.inFlight? : Worker → Option ℕ
  | .awaiting index => some index
  | _ => none

/-- The tasks in flight. -/
def Mapping.inFlight (m : Mapping R E) : List ℕ := m.workers.filterMap Worker.inFlight?

/-- What the call answers with: the results when all workers have returned, and an error as soon as
one has been rejected. -/
def Mapping.outcome (m : Mapping R E) : Option (Except E (List (Option R))) :=
  match m.rejection with
  | some e => some (.error e)
  | none => if m.workers.all (· == .returned) then some (.ok m.results) else none

/-- Nothing more can happen: no task is in flight, and no worker is about to go on. -/
def Mapping.Over (m : Mapping R E) : Prop :=
  ∀ w ∈ m.workers, w = .returned ∨ w = .rejected

section Invariant

variable {items task}

/-- The index of the task that a worker waits for or goes on after. -/
def Worker.index? : Worker → Option ℕ
  | .awaiting index | .settled index => some index
  | _ => none

/-- What holds of a call with a number of workers at every moment. -/
structure Mapping.Inv (items : List T) (task : T → ℕ → Except E R) (count : ℕ)
    (m : Mapping R E) : Prop where
  workers_length : m.workers.length = count
  /-- The indices are taken one after the other. -/
  started : m.started = List.range m.nextIndex
  nextIndex_le : m.nextIndex ≤ items.length
  results_length : m.results.length = items.length
  taken : ∀ w ∈ m.workers, ∀ i, w.index? = some i → i < m.nextIndex
  /-- A result is that of the task of its index. -/
  results : ∀ i v, m.results[i]? = some (some v) → ∃ x, items[i]? = some x ∧ task x i = .ok v
  /-- A task that has been started is held by a worker, has its result, or was rejected. -/
  covered : ∀ i < m.nextIndex, (∃ w ∈ m.workers, w.index? = some i) ∨
    (∃ v, m.results[i]? = some (some v)) ∨ ∃ x e, items[i]? = some x ∧ task x i = .error e
  /-- A worker returns when all indices are taken. -/
  returned : .returned ∈ m.workers → m.nextIndex = items.length
  rejection : m.rejection = none ↔ .rejected ∉ m.workers
  /-- A worker is rejected by a task. -/
  rejected : .rejected ∈ m.workers → ∃ x i e, items[i]? = some x ∧ task x i = .error e

/-- What the workers still have to do, in events. -/
def Worker.eventsLeft : Worker → ℕ
  | .awaiting _ => 2
  | .settled _ => 1
  | _ => 0

/-- The events that are still to come, at most. -/
def Mapping.eventsLeft (length : ℕ) (m : Mapping R E) : ℕ :=
  2 * (length - m.nextIndex) + (m.workers.map Worker.eventsLeft).sum

/-- What taking the next index does. -/
theorem takeNext_cases (items : List T) (m : Mapping R E) :
    (m.nextIndex < items.length ∧ takeNext items m = (.awaiting m.nextIndex,
      { m with nextIndex := m.nextIndex + 1, started := m.started ++ [m.nextIndex] })) ∨
    (items.length ≤ m.nextIndex ∧ takeNext items m = (.returned, m)) := by
  unfold takeNext
  by_cases hnext : m.nextIndex < items.length
  · exact Or.inl ⟨hnext, if_pos hnext⟩
  · exact Or.inr ⟨Nat.le_of_not_lt hnext, if_neg hnext⟩

section Replacing

variable {α : Type} {l : List α} {k : ℕ} {a b x : α}

/-- An entry of a list and what replaces it. -/
theorem exists_set_eq (h : l[k]? = some a) (b : α) :
    ∃ before after, l = before ++ a :: after ∧ l.set k b = before ++ b :: after := by
  obtain ⟨hk, rfl⟩ := List.getElem?_eq_some_iff.mp h
  refine ⟨l.take k, l.drop (k + 1), ?_, ?_⟩
  · rw [List.getElem_cons_drop, List.take_append_drop]
  · rw [List.set_eq_take_append_cons_drop, if_pos hk]

/-- What replaces an entry is in the list. -/
theorem mem_set_self (h : l[k]? = some a) (b : α) : b ∈ l.set k b := by
  obtain ⟨before, after, -, hset⟩ := exists_set_eq h b
  rw [hset]
  simp

/-- The other entries stay. -/
theorem mem_set_of_mem (h : l[k]? = some a) (hx : x ∈ l) (b : α) : x = a ∨ x ∈ l.set k b := by
  obtain ⟨before, after, hl, hset⟩ := exists_set_eq h b
  rw [hl] at hx
  rw [hset]
  simp only [List.mem_append, List.mem_cons] at hx ⊢
  tauto

/-- Whether anything else is in the list stays. -/
theorem mem_set_iff (h : l[k]? = some a) (hb : x ≠ b) (ha : x ≠ a) : x ∈ l.set k b ↔ x ∈ l :=
  ⟨fun hx => (List.mem_or_eq_of_mem_set hx).resolve_right hb,
    fun hx => (mem_set_of_mem h hx b).resolve_left ha⟩

/-- A sum over a list changes by the entry. -/
theorem sum_map_set (h : l[k]? = some a) (b : α) (f : α → ℕ) :
    ((l.set k b).map f).sum + f a = (l.map f).sum + f b := by
  obtain ⟨before, after, hl, hset⟩ := exists_set_eq h b
  rw [hset, hl]
  simp only [List.map_append, List.map_cons, List.sum_append, List.sum_cons]
  omega

end Replacing

/-- The invariant when the task of a worker settles. -/
theorem Mapping.Inv.settle {count worker index : ℕ} {m : Mapping R E} (h : m.Inv items task count)
    (hworker : m.workers[worker]? = some (.awaiting index)) :
    ({ m with workers := m.workers.set worker (.settled index) } : Mapping R E).Inv
      items task count := by
  constructor
  · simpa using h.workers_length
  · exact h.started
  · exact h.nextIndex_le
  · exact h.results_length
  · intro w hw i hi
    rcases List.mem_or_eq_of_mem_set hw with hw | rfl
    · exact h.taken w hw i hi
    · exact h.taken (.awaiting index) (List.mem_of_getElem? hworker) i hi
  · exact h.results
  · intro i hi
    refine (h.covered i hi).imp_left fun ⟨w, hw, hindex⟩ => ?_
    rcases mem_set_of_mem hworker hw (.settled index) with rfl | hw'
    · exact ⟨_, mem_set_self hworker _, hindex⟩
    · exact ⟨w, hw', hindex⟩
  · intro hreturned
    exact h.returned ((mem_set_iff hworker (by simp) (by simp)).mp hreturned)
  · exact h.rejection.trans (not_congr (mem_set_iff hworker (by simp) (by simp)).symm)
  · intro hrejected
    exact h.rejected ((mem_set_iff hworker (by simp) (by simp)).mp hrejected)

/-- The invariant when the task of a worker has been rejected. -/
theorem Mapping.Inv.reject {count worker index : ℕ} {m : Mapping R E} {x : T} {e : E}
    (h : m.Inv items task count) (hworker : m.workers[worker]? = some (.settled index))
    (hx : items[index]? = some x) (he : task x index = .error e) :
    ({ m with workers := m.workers.set worker .rejected, rejection := m.rejection.or (some e) } :
      Mapping R E).Inv items task count := by
  constructor
  · simpa using h.workers_length
  · exact h.started
  · exact h.nextIndex_le
  · exact h.results_length
  · intro w hw i hi
    rcases List.mem_or_eq_of_mem_set hw with hw | rfl
    · exact h.taken w hw i hi
    · cases hi
  · exact h.results
  · intro i hi
    rcases h.covered i hi with ⟨w, hw, hindex⟩ | hdone
    · rcases mem_set_of_mem hworker hw .rejected with rfl | hw'
      · obtain rfl := Option.some.inj hindex
        exact Or.inr (Or.inr ⟨x, e, hx, he⟩)
      · exact Or.inl ⟨w, hw', hindex⟩
    · exact Or.inr hdone
  · intro hreturned
    exact h.returned ((List.mem_or_eq_of_mem_set hreturned).resolve_right (by simp))
  · have hmem := mem_set_self hworker Worker.rejected
    simp [hmem]
  · exact fun _ => ⟨x, index, e, hx, he⟩

/-- The results when one is written. -/
theorem Mapping.Inv.results_set {count index : ℕ} {m : Mapping R E} {x : T} {v : R}
    (h : m.Inv items task count) (hx : items[index]? = some x) (hv : task x index = .ok v) (i : ℕ)
    (v' : R) (hi : (m.results.set index (some v))[i]? = some (some v')) :
    ∃ x, items[i]? = some x ∧ task x i = .ok v' := by
  rw [List.getElem?_set] at hi
  split at hi
  · rename_i hindex
    subst hindex
    split at hi
    · cases hi
      exact ⟨x, hx, hv⟩
    · cases hi
  · exact h.results i v' hi

/-- The tasks that have been started, when the result of one is written and its worker goes on. -/
theorem Mapping.Inv.covered_set {count worker index : ℕ} {m : Mapping R E}
    (h : m.Inv items task count) (hworker : m.workers[worker]? = some (.settled index)) (v : R)
    (next : Worker) (i : ℕ) (hi : i < m.nextIndex) :
    (∃ w ∈ m.workers.set worker next, w.index? = some i) ∨
      (∃ v', (m.results.set index (some v))[i]? = some (some v')) ∨
        ∃ x e, items[i]? = some x ∧ task x i = .error e := by
  have hwritten : (m.results.set index (some v))[index]? = some (some v) := by
    have hindex := h.taken _ (List.mem_of_getElem? hworker) index rfl
    have hlength : index < m.results.length := by
      have hle := h.nextIndex_le
      rw [h.results_length]
      omega
    simp [hlength]
  rcases h.covered i hi with ⟨w, hw, hindex⟩ | ⟨v', hv'⟩ | hrejected
  · rcases mem_set_of_mem hworker hw next with rfl | hw'
    · obtain rfl := Option.some.inj hindex
      exact Or.inr (Or.inl ⟨v, hwritten⟩)
    · exact Or.inl ⟨w, hw', hindex⟩
  · by_cases hsame : index = i
    · subst hsame
      exact Or.inr (Or.inl ⟨v, hwritten⟩)
    · exact Or.inr (Or.inl ⟨v', by rw [List.getElem?_set_ne hsame, hv']⟩)
  · exact Or.inr (Or.inr hrejected)

/-- The invariant when a result is written and the worker takes the next index. -/
theorem Mapping.Inv.fulfil {count worker index : ℕ} {m : Mapping R E} {x : T} {v : R}
    (h : m.Inv items task count) (hworker : m.workers[worker]? = some (.settled index))
    (hx : items[index]? = some x) (hv : task x index = .ok v) {next : Worker} {m' : Mapping R E}
    (htake : takeNext items { m with results := m.results.set index (some v) } = (next, m')) :
    ({ m' with workers := m'.workers.set worker next } : Mapping R E).Inv items task count := by
  rcases takeNext_cases items { m with results := m.results.set index (some v) } with
    ⟨hnext, htaken⟩ | ⟨hnext, htaken⟩
  · obtain ⟨rfl, rfl⟩ := Prod.mk.inj (htaken.symm.trans htake)
    constructor
    · simpa using h.workers_length
    · rw [List.range_succ]
      exact congrArg (· ++ [m.nextIndex]) h.started
    · exact hnext
    · simpa using h.results_length
    · intro w hw i hi
      rcases List.mem_or_eq_of_mem_set hw with hw | rfl
      · exact Nat.lt_succ_of_lt (h.taken w hw i hi)
      · obtain rfl := Option.some.inj hi
        exact Nat.lt_succ_self _
    · exact h.results_set hx hv
    · intro i hi
      rcases Nat.lt_succ_iff_lt_or_eq.mp hi with hi | rfl
      · exact h.covered_set hworker v _ i hi
      · exact Or.inl ⟨_, mem_set_self hworker _, rfl⟩
    · intro hreturned
      have hall := h.returned ((mem_set_iff hworker (by simp) (by simp)).mp hreturned)
      dsimp only at hnext
      omega
    · exact h.rejection.trans (not_congr (mem_set_iff hworker (by simp) (by simp)).symm)
    · intro hrejected
      exact h.rejected ((mem_set_iff hworker (by simp) (by simp)).mp hrejected)
  · obtain ⟨rfl, rfl⟩ := Prod.mk.inj (htaken.symm.trans htake)
    constructor
    · simpa using h.workers_length
    · exact h.started
    · exact h.nextIndex_le
    · simpa using h.results_length
    · intro w hw i hi
      rcases List.mem_or_eq_of_mem_set hw with hw | rfl
      · exact h.taken w hw i hi
      · cases hi
    · exact h.results_set hx hv
    · exact h.covered_set hworker v _
    · exact fun _ => Nat.le_antisymm h.nextIndex_le hnext
    · exact h.rejection.trans (not_congr (mem_set_iff hworker (by simp) (by simp)).symm)
    · intro hrejected
      exact h.rejected ((mem_set_iff hworker (by simp) (by simp)).mp hrejected)

/-- **What an event can do.** -/
theorem of_mapStep {m m' : Mapping R E} {event : MapEvent}
    (hstep : mapStep items task m event = some m') : ∃ worker index,
      (m.workers[worker]? = some (.awaiting index) ∧
        m' = { m with workers := m.workers.set worker (.settled index) }) ∨
      m.workers[worker]? = some (.settled index) ∧ ∃ x, items[index]? = some x ∧
        ((∃ v next m₁, task x index = .ok v ∧
          takeNext items { m with results := m.results.set index (some v) } = (next, m₁) ∧
          m' = { m₁ with workers := m₁.workers.set worker next }) ∨
        ∃ e, task x index = .error e ∧ m' = { m with
          workers := m.workers.set worker .rejected, rejection := m.rejection.or (some e) }) := by
  cases event with
  | settle worker =>
    unfold mapStep at hstep
    dsimp only at hstep
    split at hstep
    · rename_i index hworker
      cases hstep
      exact ⟨worker, index, Or.inl ⟨hworker, rfl⟩⟩
    · cases hstep
  | resume worker =>
    unfold mapStep at hstep
    dsimp only at hstep
    split at hstep
    · rename_i index hworker
      obtain ⟨x, hx, hm'⟩ := Option.map_eq_some_iff.mp hstep
      refine ⟨worker, index, Or.inr ⟨hworker, x, hx, ?_⟩⟩
      cases htask : task x index with
      | ok v =>
        rw [htask] at hm'
        exact Or.inl ⟨v, _, _, rfl, rfl, hm'.symm⟩
      | error e =>
        rw [htask] at hm'
        exact Or.inr ⟨e, rfl, hm'.symm⟩
    · cases hstep

/-- **Step lemma:** every event keeps the invariant. -/
theorem Mapping.Inv.step {count : ℕ} {m m' : Mapping R E} {event : MapEvent}
    (h : m.Inv items task count) (hstep : mapStep items task m event = some m') :
    m'.Inv items task count := by
  obtain ⟨worker, index, ⟨hworker, rfl⟩ | ⟨hworker, x, hx, hresumed⟩⟩ := of_mapStep hstep
  · exact h.settle hworker
  · rcases hresumed with ⟨v, next, m₁, hv, htake, rfl⟩ | ⟨e, he, rfl⟩
    · exact h.fulfil hworker hx hv htake
    · exact h.reject hworker hx he

/-- **Every event is one less to come.** -/
theorem eventsLeft_of_step {m m' : Mapping R E} {event : MapEvent}
    (hstep : mapStep items task m event = some m') :
    m'.eventsLeft items.length < m.eventsLeft items.length := by
  unfold Mapping.eventsLeft
  obtain ⟨worker, index, ⟨hworker, rfl⟩ | ⟨hworker, x, hx, hresumed⟩⟩ := of_mapStep hstep
  · have hsum := sum_map_set hworker (.settled index) Worker.eventsLeft
    simp only [Worker.eventsLeft] at hsum ⊢
    omega
  · rcases hresumed with ⟨v, next, m₁, hv, htake, rfl⟩ | ⟨e, he, rfl⟩
    · rcases takeNext_cases items { m with results := m.results.set index (some v) } with
        ⟨hnext, htaken⟩ | ⟨hnext, htaken⟩
      · obtain ⟨rfl, rfl⟩ := Prod.mk.inj (htaken.symm.trans htake)
        have hsum := sum_map_set hworker (.awaiting m.nextIndex) Worker.eventsLeft
        simp only [Worker.eventsLeft] at hsum ⊢
        dsimp only at hnext
        omega
      · obtain ⟨rfl, rfl⟩ := Prod.mk.inj (htaken.symm.trans htake)
        have hsum := sum_map_set hworker .returned Worker.eventsLeft
        simp only [Worker.eventsLeft] at hsum ⊢
        omega
    · have hsum := sum_map_set hworker .rejected Worker.eventsLeft
      simp only [Worker.eventsLeft] at hsum ⊢
      omega

end Invariant

section Start

variable {items task}

/-- Starting a worker keeps the invariant. -/
theorem Mapping.Inv.start {count : ℕ} {m m' : Mapping R E} {worker : Worker}
    (h : m.Inv items task count) (htake : takeNext items m = (worker, m')) :
    ({ m' with workers := m'.workers ++ [worker] } : Mapping R E).Inv items task (count + 1) := by
  rcases takeNext_cases items m with ⟨hnext, htaken⟩ | ⟨hnext, htaken⟩
  · obtain ⟨rfl, rfl⟩ := Prod.mk.inj (htaken.symm.trans htake)
    constructor
    · simpa using h.workers_length
    · rw [List.range_succ]
      exact congrArg (· ++ [m.nextIndex]) h.started
    · exact hnext
    · exact h.results_length
    · intro w hw i hi
      rcases List.mem_append.mp hw with hw | hw
      · exact Nat.lt_succ_of_lt (h.taken w hw i hi)
      · rw [List.mem_singleton.mp hw] at hi
        obtain rfl := Option.some.inj hi
        exact Nat.lt_succ_self _
    · exact h.results
    · intro i hi
      rcases Nat.lt_succ_iff_lt_or_eq.mp hi with hi | rfl
      · exact (h.covered i hi).imp_left fun ⟨w, hw, hindex⟩ =>
          ⟨w, List.mem_append_left _ hw, hindex⟩
      · exact Or.inl ⟨_, List.mem_append_right _ (List.mem_singleton_self _), rfl⟩
    · intro hreturned
      have hall := h.returned (by simpa using hreturned)
      omega
    · simpa using h.rejection
    · intro hrejected
      exact h.rejected (by simpa using hrejected)
  · obtain ⟨rfl, rfl⟩ := Prod.mk.inj (htaken.symm.trans htake)
    constructor
    · simpa using h.workers_length
    · exact h.started
    · exact h.nextIndex_le
    · exact h.results_length
    · intro w hw i hi
      rcases List.mem_append.mp hw with hw | hw
      · exact h.taken w hw i hi
      · rw [List.mem_singleton.mp hw] at hi
        cases hi
    · exact h.results
    · intro i hi
      exact (h.covered i hi).imp_left fun ⟨w, hw, hindex⟩ =>
        ⟨w, List.mem_append_left _ hw, hindex⟩
    · exact fun _ => Nat.le_antisymm h.nextIndex_le hnext
    · simpa using h.rejection
    · intro hrejected
      exact h.rejected (by simpa using hrejected)

/-- A worker that is started has the events of the index that it takes. -/
theorem eventsLeft_start {m m' : Mapping R E} {worker : Worker}
    (htake : takeNext items m = (worker, m')) :
    ({ m' with workers := m'.workers ++ [worker] } : Mapping R E).eventsLeft items.length =
      m.eventsLeft items.length := by
  unfold Mapping.eventsLeft
  rcases takeNext_cases items m with ⟨hnext, htaken⟩ | ⟨hnext, htaken⟩
  · obtain ⟨rfl, rfl⟩ := Prod.mk.inj (htaken.symm.trans htake)
    simp [Worker.eventsLeft]
    omega
  · obtain ⟨rfl, rfl⟩ := Prod.mk.inj (htaken.symm.trans htake)
    simp [Worker.eventsLeft]

/-- **Start:** the workers of a call are started with the invariant. -/
theorem inv_startWorkers {count k : ℕ} {m : Mapping R E} (h : m.Inv items task count) :
    (startWorkers items k m).Inv items task (count + k) ∧
      (startWorkers items k m).eventsLeft items.length = m.eventsLeft items.length := by
  induction k generalizing count m with
  | zero => exact ⟨h, rfl⟩
  | succ k ih =>
    cases htake : takeNext items m with
    | mk worker m' =>
      have hstart : startWorkers items (k + 1) m =
          startWorkers items k { m' with workers := m'.workers ++ [worker] } := by
        rw [startWorkers, htake]
      obtain ⟨hinv, hleft⟩ := ih (h.start htake)
      rw [hstart, hleft, eventsLeft_start htake]
      rw [Nat.add_right_comm, Nat.add_assoc] at hinv
      exact ⟨hinv, rfl⟩

/-- The state before any worker has been started. -/
theorem inv_initial (items : List T) (task : T → ℕ → Except E R) :
    ({ nextIndex := 0, results := List.replicate items.length none, workers := [],
       rejection := none, started := [] } : Mapping R E).Inv items task 0 where
  workers_length := rfl
  started := rfl
  nextIndex_le := Nat.zero_le _
  results_length := List.length_replicate
  taken w hw := absurd hw List.not_mem_nil
  results i v hi := by
    have hmem := List.eq_of_mem_replicate (List.mem_of_getElem? hi)
    cases hmem
  covered i hi := absurd hi (Nat.not_lt_zero i)
  returned h := absurd h List.not_mem_nil
  rejection := iff_of_true rfl List.not_mem_nil
  rejected h := absurd h List.not_mem_nil

/-- **Start:** a call with a limit starts its workers with the invariant. -/
theorem exists_mapWithConcurrency (items : List T) (task : T → ℕ → Except E R)
    {concurrency : Number} {limit : ℕ} (hlimit : concurrency.limit = some limit) :
    ∃ m, mapWithConcurrency items concurrency = .ok m ∧
      m.Inv items task (min limit items.length) ∧ m.eventsLeft items.length ≤ 2 * items.length := by
  obtain ⟨hinv, hleft⟩ := inv_startWorkers (k := min limit items.length) (inv_initial items task)
  rw [Nat.zero_add] at hinv
  refine ⟨_, ?_, hinv, ?_⟩
  · unfold mapWithConcurrency
    rw [hlimit]
  · rw [hleft]
    simp [Mapping.eventsLeft]

/-- **Run lemma:** events keep the invariant, and there are at most as many as are left. -/
theorem Mapping.Inv.run {count : ℕ} {m m' : Mapping R E} {events : List MapEvent}
    (h : m.Inv items task count) (hrun : run (mapStep items task) m events = some m') :
    m'.Inv items task count ∧ events.length ≤ m.eventsLeft items.length := by
  induction events generalizing m with
  | nil =>
    cases hrun
    exact ⟨h, Nat.zero_le _⟩
  | cons event events ih =>
    obtain ⟨next, hstep, hrest⟩ := Option.bind_eq_some_iff.mp hrun
    obtain ⟨hinv, hlength⟩ := ih (h.step hstep) hrest
    have hless := eventsLeft_of_step hstep
    exact ⟨hinv, by rw [List.length_cons]; omega⟩

end Start

section Ending

variable {items task} {count : ℕ} {m : Mapping R E}

/-- At most one task for each worker is in flight. -/
theorem Mapping.Inv.length_inFlight (h : m.Inv items task count) : m.inFlight.length ≤ count := by
  rw [← h.workers_length]
  exact List.length_filterMap_le _ _

/-- When it is over and not all workers have been rejected, all indices have been started. -/
theorem Mapping.Inv.count_started (h : m.Inv items task count) (hover : m.Over)
    {w : Worker} (hw : w ∈ m.workers) (hne : w ≠ .rejected) {i : ℕ} (hi : i < items.length) :
    m.started.count i = 1 := by
  have hreturned : w = .returned := (hover w hw).resolve_right hne
  rw [h.started, h.returned (hreturned ▸ hw)]
  exact List.count_eq_one_of_mem List.nodup_range (List.mem_range.mpr hi)

/-- Until it is over, a task settles or a worker goes on. -/
theorem Mapping.Inv.over_or_step (h : m.Inv items task count) :
    m.Over ∨ ∃ event, (mapStep items task m event).isSome = true := by
  by_cases hover : m.Over
  · exact Or.inl hover
  · unfold Mapping.Over at hover
    push Not at hover
    obtain ⟨w, hw, hreturned, hrejected⟩ := hover
    obtain ⟨worker, hworker⟩ := List.mem_iff_getElem?.mp hw
    refine Or.inr ?_
    cases w with
    | awaiting index =>
      refine ⟨.settle worker, ?_⟩
      unfold mapStep
      dsimp only
      rw [hworker]
      rfl
    | settled index =>
      have hindex : index < items.length :=
        Nat.lt_of_lt_of_le (h.taken _ hw index rfl) h.nextIndex_le
      refine ⟨.resume worker, ?_⟩
      unfold mapStep
      dsimp only
      rw [hworker]
      dsimp only
      unfold resume
      rw [List.getElem?_eq_getElem hindex]
      rfl
    | returned => exact absurd rfl hreturned
    | rejected => exact absurd rfl hrejected

/-- When it is over and no task has been rejected, all indices have been started, and the results
are those of the tasks. -/
theorem Mapping.Inv.outcome (h : m.Inv items task (min count items.length)) (hcount : 0 < count)
    (hover : m.Over) (hsucceed : ∀ i x, items[i]? = some x → ∃ v, task x i = .ok v) :
    (∀ i < items.length, m.started.count i = 1) ∧
      ∃ results, m.outcome = some (.ok results) ∧ results.length = items.length ∧
        ∀ i x, items[i]? = some x → ∃ v, task x i = .ok v ∧ results[i]? = some (some v) := by
  have hrejected : .rejected ∉ m.workers := by
    intro hmem
    obtain ⟨x, i, e, hx, he⟩ := h.rejected hmem
    obtain ⟨v, hv⟩ := hsucceed i x hx
    rw [hv] at he
    cases he
  have hall : ∀ w ∈ m.workers, w = .returned := fun w hw =>
    (hover w hw).resolve_right fun heq => hrejected (heq ▸ hw)
  have hnext : m.nextIndex = items.length := by
    cases hworkers : m.workers with
    | nil =>
      have hlength := h.workers_length
      have hle := h.nextIndex_le
      rw [hworkers, List.length_nil] at hlength
      omega
    | cons w ws =>
      have hw : w ∈ m.workers := by
        rw [hworkers]
        exact List.mem_cons_self
      exact h.returned (hall w hw ▸ hw)
  refine ⟨fun i hi => ?_, m.results, ?_, h.results_length, fun i x hx => ?_⟩
  · rw [h.started, hnext]
    exact List.count_eq_one_of_mem List.nodup_range (List.mem_range.mpr hi)
  · unfold Mapping.outcome
    rw [h.rejection.mpr hrejected]
    have hreturned : m.workers.all (· == .returned) = true :=
      List.all_eq_true.mpr fun w hw => beq_iff_eq.mpr (hall w hw)
    exact if_pos hreturned
  · obtain ⟨hi, -⟩ := List.getElem?_eq_some_iff.mp hx
    rcases h.covered i (hnext ▸ hi) with ⟨w, hw, hindex⟩ | ⟨v, hv⟩ | ⟨x', e, hx', he⟩
    · rw [hall w hw] at hindex
      cases hindex
    · obtain ⟨x', hx', htask⟩ := h.results i v hv
      obtain rfl := Option.some.inj (hx.symm.trans hx')
      exact ⟨v, htask, hv⟩
    · obtain ⟨v, hv⟩ := hsucceed i x' hx'
      rw [hv] at he
      cases he

/-- **Every index is started at most once**, at most `k` tasks are in flight, and the call comes to
an end. By then each index has been started, unless each worker has been ended by a rejection; and
when all tasks succeed, each has been started and the results are theirs, in the order of the
items. -/
theorem mapWithConcurrency_spec (items : List T) (task : T → ℕ → Except E R) (k : ℤ) (hk : 1 ≤ k) :
    ∃ m₀, mapWithConcurrency items (.integer k) = .ok m₀ ∧
      ∀ events m, run (mapStep items task) m₀ events = some m →
        m.workers.length = min k.toNat items.length ∧
        m.started.Nodup ∧ (∀ i ∈ m.started, i < items.length) ∧ m.inFlight.length ≤ k ∧
        events.length ≤ 2 * items.length ∧
        (m.Over ∨ ∃ event, (mapStep items task m event).isSome = true) ∧
        (m.Over → (∃ w ∈ m.workers, w ≠ .rejected) →
          ∀ i < items.length, m.started.count i = 1) ∧
        (m.Over → (∀ i x, items[i]? = some x → ∃ v, task x i = .ok v) →
          (∀ i < items.length, m.started.count i = 1) ∧
            ∃ results, m.outcome = some (.ok results) ∧ results.length = items.length ∧
              ∀ i x, items[i]? = some x → ∃ v, task x i = .ok v ∧ results[i]? = some (some v)) := by
  have hlimit : (Number.integer k).limit = some k.toNat := if_neg (by omega)
  obtain ⟨m₀, hstart, hinv₀, hleft⟩ := exists_mapWithConcurrency items task hlimit
  refine ⟨m₀, hstart, fun events m hrun => ?_⟩
  obtain ⟨hinv, hlength⟩ := hinv₀.run hrun
  have hflight := hinv.length_inFlight
  refine ⟨hinv.workers_length, ?_, ?_, by omega, by omega, hinv.over_or_step, ?_, ?_⟩
  · rw [hinv.started]
    exact List.nodup_range
  · intro i hi
    rw [hinv.started, List.mem_range] at hi
    exact Nat.lt_of_lt_of_le hi hinv.nextIndex_le
  · rintro hover ⟨w, hw, hne⟩ i hi
    exact hinv.count_started hover hw hne hi
  · exact hinv.outcome (by omega)

/-- Two items with one worker, whose tasks succeed. -/
theorem mapWithConcurrency_spec_one :
    ∃ m₀, mapWithConcurrency [3, 5] (.integer 1) = .ok m₀ ∧
      ∀ events m, run (mapStep [3, 5] fun x i => (.ok (x * 10 + i) : Except String ℕ)) m₀ events =
        some m → m.started.Nodup ∧ m.inFlight.length ≤ (1 : ℤ) := by
  obtain ⟨m₀, hstart, hrun⟩ := mapWithConcurrency_spec [3, 5]
    (fun x i => (.ok (x * 10 + i) : Except String ℕ)) 1 (by decide)
  exact ⟨m₀, hstart, fun events m h => ⟨(hrun events m h).2.1, (hrun events m h).2.2.2.1⟩⟩

/-- The task of the first item is rejected. -/
def rejectsFirst (_ : ℕ) (index : ℕ) : Except String ℕ :=
  if index = 0 then .error "boom" else .ok index

/-- With one worker, the second item is never started when the task of the first is rejected. -/
theorem not_all_started : ¬ ∀ (items : List ℕ) (task : ℕ → ℕ → Except String ℕ) (k : ℤ), 1 ≤ k →
    ∃ m₀, mapWithConcurrency items (.integer k) = .ok m₀ ∧
      ∀ events m, run (mapStep items task) m₀ events = some m → m.Over →
        ∀ i < items.length, m.started.count i = 1 := by
  intro h
  obtain ⟨m₀, hstart, hall⟩ := h [3, 5] rejectsFirst 1 (by decide)
  have hstarted : (mapWithConcurrency [3, 5] (.integer 1) : Except String (Mapping ℕ String)) =
      .ok ⟨1, [none, none], [.awaiting 0], none, [0]⟩ := rfl
  rw [hstarted] at hstart
  cases hstart
  have hrun : run (mapStep [3, 5] rejectsFirst) ⟨1, [none, none], [.awaiting 0], none, [0]⟩
      [.settle 0, .resume 0] = some ⟨1, [none, none], [.rejected], some "boom", [0]⟩ := rfl
  have hover : (⟨1, [none, none], [.rejected], some "boom", [0]⟩ : Mapping ℕ String).Over := by
    simp [Mapping.Over]
  have hcount := hall _ _ hrun hover 1 (by decide)
  exact absurd hcount (by decide)

end Ending

end Odiseo.Common
