import Mathlib.Logic.Basic

/-!
# Transaction programs

A use case runs inside one transaction as a sequence of SQL statements, each of
which reads the database it sees, takes row locks and writes. A program is the
tree of these statements: what follows a statement depends on what it saw.
Writes are kept as a change of the database, so that they stay private until the
commit; an enqueued job leaves the transaction at once.

The parameters are the database `σ`, the lockable rows `K`, the queue's jobs
`E` and the errors `ε` that roll a transaction back.
-/

namespace Database

/-- A transaction, as the sequence of statements it still has to run. -/
inductive Program (σ K E ε α : Type) where
  /-- All statements ran: commit, and answer `result`. -/
  | done (result : α)
  /-- An exception left the transaction callback: roll back. -/
  | fail (error : ε)
  /-- One SQL statement. On the database `v` that it sees it waits for the row
  locks `locks v`, changes the database by `write v` and goes on with `next v`. -/
  | statement (locks : σ → List K) (write : σ → σ → σ) (next : σ → Program σ K E ε α)
  /-- A job is added to the queue while the transaction is open. -/
  | enqueue (job : E) (next : Program σ K E ε α)

namespace Program

variable {σ K E ε α β : Type}

/-- Run one program, then another that depends on its result. -/
def bind : Program σ K E ε α → (α → Program σ K E ε β) → Program σ K E ε β
  | .done a, f => f a
  | .fail e, _ => .fail e
  | .statement locks write next, f => .statement locks write fun v => (next v).bind f
  | .enqueue job next, f => .enqueue job (next.bind f)

instance : Monad (Program σ K E ε) where
  pure := .done
  bind := Program.bind

/-- A `SELECT`: it takes no lock and changes nothing. -/
def select (f : σ → α) : Program σ K E ε α :=
  .statement (fun _ => []) (fun _ db => db) fun v => .done (f v)

/-- A `SELECT ... FOR UPDATE`: it locks the given rows and changes nothing. -/
def selectForUpdate (locks : σ → List K) (f : σ → α) : Program σ K E ε α :=
  .statement locks (fun _ db => db) fun v => .done (f v)

/-- A statement that writes under the locks of the rows it writes, and answers
from the database it saw. -/
def write (locks : σ → List K) (change : σ → σ → σ) (f : σ → α) : Program σ K E ε α :=
  .statement locks change fun v => .done (f v)

/-- A statement that the database may refuse: it writes `change`, or an exception leaves the
transaction. -/
def attempt (locks : σ → List K) (refused : σ → Bool) (change : σ → σ) (error : ε) :
    Program σ K E ε Unit :=
  (write locks (fun v => if refused v then fun db => db else change) refused).bind fun r =>
    if r then .fail error else .done ()

/-- An exception. -/
def throw (e : ε) : Program σ K E ε α := .fail e

/-- `queue.add` inside the transaction callback. -/
def add (job : E) : Program σ K E ε Unit := .enqueue job (.done ())

/-- The rows that the next statement has to lock before it can run on `v`. -/
def wants : Program σ K E ε α → σ → List K
  | .statement locks _ _, v => locks v
  | _, _ => []

/-- All statements ran. -/
def isDone : Program σ K E ε α → Bool
  | .done _ => true
  | _ => false

/-- A program that is done has a result. -/
theorem isDone_iff {p : Program σ K E ε α} : p.isDone = true ↔ ∃ a, p = .done a := by
  cases p <;> simp [isDone]

@[simp] theorem pure_eq_done (a : α) : (pure a : Program σ K E ε α) = .done a := rfl

@[simp] theorem bind_eq (p : Program σ K E ε α) (f : α → Program σ K E ε β) :
    p >>= f = p.bind f := rfl

@[simp] theorem map_eq (f : α → β) (p : Program σ K E ε α) :
    f <$> p = p.bind fun a => .done (f a) := rfl

@[simp] theorem done_bind (a : α) (f : α → Program σ K E ε β) :
    (Program.done a).bind f = f a := rfl

@[simp] theorem fail_bind (e : ε) (f : α → Program σ K E ε β) :
    (Program.fail e).bind f = .fail e := rfl

@[simp] theorem throw_bind (e : ε) (f : α → Program σ K E ε β) :
    (throw e).bind f = .fail e := rfl

/-- Sequences of programs associate. -/
theorem bind_assoc {γ : Type} (p : Program σ K E ε α) (f : α → Program σ K E ε β)
    (g : β → Program σ K E ε γ) : (p.bind f).bind g = p.bind fun a => (f a).bind g := by
  induction p with
  | done a => rfl
  | fail e => rfl
  | statement locks write next ih =>
    simp only [bind]
    congr
    exact funext ih
  | enqueue job next ih =>
    simp only [bind, ih]

/-- Run a program with nobody else on the database. The answer is the result,
the new database and the jobs added on the way. -/
def run : Program σ K E ε α → σ → Except ε (α × σ × List E)
  | .done a, db => .ok (a, db, [])
  | .fail e, _ => .error e
  | .statement _ write next, db => (next db).run (write db db)
  | .enqueue job next, db =>
    match next.run db with
    | .ok (a, db', jobs) => .ok (a, db', job :: jobs)
    | .error e => .error e

@[simp] theorem run_done (a : α) (db : σ) :
    (Program.done a : Program σ K E ε α).run db = .ok (a, db, []) := rfl

@[simp] theorem run_fail (e : ε) (db : σ) :
    (Program.fail e : Program σ K E ε α).run db = .error e := rfl

@[simp] theorem run_throw (e : ε) (db : σ) :
    (throw e : Program σ K E ε α).run db = .error e := rfl

@[simp] theorem run_select_bind (f : σ → α) (g : α → Program σ K E ε β) (db : σ) :
    ((select f).bind g).run db = (g (f db)).run db := rfl

@[simp] theorem run_selectForUpdate_bind (locks : σ → List K) (f : σ → α)
    (g : α → Program σ K E ε β) (db : σ) :
    ((selectForUpdate locks f).bind g).run db = (g (f db)).run db := rfl

@[simp] theorem run_write_bind (locks : σ → List K) (change : σ → σ → σ) (f : σ → α)
    (g : α → Program σ K E ε β) (db : σ) :
    ((write locks change f).bind g).run db = (g (f db)).run (change db db) := rfl

/-- A statement that runs alone is refused, or writes its change. -/
theorem run_attempt (locks : σ → List K) (refused : σ → Bool) (change : σ → σ) (error : ε)
    (db : σ) : (attempt locks refused change error : Program σ K E ε Unit).run db =
      if refused db then .error error else .ok ((), change db, []) := by
  simp only [attempt, run_write_bind]
  cases refused db <;> rfl

/-- Running a sequence alone runs its parts one after the other. -/
theorem run_bind (p : Program σ K E ε α) (f : α → Program σ K E ε β) (db : σ) :
    (p.bind f).run db =
      match p.run db with
      | .error e => .error e
      | .ok (a, db', jobs) =>
        match (f a).run db' with
        | .error e => .error e
        | .ok (b, db'', more) => .ok (b, db'', jobs ++ more) := by
  induction p generalizing db with
  | done a =>
    simp only [done_bind, run_done, List.nil_append]
    cases (f a).run db <;> rfl
  | fail e => rfl
  | statement locks write next ih => exact ih db (write db db)
  | enqueue job next ih =>
    simp only [bind, run, ih]
    cases next.run db with
    | error e => rfl
    | ok out =>
      obtain ⟨a, db', jobs⟩ := out
      cases h : (f a).run db' <;> simp [h]

/-- A sequence that runs to its end has run both of its parts to their ends. -/
theorem of_run_bind {p : Program σ K E ε α} {f : α → Program σ K E ε β} {db db'' : σ} {b : β}
    {jobs : List E} (h : (p.bind f).run db = .ok (b, db'', jobs)) :
    ∃ a db' first more, p.run db = .ok (a, db', first) ∧ (f a).run db' = .ok (b, db'', more) ∧
      jobs = first ++ more := by
  rw [run_bind] at h
  cases hp : p.run db with
  | error e =>
    rw [hp] at h
    cases h
  | ok out =>
    obtain ⟨a, db', first⟩ := out
    rw [hp] at h
    cases hf : (f a).run db' with
    | error e =>
      simp only [hf] at h
      cases h
    | ok out =>
      obtain ⟨b', db₂, more⟩ := out
      simp only [hf] at h
      cases h
      exact ⟨a, db', first, more, rfl, hf, rfl⟩

/-- Whatever the statements see, only errors that satisfy `Φ` leave the program. -/
def ThrowsOnly (Φ : ε → Prop) : Program σ K E ε α → Prop
  | .done _ => True
  | .fail e => Φ e
  | .statement _ _ next => ∀ v, (next v).ThrowsOnly Φ
  | .enqueue _ next => next.ThrowsOnly Φ

/-- The errors of a sequence are those of its parts. -/
theorem ThrowsOnly.bind {Φ : ε → Prop} {p : Program σ K E ε α} {f : α → Program σ K E ε β}
    (hp : p.ThrowsOnly Φ) (hf : ∀ a, (f a).ThrowsOnly Φ) : (p.bind f).ThrowsOnly Φ := by
  induction p with
  | done a => exact hf a
  | fail e => exact hp
  | statement locks write next ih => exact fun v => ih v (hp v)
  | enqueue job next ih => exact ih hp

/-- A run that fails does so with one of the errors of the program. -/
theorem ThrowsOnly.of_run {Φ : ε → Prop} {p : Program σ K E ε α} (hp : p.ThrowsOnly Φ) {db : σ}
    {e : ε} (h : p.run db = .error e) : Φ e := by
  induction p generalizing db with
  | done a => cases h
  | fail e' =>
    cases h
    exact hp
  | statement locks write next ih => exact ih db (hp db) h
  | enqueue job next ih =>
    simp only [run] at h
    cases hnext : next.run db with
    | error e' =>
      rw [hnext] at h
      cases h
      exact ih hp hnext
    | ok out =>
      rw [hnext] at h
      cases h

/-- Whatever the statements see, each of them writes a change that `Φ` allows, given what
it sees and the rows that it locks. -/
def Writes (Φ : σ → List K → (σ → σ) → Prop) : Program σ K E ε α → Prop
  | .done _ => True
  | .fail _ => True
  | .statement locks write next => ∀ v, Φ v (locks v) (write v) ∧ (next v).Writes Φ
  | .enqueue _ next => next.Writes Φ

/-- The writes of a sequence are those of its parts. -/
theorem Writes.bind {Φ : σ → List K → (σ → σ) → Prop} {p : Program σ K E ε α}
    {f : α → Program σ K E ε β} (hp : p.Writes Φ) (hf : ∀ a, (f a).Writes Φ) :
    (p.bind f).Writes Φ := by
  induction p with
  | done a => exact hf a
  | fail e => trivial
  | statement locks write next ih => exact fun v => ⟨(hp v).1, ih v (hp v).2⟩
  | enqueue job next ih => exact ih hp

/-- A program writes what a weaker condition allows. -/
theorem Writes.mono {Φ Ψ : σ → List K → (σ → σ) → Prop} {p : Program σ K E ε α} (hp : p.Writes Φ)
    (himp : ∀ v locks change, Φ v locks change → Ψ v locks change) : p.Writes Ψ := by
  induction p with
  | done a => trivial
  | fail e => trivial
  | statement locks write next ih => exact fun v => ⟨himp _ _ _ (hp v).1, ih v (hp v).2⟩
  | enqueue job next ih => exact ih hp

/-- **What each statement keeps, a run keeps.** -/
theorem Writes.of_run {P : σ → Prop} {p : Program σ K E ε α}
    (hp : p.Writes fun v _ change => P v → P (change v)) {db db' : σ} {a : α} {jobs : List E}
    (hdb : P db) (h : p.run db = .ok (a, db', jobs)) : P db' := by
  induction p generalizing db jobs with
  | done b =>
    cases h
    exact hdb
  | fail e => cases h
  | statement locks write next ih => exact ih db (hp db).2 ((hp db).1 hdb) h
  | enqueue job next ih =>
    simp only [run] at h
    cases hnext : next.run db with
    | error e =>
      rw [hnext] at h
      cases h
    | ok out =>
      rw [hnext] at h
      cases h
      exact ih hp hdb hnext

/-- Whatever the statements see, a program that runs to its end answers with a result in `Ψ`. -/
def Answers (Ψ : α → Prop) : Program σ K E ε α → Prop
  | .done a => Ψ a
  | .fail _ => True
  | .statement _ _ next => ∀ v, (next v).Answers Ψ
  | .enqueue _ next => next.Answers Ψ

/-- The writes of a sequence whose second part only runs on certain answers of the first. -/
theorem Writes.bind_of_answers {Φ : σ → List K → (σ → σ) → Prop} {Ψ : α → Prop}
    {p : Program σ K E ε α} {f : α → Program σ K E ε β} (hp : p.Writes Φ) (ha : p.Answers Ψ)
    (hf : ∀ a, Ψ a → (f a).Writes Φ) : (p.bind f).Writes Φ := by
  induction p with
  | done a => exact hf a ha
  | fail e => trivial
  | statement locks write next ih => exact fun v => ⟨(hp v).1, ih v (hp v).2 (ha v)⟩
  | enqueue job next ih => exact ih hp ha

/-- A statement that may be refused writes its change only where it is not. -/
theorem writes_attempt {Φ : σ → List K → (σ → σ) → Prop} {locks : σ → List K} {refused : σ → Bool}
    {change : σ → σ} {error : ε} (hid : ∀ v, Φ v (locks v) fun db => db)
    (hchange : ∀ v, refused v = false → Φ v (locks v) change) :
    (attempt locks refused change error : Program σ K E ε Unit).Writes Φ := by
  intro v
  cases hrefused : refused v with
  | true =>
    refine ⟨?_, ?_⟩
    · simpa [hrefused] using hid v
    · simp [hrefused, Program.Writes]
  | false =>
    refine ⟨?_, ?_⟩
    · simpa [hrefused] using hchange v hrefused
    · simp [hrefused, Program.Writes]

/-- A `SELECT` writes nothing. -/
theorem writes_select {Φ : σ → List K → (σ → σ) → Prop} (hid : ∀ v, Φ v [] fun db => db)
    (f : σ → α) : (select f : Program σ K E ε α).Writes Φ :=
  fun v => ⟨hid v, trivial⟩

end Program

end Database
