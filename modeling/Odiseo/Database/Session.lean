import Odiseo.Database.Program
import Mathlib.Data.Nat.Notation

/-!
# Sessions whose statements can fail

The callback of a transaction is handed the error of a statement and may catch it. The database
does not forget: after the error, without a savepoint, every later statement of the transaction
fails, and a `COMMIT` is answered but rolls everything back. A session is the callback;
`Session.transaction` is the transaction that it comes down to, and `Session.run` follows it
through databases to which others commit between its statements.
-/

namespace Database

/-- Why a transaction did not commit. -/
inductive RolledBack (ε α : Type) where
  /-- An exception left the callback. -/
  | thrown (error : ε)
  /-- The callback answered, and its `COMMIT` found the transaction aborted. -/
  | answered (result : α)
  deriving DecidableEq

/-- The callback of a transaction, as the sequence of statements it still has to run. -/
inductive Session (σ K ε α : Type) where
  /-- All statements ran: the callback answers `result`. -/
  | done (result : α)
  /-- An exception leaves the callback. -/
  | fail (error : ε)
  /-- One SQL statement. On the database `v` that it sees it is refused with the error `refused v`,
  or changes the database by `change`; the callback goes on with what it is told. -/
  | statement (locks : σ → List K) (refused : σ → Option ε) (change : σ → σ)
      (next : Except ε σ → Session σ K ε α)

namespace Session

variable {σ K E ε α β : Type}

/-- Run one callback, then another that depends on its result. -/
def bind : Session σ K ε α → (α → Session σ K ε β) → Session σ K ε β
  | .done a, f => f a
  | .fail e, _ => .fail e
  | .statement locks refused change next, f =>
    .statement locks refused change fun r => (next r).bind f

instance : Monad (Session σ K ε) where
  pure := .done
  bind := Session.bind

/-- An exception. -/
def throw (e : ε) : Session σ K ε α := .fail e

/-- A statement whose error is caught: the callback is told whether it was refused. -/
def attempt (locks : σ → List K) (refused : σ → Option ε) (change : σ → σ) :
    Session σ K ε (Except ε Unit) :=
  .statement locks refused change fun r => .done (r.map fun _ => ())

/-- A statement whose error leaves the callback. -/
def exec (locks : σ → List K) (refused : σ → Option ε) (change : σ → σ) : Session σ K ε Unit :=
  .statement locks refused change fun
    | .ok _ => .done ()
    | .error e => .fail e

/-- A `SELECT`. Nobody catches its error. -/
def select (f : σ → α) : Session σ K ε α :=
  .statement (fun _ => []) (fun _ => none) (fun db => db) fun
    | .ok v => .done (f v)
    | .error e => .fail e

@[simp] theorem pure_eq_done (a : α) : (pure a : Session σ K ε α) = .done a := rfl

@[simp] theorem bind_eq (p : Session σ K ε α) (f : α → Session σ K ε β) :
    p >>= f = p.bind f := rfl

/-- The transaction of a callback, `aborted` once a statement has failed; from then on each
statement fails with `failed`. -/
def transaction (failed : ε) :
    Bool → Session σ K ε α → Program σ K E (RolledBack ε α) α
  | false, .done a => .done a
  | true, .done a => .fail (.answered a)
  | _, .fail e => .fail (.thrown e)
  | true, .statement _ _ _ next => transaction failed true (next (.error failed))
  | false, .statement locks refused change next =>
    .statement locks (fun v => if (refused v).isSome then fun db => db else change) fun v =>
      match refused v with
      | some e => transaction failed true (next (.error e))
      | none => transaction failed false (next (.ok v))

end Session

/-- A transaction amid the commits of others. -/
structure Live (σ : Type) where
  /-- The committed database at the next statement, and at each one after it. -/
  committed : ℕ → σ
  /-- Its own writes, as a change of the database. -/
  log : σ → σ
  /-- A statement has failed. -/
  aborted : Bool

namespace Live

variable {σ : Type}

/-- A transaction that has just been opened. -/
def opened (committed : ℕ → σ) : Live σ where
  committed := committed
  log := fun db => db
  aborted := false

/-- The database as the next statement sees it. -/
def view (live : Live σ) : σ := live.log (live.committed 0)

/-- The transaction after a statement that changed the database. -/
def wrote (live : Live σ) (change : σ → σ) : Live σ :=
  { live with
    committed := fun n => live.committed (n + 1)
    log := fun db => change (live.log db) }

/-- The transaction after a statement that failed. -/
def failed (live : Live σ) : Live σ :=
  { live with
    committed := fun n => live.committed (n + 1)
    aborted := true }

@[simp] theorem opened_aborted (committed : ℕ → σ) : (opened committed).aborted = false := rfl

@[simp] theorem wrote_aborted (live : Live σ) (change : σ → σ) :
    (live.wrote change).aborted = live.aborted := rfl

@[simp] theorem failed_aborted (live : Live σ) : live.failed.aborted = true := rfl

end Live

namespace Session

variable {σ K E ε α β : Type}

/-- Run a callback amid the commits of others, up to its `COMMIT`. -/
def run (failed : ε) : Session σ K ε α → Live σ → Except ε (α × Live σ)
  | .done a, live => .ok (a, live)
  | .fail e, _ => .error e
  | .statement _ refused change next, live =>
    if live.aborted then (next (.error failed)).run failed live.failed
    else
      match refused live.view with
      | some e => (next (.error e)).run failed live.failed
      | none => (next (.ok live.view)).run failed (live.wrote change)

/-- The `COMMIT`: the answer and the database that it leaves, or why everything was rolled
back. -/
def ended : Except ε (α × Live σ) → Except (RolledBack ε α) (α × σ)
  | .ok (a, live) => if live.aborted then .error (.answered a) else .ok (a, live.view)
  | .error e => .error (.thrown e)

@[simp] theorem run_done (failed : ε) (a : α) (live : Live σ) :
    (Session.done a : Session σ K ε α).run failed live = .ok (a, live) := rfl

/-- A sequence runs its parts one after the other. -/
theorem run_bind (failed : ε) (p : Session σ K ε α) (f : α → Session σ K ε β) (live : Live σ) :
    (p.bind f).run failed live =
      match p.run failed live with
      | .error e => .error e
      | .ok (a, live') => (f a).run failed live' := by
  induction p generalizing live with
  | done a => rfl
  | fail e => rfl
  | statement locks refused change next ih =>
    simp only [bind, run]
    split
    · exact ih _ _
    · split
      · exact ih _ _
      · exact ih _ _

/-- A caught statement tells the callback whether it was refused. -/
theorem run_attempt_bind (failed : ε) (locks : σ → List K) (refused : σ → Option ε)
    (change : σ → σ) (f : Except ε Unit → Session σ K ε β) (live : Live σ) :
    ((attempt locks refused change).bind f).run failed live =
      if live.aborted then (f (.error failed)).run failed live.failed
      else
        match refused live.view with
        | some e => (f (.error e)).run failed live.failed
        | none => (f (.ok ())).run failed (live.wrote change) := by
  simp only [attempt, bind, run]
  split
  · rfl
  · cases refused live.view <;> rfl

/-- A statement that is not refused writes its change, when no other has failed before it. -/
theorem run_exec_bind (failed : ε) (locks : σ → List K) (refused : σ → Option ε)
    (change : σ → σ) (f : Unit → Session σ K ε β) {live : Live σ} (hopen : live.aborted = false)
    (hfree : refused live.view = none) :
    ((exec locks refused change).bind f).run failed live =
      (f ()).run failed (live.wrote change) := by
  simp [exec, bind, run, hopen, hfree]

/-- A `SELECT` reads what its transaction sees, when no statement has failed before it. -/
theorem run_select_bind (failed : ε) (g : σ → α) (f : α → Session σ K ε β) {live : Live σ}
    (hopen : live.aborted = false) :
    ((select g).bind f).run failed live =
      (f (g live.view)).run failed (live.wrote fun db => db) := by
  simp [select, bind, run, hopen]

/-- A transaction is aborted for good. -/
theorem aborted_of_run {failed : ε} {p : Session σ K ε α} {live live' : Live σ} {a : α}
    (haborted : live.aborted = true) (h : p.run failed live = .ok (a, live')) :
    live'.aborted = true := by
  induction p generalizing live with
  | done b =>
    cases h
    exact haborted
  | fail e => cases h
  | statement locks refused change next ih =>
    simp only [run, haborted, if_true] at h
    exact ih _ (Live.failed_aborted live) h

/-- **A callback that nobody interrupts ends as its transaction does.** -/
theorem run_transaction (failed : ε) (p : Session σ K ε α) (base : σ) (log : σ → σ)
    (aborted : Bool) :
    (p.transaction failed aborted : Program σ K E (RolledBack ε α) α).run (log base) =
      match ended (p.run failed ⟨fun _ => base, log, aborted⟩) with
      | .ok (a, db) => .ok (a, db, [])
      | .error e => .error e := by
  induction p generalizing log aborted with
  | done a => cases aborted <;> rfl
  | fail e => cases aborted <;> rfl
  | statement locks refused change next ih =>
    cases aborted with
    | true =>
      simp only [transaction, run, if_true]
      exact ih (.error failed) log true
    | false =>
      simp only [transaction, Program.run, run, Live.view]
      cases hrefused : refused (log base) with
      | some e =>
        simp only [Option.isSome_some, if_true]
        exact ih (.error e) log true
      | none =>
        simp only [Option.isSome_none]
        exact ih (.ok (log base)) (fun db => change (log db)) false

end Session

end Database
