import Odiseo.Database.Session
import Odiseo.Syllabi.Weeks

/-!
# Saving the weeks of a cycle one at a time

`AcademicTimeRepositoryImpl`, with the errors of its statements: `saveWeeksSafely` catches the
violation of a taken week number and goes on to the next week. The violation has aborted the
transaction of `createCycle` or `updateCycle`, so that no week survives it.
-/

namespace Odiseo.Syllabi

open Database

/-- The errors of PostgreSQL that the repository can meet. -/
inductive QueryError
  /-- `23505`, the `UNIQUE_VIOLATION` of the repositories. -/
  | uniqueViolation
  /-- `23503`. -/
  | foreignKeyViolation
  /-- `25P02`: an earlier statement of the transaction has failed. -/
  | inFailedTransaction
  deriving DecidableEq, Repr

/-- The callback of a transaction of the repositories. -/
abbrev Callback (α : Type) := Session Db Row QueryError α

/-- A week is written to a row that is deleted softly. The index over the live weeks leaves it
out. -/
def writesDeleted (week : CycleWeek) (db : Db) : Bool := (db.weeks.find week.id).any (·.deleted)

/-- The week violates `uq_cycle_weeks_cycle_week_live`. -/
def collides (week : CycleWeek) (db : Db) : Bool := weekTaken week db && !writesDeleted week db

/-- What the database answers to `manager.save(CycleWeek, week)`, when it refuses it. -/
def weekRefusal (week : CycleWeek) (db : Db) : Option QueryError :=
  if collides week db then some .uniqueViolation
  else if (db.cycles.find week.cycleId).isNone then some .foreignKeyViolation
  else none

/-- `manager.save(CycleWeek, week)`, with its error caught. -/
def trySaveWeek (week : CycleWeek) : Callback (Except QueryError Unit) :=
  Session.attempt (fun _ => [.week week.id, .liveWeek week.cycleId week.weekNumber])
    (weekRefusal week) (saveWeekIn week)

/-- `saveWeeksSafely`. -/
def saveWeeksSafelyIn : List CycleWeek → Callback Unit
  | [] => pure ()
  | week :: weeks => do
    match ← trySaveWeek week with
    | .ok () => saveWeeksSafelyIn weeks
    | .error .uniqueViolation => saveWeeksSafelyIn weeks
    | .error e => Session.throw e

/-- The database after a cycle has been saved: its row is written, or inserted. -/
def saveCycleIn (cycle : Cycle) (db : Db) : Db :=
  { db with cycles :=
      if (db.cycles.find cycle.id).isSome then
        db.cycles.modify cycle.id (fun c => { cycle with id := c.id })
      else db.cycles.insert cycle }

/-- What the use case hands to the repository. -/
inductive CycleSave
  /-- `createCycle`. -/
  | create (cycle : Cycle) (weeks : List CycleWeek)
  /-- `updateCycle`. -/
  | update (id : Uuid) (dto : UpdateCycle) (weeks : List CycleWeek)

/-- The batch of weeks. -/
def CycleSave.weeks : CycleSave → List CycleWeek
  | .create _ weeks => weeks
  | .update _ _ weeks => weeks

/-- The live weeks of a cycle that a batch leaves out. -/
def weeksToDelete (id : Uuid) (weeks : List CycleWeek) (db : Db) : List Uuid :=
  ((db.weeksOf id).filter fun w => !(weeks.map (·.id)).contains w.id).map (·.id)

/-- `createCycle` and `updateCycle`, inside `runInTenant`. -/
def CycleSave.callback : CycleSave → Callback Unit
  | .create cycle weeks => do
    Session.exec (fun _ => [.cycle cycle.id]) (fun _ => none) (saveCycleIn cycle)
    saveWeeksSafelyIn weeks
  | .update id dto weeks => do
    Session.exec (fun _ => [.cycle id]) (fun _ => none) (updateCycleIn id dto weeks)
    if weeks.isEmpty then pure ()
    else do
      let toDelete ← Session.select (weeksToDelete id weeks)
      if toDelete.isEmpty then saveWeeksSafelyIn weeks
      else do
        Session.exec (fun _ => toDelete.map .week) (fun _ => none) (softDeleteWeeksIn toDelete)
        saveWeeksSafelyIn weeks

/-- How the call ends: its answer and the database that it commits, or why it commits nothing. -/
def CycleSave.outcome (call : CycleSave) (committed : ℕ → Db) :
    Except (RolledBack QueryError Unit) (Unit × Db) :=
  Session.ended (call.callback.run .inFailedTransaction (Live.opened committed))

/-- The transaction of a call when it comes to the weeks. -/
def CycleSave.atWeeks (call : CycleSave) (committed : ℕ → Db) : Live Db :=
  match call with
  | .create cycle _ => (Live.opened committed).wrote (saveCycleIn cycle)
  | .update id dto weeks =>
    let updated := (Live.opened committed).wrote (updateCycleIn id dto weeks)
    if weeks.isEmpty then updated
    else
      let toDelete := weeksToDelete id weeks updated.view
      let read := updated.wrote fun db => db
      if toDelete.isEmpty then read else read.wrote (softDeleteWeeksIn toDelete)

/-- The transaction after every week of a batch that does not collide has been saved, and nothing
else has changed. -/
def savedOthers : List CycleWeek → Live Db → Live Db
  | [], live => live
  | week :: weeks, live =>
    savedOthers weeks
      (live.wrote (if collides week live.view then fun db => db else saveWeekIn week))

/-- Each week of a batch is accepted when its turn comes: its number is free, among the weeks that
others have committed by then and those saved before it, and its cycle is there. -/
def Accepted : List CycleWeek → Live Db → Prop
  | [], _ => True
  | week :: weeks, live =>
    weekRefusal week live.view = none ∧ Accepted weeks (live.wrote (saveWeekIn week))

/-- The call succeeds and commits every week of its batch that does not collide. -/
def CycleSave.PersistsOthers (call : CycleSave) (committed : ℕ → Db) : Prop :=
  call.outcome committed = .ok ((), (savedOthers call.weeks (call.atWeeks committed)).view)

/-- In an aborted transaction the loop commits nothing. -/
theorem run_saveWeeks_aborted {weeks : List CycleWeek} {live live' : Live Db}
    (haborted : live.aborted = true)
    (h : (saveWeeksSafelyIn weeks).run .inFailedTransaction live = .ok ((), live')) :
    live'.aborted = true :=
  Session.aborted_of_run haborted h

/-- A batch that is accepted is saved. -/
theorem run_saveWeeks_of_accepted {weeks : List CycleWeek} {live : Live Db}
    (hopen : live.aborted = false) (haccepted : Accepted weeks live) :
    (saveWeeksSafelyIn weeks).run .inFailedTransaction live = .ok ((), savedOthers weeks live) ∧
      (savedOthers weeks live).aborted = false := by
  induction weeks generalizing live with
  | nil => exact ⟨rfl, hopen⟩
  | cons week weeks ih =>
    obtain ⟨hfree, hrest⟩ := haccepted
    have hcollides : collides week live.view = false := by
      cases h : collides week live.view with
      | false => rfl
      | true =>
        unfold weekRefusal at hfree
        simp [h] at hfree
    have hlater : (live.wrote (saveWeekIn week)).aborted = false := hopen
    obtain ⟨hrun, hlast⟩ := ih hlater hrest
    constructor
    · simp only [saveWeeksSafelyIn, trySaveWeek, Session.bind_eq, Session.run_attempt_bind, hopen,
        hfree, savedOthers, hcollides]
      exact hrun
    · simp only [savedOthers, hcollides]
      exact hlast

/-- A batch with a week that is refused is not committed: an exception leaves the loop, or the
transaction is aborted at its end. -/
theorem run_saveWeeks_of_not_accepted {weeks : List CycleWeek} {live : Live Db}
    (hopen : live.aborted = false) (hrefused : ¬Accepted weeks live) {live' : Live Db}
    (h : (saveWeeksSafelyIn weeks).run .inFailedTransaction live = .ok ((), live')) :
    live'.aborted = true := by
  induction weeks generalizing live with
  | nil => exact absurd trivial hrefused
  | cons week weeks ih =>
    simp only [saveWeeksSafelyIn, trySaveWeek, Session.bind_eq, Session.run_attempt_bind,
      hopen] at h
    cases hrefusal : weekRefusal week live.view with
    | none =>
      rw [hrefusal] at h
      have hlater : ¬Accepted weeks (live.wrote (saveWeekIn week)) := fun hrest =>
        hrefused ⟨hrefusal, hrest⟩
      have hstill : (live.wrote (saveWeekIn week)).aborted = false := hopen
      exact ih hstill hlater h
    | some e =>
      rw [hrefusal] at h
      cases e with
      | uniqueViolation => exact run_saveWeeks_aborted (Live.failed_aborted live) h
      | foreignKeyViolation => cases h
      | inFailedTransaction => cases h

/-- Nothing has failed when the call comes to the weeks. -/
theorem atWeeks_open (call : CycleSave) (committed : ℕ → Db) :
    (call.atWeeks committed).aborted = false := by
  cases call with
  | create cycle weeks => rfl
  | update id dto weeks =>
    simp only [CycleSave.atWeeks]
    split
    · rfl
    · split
      · rfl
      · rfl

/-- The call runs up to its weeks, and then the loop. -/
theorem outcome_eq (call : CycleSave) (committed : ℕ → Db) :
    call.outcome committed =
      Session.ended ((saveWeeksSafelyIn call.weeks).run .inFailedTransaction
        (call.atWeeks committed)) := by
  unfold CycleSave.outcome
  congr 1
  cases call with
  | create cycle weeks =>
    simp only [CycleSave.callback, Session.bind_eq]
    rw [Session.run_exec_bind _ _ _ _ _ rfl rfl]
    rfl
  | update id dto weeks =>
    simp only [CycleSave.callback, CycleSave.atWeeks, CycleSave.weeks, Session.bind_eq]
    rw [Session.run_exec_bind _ _ _ _ _ rfl rfl]
    cases weeks with
    | nil => rfl
    | cons week weeks =>
      simp only [List.isEmpty_cons]
      rw [if_neg Bool.false_ne_true, if_neg Bool.false_ne_true,
        Session.run_select_bind _ _ _ rfl]
      split
      · rfl
      · rw [Session.run_exec_bind _ _ _ _ _ rfl rfl]

/-- A call whose weeks are all accepted commits them. -/
theorem outcome_of_accepted {call : CycleSave} {committed : ℕ → Db}
    (haccepted : Accepted call.weeks (call.atWeeks committed)) :
    call.outcome committed = .ok ((), (savedOthers call.weeks (call.atWeeks committed)).view) := by
  obtain ⟨hrun, hopen⟩ := run_saveWeeks_of_accepted (atWeeks_open call committed) haccepted
  rw [outcome_eq, hrun]
  simp [Session.ended, hopen]

/-- A call with a week that is refused commits nothing. -/
theorem outcome_of_not_accepted {call : CycleSave} {committed : ℕ → Db}
    (hrefused : ¬Accepted call.weeks (call.atWeeks committed)) :
    ∃ e, call.outcome committed = .error e := by
  rw [outcome_eq]
  cases hrun : (saveWeeksSafelyIn call.weeks).run .inFailedTransaction (call.atWeeks committed) with
  | error e => exact ⟨.thrown e, rfl⟩
  | ok out =>
    obtain ⟨⟨⟩, live'⟩ := out
    have haborted := run_saveWeeks_of_not_accepted (atWeeks_open call committed) hrefused hrun
    exact ⟨.answered (), by simp [Session.ended, haborted]⟩

/-- **The weeks that do not collide survive a call exactly when every week of its batch is
accepted.** A single week that is refused takes the cycle and the whole batch with it. -/
theorem persistsOthers_iff (call : CycleSave) (committed : ℕ → Db) :
    call.PersistsOthers committed ↔ Accepted call.weeks (call.atWeeks committed) := by
  constructor
  · intro hpersists
    by_contra hrefused
    obtain ⟨e, he⟩ := outcome_of_not_accepted hrefused
    unfold CycleSave.PersistsOthers at hpersists
    rw [he] at hpersists
    cases hpersists
  · exact outcome_of_accepted

/-- A week whose number is free and whose cycle is there is accepted. -/
theorem weekRefusal_of_free {week : CycleWeek} {db : Db} (hfree : weekTaken week db = false)
    (hcycle : (db.cycles.find week.cycleId).isSome = true) : weekRefusal week db = none := by
  have hsome : (db.cycles.find week.cycleId).isNone = false := by
    simpa using hcycle
  simp [weekRefusal, collides, hfree, hsome]

/-- What the loop of the undisturbed call commits, its callback commits as well. -/
theorem savedOthers_of_run {weeks : List CycleWeek} {base db' : Db} {log : Db → Db}
    (hcycles : ∀ week ∈ weeks, ((log base).cycles.find week.cycleId).isSome = true)
    {jobs : List Empty} (h : (saveWeeksSafely weeks).run (log base) = .ok ((), db', jobs)) :
    Accepted weeks ⟨fun _ => base, log, false⟩ ∧
      (savedOthers weeks ⟨fun _ => base, log, false⟩).view = db' := by
  induction weeks generalizing log jobs with
  | nil =>
    cases h
    exact ⟨trivial, rfl⟩
  | cons week weeks ih =>
    obtain ⟨_, db₁, first, more, hsave, hrest, -⟩ := Program.of_run_bind h
    rw [saveWeek, Program.run_attempt] at hsave
    cases htaken : weekTaken week (log base) with
    | true =>
      rw [htaken] at hsave
      cases hsave
    | false =>
      rw [htaken] at hsave
      cases hsave
      have hcycle := hcycles week List.mem_cons_self
      have hfree : weekRefusal week (log base) = none := weekRefusal_of_free htaken hcycle
      have hcollides : collides week (log base) = false := by
        simp [collides, htaken]
      have hlater : ∀ w ∈ weeks,
          ((saveWeekIn week (log base)).cycles.find w.cycleId).isSome = true := fun w hw =>
        hcycles w (List.mem_cons_of_mem week hw)
      obtain ⟨haccepted, hview⟩ := @ih (fun db => saveWeekIn week (log db)) hlater _ hrest
      refine ⟨⟨hfree, haccepted⟩, ?_⟩
      rw [← hview]
      simp only [savedOthers, Live.view, hcollides]
      rfl

/-- A week of six days of the cycle 1, which begins on day 1. -/
def racedWeek (id : Uuid) (weekNumber : ℕ) : CycleWeek where
  id := id
  cycleId := 1
  weekNumber := weekNumber
  startDate := weekStart 1 weekNumber
  endDate := weekEnd 1 6 weekNumber
  isActive := true
  deleted := false

/-- A tenant with the cycle 1, of one week. -/
def raced : Db :=
  { Db.provisioned [] with
    cycles := Table.empty.insert
      { id := 1, name := "2025", year := 2025, startDate := 1, endDate := 6, daysPerWeek := 6,
        totalWeeks := 1, isActive := true }
    weeks := Table.empty.insert (racedWeek 101 1) }

/-- The cycle grows to two weeks. -/
def regrowth : CycleSave := .update 1 twoWeeks [racedWeek 101 1, racedWeek 202 2]

/-- Another call that lets the cycle grow commits its second week before that of `regrowth` is
saved. -/
def racing (n : ℕ) : Db := if n < 3 then raced else saveWeekIn (racedWeek 302 2) raced

/-- Two calls let a cycle grow at once. The slower one answers, and nothing of it is committed. -/
example : regrowth.outcome racing = .error (.answered ()) := rfl

/-- A taken week takes the others with it. -/
theorem not_persistsOthers : ¬∀ (call : CycleSave) (committed : ℕ → Db),
    call.PersistsOthers committed := by
  intro hall
  have hpersists := hall regrowth racing
  have hcommits : (regrowth.outcome racing).isOk = true := by
    rw [hpersists]
    rfl
  revert hcommits
  decide +kernel

end Odiseo.Syllabi
