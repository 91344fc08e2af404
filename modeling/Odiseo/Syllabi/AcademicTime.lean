import Odiseo.Syllabi.Entities

/-!
# The academic calendar

`AcademicTimeUseCase`: creating a cycle with its weeks, changing it and showing or hiding it. A
cycle that is hidden takes its syllabi along, in the same transaction.
-/

namespace Odiseo.Syllabi

open Database

/-- `CreateCycleDto`, with its bounds. -/
structure CreateCycle where
  name : String
  year : ℕ
  startDate : Day
  daysPerWeek : ℕ
  totalWeeks : ℕ
  year_mem : 2000 ≤ year ∧ year ≤ 2100
  daysPerWeek_mem : 1 ≤ daysPerWeek ∧ daysPerWeek ≤ 7
  totalWeeks_mem : 1 ≤ totalWeeks ∧ totalWeeks ≤ 52

/-- `UpdateCycleDto`, with its bounds. -/
structure UpdateCycle where
  name : Option String
  year : Option ℕ
  startDate : Option Day
  daysPerWeek : Option ℕ
  totalWeeks : Option ℕ
  year_mem : ∀ n, year = some n → 2000 ≤ n ∧ n ≤ 2100
  daysPerWeek_mem : ∀ n, daysPerWeek = some n → 1 ≤ n ∧ n ≤ 7
  totalWeeks_mem : ∀ n, totalWeeks = some n → 1 ≤ n ∧ n ≤ 52

/-- The first day of a week. -/
def weekStart (startDate : Day) (weekNumber : ℕ) : Day := startDate + ((weekNumber : ℤ) - 1) * 7

/-- The last day of a week. -/
def weekEnd (startDate : Day) (daysPerWeek weekNumber : ℕ) : Day :=
  weekStart startDate weekNumber + ((daysPerWeek : ℤ) - 1)

/-- The weeks of a new cycle, with the identifiers that are drawn for them. -/
def newWeeks (cycleId : Uuid) (weekIds : ℕ → Uuid) (startDate : Day) (daysPerWeek totalWeeks : ℕ) :
    List CycleWeek :=
  (List.range' 1 totalWeeks).map fun i =>
    { id := weekIds i
      cycleId := cycleId
      weekNumber := i
      startDate := weekStart startDate i
      endDate := weekEnd startDate daysPerWeek i
      isActive := true
      deleted := false }

/-- The end of a cycle: that of its last week. -/
def lastEnd (weeks : List CycleWeek) : Option Day := weeks.getLast?.map (·.endDate)

/-- Another live week of the cycle has the number of a week. -/
def weekTaken (week : CycleWeek) (db : Db) : Bool :=
  db.weeks.rows.any fun w => w.cycleId == week.cycleId && w.weekNumber == week.weekNumber &&
    !w.deleted && w.id != week.id

/-- The database after a week has been saved: its row is written, or inserted. -/
def saveWeekIn (week : CycleWeek) (db : Db) : Db :=
  { db with weeks :=
      if (db.weeks.find week.id).isSome then
        db.weeks.modify week.id (fun w => { week with id := w.id, deleted := w.deleted })
      else db.weeks.insert week }

/-- One pass of `saveWeeksSafely`. The violation that it catches has aborted the transaction, which
cannot commit any more. -/
def saveWeek (week : CycleWeek) : Tx Unit :=
  Program.attempt (fun _ => [.week week.id, .liveWeek week.cycleId week.weekNumber])
    (weekTaken week) (saveWeekIn week) .queryFailed

/-- `saveWeeksSafely`. -/
def saveWeeksSafely (weeks : List CycleWeek) : Tx Unit := forEach weeks saveWeek

/-- The database after a cycle has been inserted. -/
def insertCycleIn (cycle : Cycle) (db : Db) : Db := { db with cycles := db.cycles.insert cycle }

/-- `createCycle`, with the identifiers that are drawn for the cycle and its weeks. -/
def createCycle (dto : CreateCycle) (cycleId : Uuid) (weekIds : ℕ → Uuid) : Tx Uuid := do
  let weeks := newWeeks cycleId weekIds dto.startDate dto.daysPerWeek dto.totalWeeks
  match lastEnd weeks with
  | none => Program.throw .queryFailed
  | some endDate => do
    Program.attempt (fun _ => [.cycle cycleId]) (fun v => (v.cycles.find cycleId).isSome)
      (insertCycleIn
        { id := cycleId
          name := dto.name
          year := dto.year
          startDate := dto.startDate
          endDate := endDate
          daysPerWeek := dto.daysPerWeek
          totalWeeks := dto.totalWeeks
          isActive := true }) .queryFailed
    saveWeeksSafely weeks
    pure cycleId

/-- `getCycleWithSyllabus`: the cycle, and whether it has an active syllabus. -/
def getCycleWithSyllabus (id : Uuid) : Tx (Option (Cycle × Bool)) :=
  Program.select fun v => (v.cycles.find id).map fun cycle =>
    (cycle, v.syllabuses.rows.any fun s => s.cycleId == id && s.isActive)

/-- Insert a week before the first one of a greater number. -/
def insertByWeekNumber (week : CycleWeek) : List CycleWeek → List CycleWeek
  | [] => [week]
  | w :: weeks =>
    if week.weekNumber ≤ w.weekNumber then week :: w :: weeks
    else w :: insertByWeekNumber week weeks

/-- The live weeks of a cycle, by their numbers. -/
def Db.weeksOf (db : Db) (cycleId : Uuid) : List CycleWeek :=
  (db.weeks.filter fun w => w.cycleId == cycleId && !w.deleted).foldr insertByWeekNumber []

/-- `getWeeksByCycle`. -/
def getWeeksByCycle (cycleId : Uuid) : Tx (List CycleWeek) :=
  Program.select fun v => v.weeksOf cycleId

/-- `getActiveWeekNumbers`. -/
def getActiveWeekNumbers (cycleId : Uuid) : Tx (List ℕ) :=
  Program.select fun v => ((v.weeksOf cycleId).filter (·.isActive)).map (·.weekNumber)

/-- The weeks of a cycle whose dates have changed: a number that there was keeps its row and its
flag. -/
def regrownWeeks (existingWeeks : List CycleWeek) (cycleId : Uuid) (weekIds : ℕ → Uuid)
    (startDate : Day) (daysPerWeek totalWeeks : ℕ) : List CycleWeek :=
  (newWeeks cycleId weekIds startDate daysPerWeek totalWeeks).map fun week =>
    match existingWeeks.find? fun w => w.weekNumber == week.weekNumber with
    | some existing => { week with id := existing.id, isActive := existing.isActive }
    | none => week

/-- The columns that an update of a cycle writes. -/
def updateCycleColumns (dto : UpdateCycle) (weeks : List CycleWeek) (cycle : Cycle) : Cycle :=
  { cycle with
    name := dto.name.getD cycle.name
    year := dto.year.getD cycle.year
    startDate := dto.startDate.getD cycle.startDate
    endDate := (lastEnd weeks).getD cycle.endDate
    daysPerWeek := dto.daysPerWeek.getD cycle.daysPerWeek
    totalWeeks := dto.totalWeeks.getD cycle.totalWeeks }

/-- The database after the columns of a cycle have been written. -/
def updateCycleIn (id : Uuid) (dto : UpdateCycle) (weeks : List CycleWeek) (db : Db) : Db :=
  { db with cycles := db.cycles.modify id (updateCycleColumns dto weeks) }

/-- The database after weeks have been deleted softly. -/
def softDeleteWeeksIn (ids : List Uuid) (db : Db) : Db :=
  { db with weeks := db.weeks.modifyAll fun w =>
      if ids.contains w.id then { w with deleted := true } else w }

/-- `AcademicTimeRepositoryImpl.updateCycle`: the columns, and the weeks when there are any. -/
def writeCycle (id : Uuid) (dto : UpdateCycle) (weeks : List CycleWeek) : Tx Unit := do
  Program.write (fun _ => [.cycle id]) (fun _ => updateCycleIn id dto weeks) fun _ => ()
  if weeks.isEmpty then pure ()
  else do
    let currentWeeks ← getWeeksByCycle id
    let weeksToDelete := currentWeeks.filter fun w => !(weeks.map (·.id)).contains w.id
    Program.write (fun _ => weeksToDelete.map fun w => .week w.id)
      (fun _ => softDeleteWeeksIn (weeksToDelete.map (·.id))) fun _ => ()
    saveWeeksSafely weeks

/-- The dates or the weeks of a cycle change. -/
def needsRecalculation (dto : UpdateCycle) (cycle : Cycle) : Bool :=
  (dto.startDate.isSome && dto.startDate != some cycle.startDate) ||
    (dto.daysPerWeek.isSome && dto.daysPerWeek != some cycle.daysPerWeek) ||
    (dto.totalWeeks.isSome && dto.totalWeeks != some cycle.totalWeeks)

/-- `updateCycleInTenant`, with the identifiers that are drawn for new weeks. -/
def updateCycle (id : Uuid) (dto : UpdateCycle) (weekIds : ℕ → Uuid) : Tx Unit := do
  let existingCycle ← getCycleWithSyllabus id
  match existingCycle with
  | none => Program.throw (.notFound "Cycle not found")
  | some (cycle, hasSyllabus) =>
    if needsRecalculation dto cycle && hasSyllabus then
      Program.throw (.conflict
        "Cannot update cycle dates or weeks because it has active syllabus relationships.")
    else if needsRecalculation dto cycle then do
      let existingWeeks ← getWeeksByCycle id
      writeCycle id dto (regrownWeeks existingWeeks id weekIds
        (dto.startDate.getD cycle.startDate) (dto.daysPerWeek.getD cycle.daysPerWeek)
        (dto.totalWeeks.getD cycle.totalWeeks))
    else writeCycle id dto []

/-- The database after the flag of a cycle has been written. -/
def setCycleActiveIn (id : Uuid) (isActive : Bool) (db : Db) : Db :=
  { db with cycles := db.cycles.modify id fun c => { c with isActive } }

/-- The database after the syllabi of a cycle have been archived. -/
def deactivateIn (cycleId : Uuid) (db : Db) : Db :=
  { db with syllabuses := db.syllabuses.modifyAll fun s =>
      if s.cycleId = cycleId then { s with isActive := false } else s }

/-- `deactivateByCycleId`. -/
def deactivateByCycleId (cycleId : Uuid) : Tx Unit :=
  Program.write (fun v => (v.syllabuses.filter (·.cycleId == cycleId)).map fun s => .syllabus s.id)
    (fun _ => deactivateIn cycleId) fun _ => ()

/-- `toggleCycleVisibility`. -/
def toggleCycleVisibility (id : Uuid) (isActive : Bool) : Tx Unit := do
  Program.write (fun _ => [.cycle id]) (fun _ => setCycleActiveIn id isActive) fun _ => ()
  if isActive then pure ()
  else deactivateByCycleId id

/-- The database after the flag of a week has been written. -/
def setWeekActiveIn (id : Uuid) (isActive : Bool) (db : Db) : Db :=
  { db with weeks := db.weeks.modify id fun w => { w with isActive } }

/-- `toggleWeekVisibility`. -/
def toggleWeekVisibility (id : Uuid) (isActive : Bool) : Tx Unit :=
  Program.write (fun _ => [.week id]) (fun _ => setWeekActiveIn id isActive) fun _ => ()

end Odiseo.Syllabi
