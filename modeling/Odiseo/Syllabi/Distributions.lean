import Odiseo.Syllabi.Archive

/-!
# The cells of a syllabus

`SyllabusUseCase`, for one cell of the matrix at a time: creating it, changing its number of
questions and deleting it. A run is any sequence of these calls and of those that edit cycles, weeks
and syllabi.
-/

namespace Odiseo.Syllabi

open Database

/-- `CreateDistributionDto`, with its bounds. -/
structure CreateDistribution where
  templateId : Option Uuid
  weekNumber : ℕ
  topicId : CatalogId
  subtopicId : CatalogId
  questionCount : ℕ
  weekNumber_pos : 1 ≤ weekNumber
  questionCount_mem : 1 ≤ questionCount ∧ questionCount ≤ 100

/-- `UpdateDistributionDto`, with its bounds. -/
structure UpdateDistribution where
  questionCount : ℕ
  questionCount_mem : 1 ≤ questionCount ∧ questionCount ≤ 100

/-- What the operations find outside the schema of the tenant. -/
structure Setting where
  /-- `trim().toLowerCase()`. -/
  normalize : String → String
  /-- The topic and the subtopic are in the shared catalog. -/
  known : CatalogId → CatalogId → Bool

/-- A setting in which names are compared as they are and every topic is known. -/
def plainSetting : Setting where
  normalize := fun name => name
  known := fun _ _ => true

/-- The questions of a week of a syllabus, without those of a cell. -/
def Db.weekTotal (db : Db) (syllabusId : Uuid) (weekNumber : ℕ) (excludeDistId : Option Uuid) : ℕ :=
  weekSum (db.distributions.filter fun d => d.syllabusId == syllabusId && some d.id != excludeDistId)
    weekNumber

/-- `sumWeekQuestionCount`. -/
def sumWeekQuestionCount (syllabusId : Uuid) (weekNumber : ℕ) (excludeDistId : Option Uuid) : Tx ℕ :=
  Program.select fun v => v.weekTotal syllabusId weekNumber excludeDistId

/-- The row of a new cell, with the identifier that the database draws. -/
def CreateDistribution.row (dto : CreateDistribution) (syllabusId id : Uuid) :
    SyllabusDistribution where
  id := id
  syllabusId := syllabusId
  templateId := dto.templateId
  weekNumber := dto.weekNumber
  topicId := dto.topicId
  subtopicId := dto.subtopicId
  questionCount := dto.questionCount

/-- A foreign key of a distribution points nowhere. -/
def danglingKey (known : CatalogId → CatalogId → Bool) (dist : SyllabusDistribution) (db : Db) :
    Bool :=
  (dist.templateId.any fun id => (db.templates.find id).isNone) ||
    !known dist.topicId dist.subtopicId

/-- `createDistribution`. The violation that it catches has aborted the transaction, so that the
query for the existing cell throws as well. -/
def createDistribution (known : CatalogId → CatalogId → Bool) (dist : SyllabusDistribution) :
    Tx Unit :=
  Program.attempt (fun _ => [.distribution dist.id, .cell dist.syllabusId dist.templateId
      dist.weekNumber dist.topicId dist.subtopicId])
    (fun v => distributionTaken dist v || danglingKey known dist v) (insertDistributionIn dist)
    .queryFailed

/-- The text of the refusal of a new cell. -/
def addLimitMessage (weekNumber currentSum questionCount : ℕ) : String :=
  s!"La semana {weekNumber} superaría el límite de {weeklyQuestionLimit} preguntas (actual: {currentSum}, se intenta agregar: {questionCount})."

/-- `addDistribution`. -/
def addDistribution (known : CatalogId → CatalogId → Bool) (syllabusId : Uuid)
    (dto : CreateDistribution) (id : Uuid) : Tx Unit := do
  let currentSum ← sumWeekQuestionCount syllabusId dto.weekNumber none
  if weeklyQuestionLimit < currentSum + dto.questionCount then
    Program.throw (.badRequest (addLimitMessage dto.weekNumber currentSum dto.questionCount))
  else createDistribution known (dto.row syllabusId id)

/-- `getDistributionById`: the cell, when it is one of the syllabus. -/
def getDistributionById (id syllabusId : Uuid) : Tx (Option SyllabusDistribution) :=
  Program.select fun v => (v.distributions.find id).filter (·.syllabusId == syllabusId)

/-- The text of the refusal of a new number of questions. -/
def updateLimitMessage (weekNumber otherCellsSum questionCount : ℕ) : String :=
  s!"La semana {weekNumber} superaría el límite de {weeklyQuestionLimit} preguntas (resto de la semana: {otherCellsSum}, nuevo valor: {questionCount})."

/-- No cell of the syllabus has the identifier. -/
def noSuchCell (id syllabusId : Uuid) (db : Db) : Bool :=
  ((db.distributions.find id).filter (·.syllabusId == syllabusId)).isNone

/-- The database after the number of questions of a cell has been written. -/
def setQuestionCountIn (id syllabusId : Uuid) (questionCount : ℕ) (db : Db) : Db :=
  { db with distributions := db.distributions.modifyAll fun d =>
      if d.id == id && d.syllabusId == syllabusId then { d with questionCount } else d }

/-- The `UPDATE` of `updateDistributionQuantity`. -/
def writeQuestionCount (id syllabusId : Uuid) (questionCount : ℕ) : Tx Unit :=
  Program.attempt (fun _ => [.distribution id]) (noSuchCell id syllabusId)
    (setQuestionCountIn id syllabusId questionCount)
    (.notFound "Distribution not found for this syllabus.")

/-- `updateDistributionQuantity`. -/
def updateDistributionQuantity (distId syllabusId : Uuid) (dto : UpdateDistribution) : Tx Unit := do
  let dist ← getDistributionById distId syllabusId
  match dist with
  | none => writeQuestionCount distId syllabusId dto.questionCount
  | some dist => do
    let otherCellsSum ← sumWeekQuestionCount syllabusId dist.weekNumber (some distId)
    if weeklyQuestionLimit < otherCellsSum + dto.questionCount then
      Program.throw (.badRequest
        (updateLimitMessage dist.weekNumber otherCellsSum dto.questionCount))
    else writeQuestionCount distId syllabusId dto.questionCount

/-- The database after a cell has been deleted. -/
def deleteCellIn (id syllabusId : Uuid) (db : Db) : Db :=
  { db with distributions :=
      db.distributions.delete fun d => d.id == id && d.syllabusId == syllabusId }

/-- `deleteDistribution`. -/
def deleteDistribution (id syllabusId : Uuid) : Tx Unit :=
  Program.attempt (fun _ => [.distribution id]) (noSuchCell id syllabusId)
    (deleteCellIn id syllabusId) (.notFound "Distribution not found for this syllabus.")

/-- A call that plans: one of a cycle or of a whole syllabus, of a week, or of a cell. -/
inductive PlanningCall
  | whole (call : Call)
  | toggleWeekVisibility (id : Uuid) (isActive : Bool)
  | addDistribution (syllabusId : Uuid) (dto : CreateDistribution) (id : Uuid)
  | updateDistributionQuantity (distId syllabusId : Uuid) (dto : UpdateDistribution)
  | deleteDistribution (distId syllabusId : Uuid)

/-- What a planning call runs. -/
def planningTransaction (setting : Setting) : PlanningCall → Tx Unit
  | .whole call => transactionOf setting.normalize call
  | .toggleWeekVisibility id isActive => toggleWeekVisibility id isActive
  | .addDistribution syllabusId dto id => addDistribution setting.known syllabusId dto id
  | .updateDistributionQuantity distId syllabusId dto =>
    updateDistributionQuantity distId syllabusId dto
  | .deleteDistribution distId syllabusId => deleteDistribution distId syllabusId

/-- A call of a run, with the database that it finds. -/
structure Step where
  before : Db
  call : PlanningCall

/-- The answer of the call. -/
def Step.answer (setting : Setting) (step : Step) : Except AcademicError (Unit × Db × List Empty) :=
  (planningTransaction setting step.call).run step.before

/-- The database after the call. A call that throws is rolled back. -/
def Step.after (setting : Setting) (step : Step) : Db :=
  match step.answer setting with
  | .ok (_, db', _) => db'
  | .error _ => step.before

/-- The calls of a run, each with the database that it finds. -/
def planningSteps (setting : Setting) : Db → List PlanningCall → List Step
  | _, [] => []
  | db, call :: calls =>
    ⟨db, call⟩ :: planningSteps setting (Step.after setting ⟨db, call⟩) calls

/-- The states of a run: the first one, and the one after each call. -/
def planningStates (setting : Setting) (db : Db) (calls : List PlanningCall) : List Db :=
  db :: (planningSteps setting db calls).map (Step.after setting)

variable {setting : Setting} {db : Db} {calls : List PlanningCall}

/-- What a call does: it is refused and changes nothing, or it runs to its end. -/
theorem Step.after_cases (setting : Setting) (step : Step) :
    (∃ e, step.answer setting = .error e ∧ step.after setting = step.before) ∨
      ∃ jobs, step.answer setting = .ok ((), step.after setting, jobs) := by
  unfold Step.after
  cases step.answer setting with
  | error e => exact Or.inl ⟨e, rfl, rfl⟩
  | ok out => exact Or.inr ⟨out.2.2, rfl⟩

/-- **Run rule:** what holds at first, and after every call whose step is fair when it holds before,
holds around each step of a run of fair steps. -/
theorem invariant_of_planningSteps {Inv : Db → Prop} {Fair : Step → Prop} (hdb : Inv db)
    (hfair : ∀ step ∈ planningSteps setting db calls, Fair step)
    (hstep : ∀ step : Step, Fair step → Inv step.before → Inv (step.after setting)) :
    ∀ step ∈ planningSteps setting db calls, Inv step.before ∧ Inv (step.after setting) := by
  induction calls generalizing db with
  | nil =>
    intro step hmem
    cases hmem
  | cons call calls ih =>
    have hhead := hfair ⟨db, call⟩ List.mem_cons_self
    have hafter := hstep ⟨db, call⟩ hhead hdb
    intro step hmem
    rcases List.mem_cons.mp hmem with rfl | hmem
    · exact ⟨hdb, hafter⟩
    · exact ih hafter (fun step hmem => hfair step (List.mem_cons_of_mem _ hmem)) step hmem

/-- The same rule for the states of a run. -/
theorem invariant_of_planningStates {Inv : Db → Prop} {Fair : Step → Prop} (hdb : Inv db)
    (hfair : ∀ step ∈ planningSteps setting db calls, Fair step)
    (hstep : ∀ step : Step, Fair step → Inv step.before → Inv (step.after setting)) :
    ∀ state ∈ planningStates setting db calls, Inv state := by
  intro state hmem
  rcases List.mem_cons.mp hmem with rfl | hmem
  · exact hdb
  · obtain ⟨step, hstep', rfl⟩ := List.mem_map.mp hmem
    exact (invariant_of_planningSteps hdb hfair hstep step hstep').2

end Odiseo.Syllabi
